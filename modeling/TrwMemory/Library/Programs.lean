import Mathlib.Data.List.Basic

/-!
Programs over a state that may stop with an error, and what they ensure when they return. The
state outlives an error: what the program did before it stopped stays done.

Jobs are programs on a store that others write as well. A job calls the store; each call is one
step, others write between two calls, and a call may raise, before it has taken effect or after.
Where the store has transactions, nobody else writes inside one, and one that raises leaves
nothing. The rules are those of a logic with one postcondition for a return and one for a raise.
An assertion is about the store, and the ones between two calls have to stand the writes of the
others. A job that is interrupted is one whose later calls all raise.
-/
namespace Library

def Program (σ ε α : Type) : Type := σ → Except ε α × σ

namespace Program

variable {σ ε α β : Type}

def run (program : Program σ ε α) (s : σ) : Except ε α × σ := program s

def andThen (program : Program σ ε α) (next : α → Program σ ε β) : Program σ ε β := fun s =>
  match program s with
  | (.ok a, t) => next a t
  | (.error e, t) => (.error e, t)

instance : Monad (Program σ ε) where
  pure a := fun s => (.ok a, s)
  bind := andThen

def fail (e : ε) : Program σ ε α := fun s => (.error e, s)

def read : Program σ ε σ := fun s => (.ok s, s)

def update (f : σ → σ) : Program σ ε Unit := fun s => (.ok (), f s)

/-- What the program returns or stops with. -/
def attempt (program : Program σ ε α) : Program σ ε (Except ε α) := fun s =>
  (.ok (program s).1, (program s).2)

/-- A program on a part of the state. -/
def within {τ : Type} (part : τ → σ) (put : τ → σ → τ) (program : Program σ ε α) :
    Program τ ε α := fun t => ((program (part t)).1, put t (program (part t)).2)

/-- The body for each item, one after the other. -/
def each (body : α → Program σ ε Unit) : List α → Program σ ε Unit
  | [] => pure ()
  | a :: rest => do
      body a
      each body rest

/-- What holds of the result and the state left behind when the program returns from `s`. -/
def Ensures (program : Program σ ε α) (s : σ) (post : α → σ → Prop) : Prop :=
  ∀ a t, program.run s = (.ok a, t) → post a t

section Rules

variable {program : Program σ ε α} {s : σ} {post : α → σ → Prop}

theorem Ensures.mono {weaker : α → σ → Prop} (h : program.Ensures s post)
    (hpost : ∀ a t, post a t → weaker a t) : program.Ensures s weaker :=
  fun a t hrun => hpost a t (h a t hrun)

theorem Ensures.and {post' : α → σ → Prop} (h : program.Ensures s post)
    (h' : program.Ensures s post') : program.Ensures s fun a t => post a t ∧ post' a t :=
  fun a t hrun => ⟨h a t hrun, h' a t hrun⟩

theorem ensures_pure {a : α} (h : post a s) : (pure a : Program σ ε α).Ensures s post := by
  intro b t hrun
  cases hrun
  exact h

theorem ensures_fail (e : ε) : (fail e : Program σ ε α).Ensures s post := by
  intro a t hrun
  cases hrun

theorem ensures_read {post : σ → σ → Prop} (h : post s s) :
    (read : Program σ ε σ).Ensures s post := by
  intro a t hrun
  cases hrun
  exact h

theorem ensures_update {f : σ → σ} {post : Unit → σ → Prop} (h : post () (f s)) :
    (update f : Program σ ε Unit).Ensures s post := by
  intro a t hrun
  cases hrun
  exact h

theorem ensures_within {τ : Type} {part : τ → σ} {put : τ → σ → τ} {t : τ}
    {post : α → τ → Prop}
    (h : program.Ensures (part t) fun a s => post a (put t s)) :
    (within part put program).Ensures t post := by
  intro a u hrun
  obtain ⟨hresult, rfl⟩ := Prod.mk.injEq .. ▸ hrun
  exact h a _ (Prod.ext hresult rfl)

theorem ensures_attempt {post : Except ε α → σ → Prop}
    (hok : program.Ensures s fun a t => post (.ok a) t)
    (herror : ∀ e t, program.run s = (.error e, t) → post (.error e) t) :
    (attempt program).Ensures s post := by
  intro result t hrun
  cases hrun
  cases hprogram : program s with
  | mk result t =>
      cases result with
      | ok a => exact hok a t hprogram
      | error e => exact herror e t hprogram

theorem run_bind (next : α → Program σ ε β) :
    (program >>= next).run s =
      match program.run s with
      | (.ok a, t) => (next a).run t
      | (.error e, t) => (.error e, t) := rfl

theorem ensures_bind {next : α → Program σ ε β} {post : β → σ → Prop}
    (h : program.Ensures s fun a t => (next a).Ensures t post) :
    (program >>= next).Ensures s post := by
  intro b u hrun
  rw [run_bind] at hrun
  cases hprogram : program.run s with
  | mk result t =>
      rw [hprogram] at hrun
      cases result with
      | ok a => exact h a t hprogram b u hrun
      | error e => cases hrun

theorem ensures_ite {c : Prop} [Decidable c] {other : Program σ ε α}
    (hpos : c → program.Ensures s post) (hneg : ¬ c → other.Ensures s post) :
    (if c then program else other).Ensures s post := by
  split
  · exact hpos ‹_›
  · exact hneg ‹_›

/-- A loop keeps what each round keeps of the items already done. -/
theorem ensures_each {body : α → Program σ ε Unit} {items : List α} (inv : List α → σ → Prop)
    (hstep : ∀ done a rest, items = done ++ a :: rest → ∀ t, inv done t →
      (body a).Ensures t fun _ u => inv (done ++ [a]) u)
    (h : inv [] s) : (each body items).Ensures s fun _ t => inv items t := by
  suffices hrest : ∀ rest done, items = done ++ rest → ∀ t, inv done t →
      (each body rest).Ensures t fun _ u => inv items u from hrest items [] rfl s h
  intro rest
  induction rest with
  | nil =>
      intro done hitems t ht
      rw [hitems, List.append_nil]
      exact ensures_pure ht
  | cons a rest ih =>
      intro done hitems t ht
      refine ensures_bind ((hstep done a rest hitems t ht).mono fun _ u hu => ?_)
      exact ih (done ++ [a]) (by rw [hitems, List.append_assoc, List.singleton_append]) u hu

end Rules

/-- The program stops with no error. -/
def Returns (program : Program σ ε α) : Prop := ∀ s, ∃ a t, program.run s = (.ok a, t)

theorem returns_pure (a : α) : (pure a : Program σ ε α).Returns := fun s => ⟨a, s, rfl⟩

theorem returns_attempt (program : Program σ ε α) : (attempt program).Returns :=
  fun _ => ⟨_, _, rfl⟩

theorem returns_bind {program : Program σ ε α} {next : α → Program σ ε β}
    (h : program.Returns) (hnext : ∀ a, (next a).Returns) : (program >>= next).Returns := by
  intro s
  obtain ⟨a, t, hrun⟩ := h s
  rw [run_bind, hrun]
  exact hnext a t

theorem returns_ite {c : Prop} [Decidable c] {program other : Program σ ε α}
    (h : program.Returns) (hother : other.Returns) :
    (if c then program else other).Returns := by
  split
  · exact h
  · exact hother

end Program

end Library

namespace Library.Jobs

inductive CallFault where
  | before | after
  deriving DecidableEq, Repr

/-- What surrounds the calls, by their number: what others write before one, and how it fails. -/
structure Setting (σ : Type) where
  others : Nat → σ → σ
  fault : Nat → Option CallFault
  atomic : Bool

structure World (σ : Type) where
  store : σ
  calls : Nat
  locked : Bool

inductive JobError (ε : Type) where
  | fault
  | own (e : ε)
  deriving DecidableEq, Repr

abbrev Job (σ ε α : Type) := Program (World σ) (JobError ε) α

variable {σ ε α β : Type} (x : Setting σ)

/-- The store that the next call finds. -/
def Setting.reached (w : World σ) : σ := if w.locked then w.store else x.others w.calls w.store

/-- One call. -/
def call (op : Program σ ε α) : Job σ ε α := fun w =>
  let found := x.reached w
  match x.fault w.calls with
  | none => ((op found).1.mapError .own, ⟨(op found).2, w.calls + 1, w.locked⟩)
  | some .before => (.error .fault, ⟨found, w.calls + 1, w.locked⟩)
  | some .after => (.error .fault, ⟨(op found).2, w.calls + 1, w.locked⟩)

/-- `with storage.transaction():`, which is not nested. -/
def transaction (body : Job σ ε α) : Job σ ε α := fun w =>
  if x.atomic then
    let found := x.others w.calls w.store
    match x.fault w.calls with
    | some _ => (.error .fault, ⟨found, w.calls + 1, false⟩)
    | none =>
        match body ⟨found, w.calls + 1, true⟩ with
        | (.error e, t) => (.error e, ⟨found, t.calls, false⟩)
        | (.ok a, t) =>
            match x.fault t.calls with
            | none => (.ok a, ⟨t.store, t.calls + 1, false⟩)
            | some .before => (.error .fault, ⟨found, t.calls + 1, false⟩)
            | some .after => (.error .fault, ⟨t.store, t.calls + 1, false⟩)
  else body w

/-- A value that depends on the number of the call, such as a clock's. -/
def reading (value : Nat → α) : Job σ ε α := fun w => (.ok (value w.calls), w)

/-- What the body returns for each item, one after the other. -/
def collect (body : α → Job σ ε β) : List α → Job σ ε (List β)
  | [] => pure []
  | a :: rest => do
      let b ← body a
      let bs ← collect body rest
      return b :: bs

/-- What the others do not make false. -/
def Setting.Stable (P : σ → Prop) : Prop := ∀ n s, P s → P (x.others n s)

/-- Some call raises after it has taken effect. -/
def Setting.Late : Prop := ∃ n, x.fault n = some .after

def outcome (returns : α → σ → Prop) (raises : σ → Prop) : Except (JobError ε) α × World σ → Prop
  | (.ok a, t) => returns a t.store
  | (.error _, t) => raises t.store

/-- From a store with `P` the job returns with one assertion or raises with the other. -/
def Triple (P : σ → Prop) (job : Job σ ε α) (returns : α → σ → Prop) (raises : σ → Prop) : Prop :=
  ∀ w, P w.store → outcome returns raises (job.run w)

section Rules

variable {x} {P P' R R' : σ → Prop} {Q Q' : α → σ → Prop} {S : β → σ → Prop}

theorem Setting.Stable.and (h : x.Stable P) (h' : x.Stable R) : x.Stable fun s => P s ∧ R s :=
  fun n s hs => ⟨h n s hs.1, h' n s hs.2⟩

theorem Setting.Stable.reached (h : x.Stable P) {w : World σ} (hw : P w.store) :
    P (x.reached w) := by
  unfold Setting.reached
  split
  · exact hw
  · exact h _ _ hw

theorem Triple.mono {job : Job σ ε α} (h : Triple P job Q R) (hpre : ∀ s, P' s → P s)
    (hreturns : ∀ a s, Q a s → Q' a s) (hraises : ∀ s, R s → R' s) : Triple P' job Q' R' := by
  intro w hw
  have hrun := h w (hpre _ hw)
  rcases hjob : job.run w with ⟨result, t⟩
  rw [hjob] at hrun
  cases result with
  | ok a => exact hreturns a _ hrun
  | error e => exact hraises _ hrun

theorem Triple.pure {a : α} (h : ∀ s, P s → Q a s) :
    Triple P (Pure.pure a : Job σ ε α) Q R := fun _ hw => h _ hw

theorem Triple.fail {e : JobError ε} (h : ∀ s, P s → R s) :
    Triple P (Program.fail e : Job σ ε α) Q R := fun _ hw => h _ hw

theorem Triple.reading {value : Nat → α} (h : ∀ n s, P s → Q (value n) s) :
    Triple P (Jobs.reading value : Job σ ε α) Q R := fun _ hw => h _ _ hw

theorem Triple.bind {job : Job σ ε α} {next : α → Job σ ε β} (h : Triple P job Q R)
    (hnext : ∀ a, Triple (Q a) (next a) S R) : Triple P (job >>= next) S R := by
  intro w hw
  have hrun := h w hw
  rw [Program.run_bind]
  rcases hjob : job.run w with ⟨result, t⟩
  rw [hjob] at hrun
  cases result with
  | ok a => exact hnext a t hrun
  | error e => exact hrun

theorem Triple.attempt {job : Job σ ε α} {S : Except (JobError ε) α → σ → Prop}
    (h : Triple P job (fun a => S (.ok a)) R) (hraises : ∀ e s, R s → S (.error e) s) :
    Triple P (Program.attempt job) S R' := by
  intro w hw
  have hrun := h w hw
  change S (job.run w).1 (job.run w).2.store
  rcases hjob : job.run w with ⟨result, t⟩
  rw [hjob] at hrun
  cases result with
  | ok a => exact hrun
  | error e => exact hraises e _ hrun

theorem Triple.ite {c : Prop} [Decidable c] {job other : Job σ ε α}
    (hpos : c → Triple P job Q R) (hneg : ¬ c → Triple P other Q R) :
    Triple P (if c then job else other) Q R := by
  split
  · exact hpos ‹_›
  · exact hneg ‹_›

/-- A call: what it makes of a store when it returns or raises by itself, and what it leaves when
it fails before it has taken effect or after. -/
theorem Triple.call {op : Program σ ε α} (hstable : x.Stable P)
    (hop : ∀ s, P s →
      match op.run s with
      | (.ok a, t) => Q a t
      | (.error _, t) => R t)
    (hbefore : ∀ s, P s → R s) (hafter : x.Late → ∀ s, P s → R (op.run s).2) :
    Triple P (Jobs.call x op) Q R := by
  intro w hw
  have hfound := hstable.reached hw
  have hrun := hop _ hfound
  unfold Program.run Jobs.call
  dsimp only
  cases hfault : x.fault w.calls with
  | none =>
      change outcome Q R ((op.run (x.reached w)).1.mapError .own,
        ⟨(op.run (x.reached w)).2, w.calls + 1, w.locked⟩)
      rcases hjob : op.run (x.reached w) with ⟨result, t⟩
      rw [hjob] at hrun
      cases result with
      | ok a => exact hrun
      | error e => exact hrun
  | some fault =>
      cases fault with
      | before => exact hbefore _ hfound
      | after => exact hafter ⟨_, hfault⟩ _ hfound

/-- A transaction, or its body where there are none. -/
theorem Triple.transaction {body : Job σ ε α} (hstable : x.Stable P) (hbody : Triple P body Q R)
    (hstart : ∀ s, P s → R s) (hcommit : x.Late → ∀ a s, Q a s → R s) :
    Triple P (Jobs.transaction x body) Q R := by
  intro w hw
  unfold Program.run Jobs.transaction
  dsimp only
  split
  · have hfound := hstable w.calls _ hw
    cases hbegin : x.fault w.calls with
    | some fault => exact hstart _ hfound
    | none =>
        have hrun := hbody ⟨x.others w.calls w.store, w.calls + 1, true⟩ hfound
        dsimp only
        change outcome Q R (match body.run ⟨x.others w.calls w.store, w.calls + 1, true⟩ with
          | (.error e, t) => _
          | (.ok a, t) => _)
        rcases hjob : body.run ⟨x.others w.calls w.store, w.calls + 1, true⟩ with ⟨result, t⟩
        rw [hjob] at hrun
        cases result with
        | error e => exact hstart _ hfound
        | ok a =>
            dsimp only
            cases hend : x.fault t.calls with
            | none => exact hrun
            | some fault =>
                cases fault with
                | before => exact hstart _ hfound
                | after => exact hcommit ⟨_, hend⟩ a _ hrun
  · exact hbody w hw

/-- A transaction that raises has changed nothing, where they are atomic and no call fails after
it has taken effect. -/
theorem Triple.atomically {body : Job σ ε α} (hatomic : x.atomic = true) (hlate : ¬ x.Late)
    (hstable : x.Stable P) (hbody : Triple P body Q R) :
    Triple P (Jobs.transaction x body) Q P := by
  intro w hw
  unfold Program.run Jobs.transaction
  dsimp only
  rw [if_pos hatomic]
  have hfound := hstable w.calls _ hw
  cases hbegin : x.fault w.calls with
  | some fault => exact hfound
  | none =>
      have hrun := hbody ⟨x.others w.calls w.store, w.calls + 1, true⟩ hfound
      dsimp only
      change outcome Q P (match body.run ⟨x.others w.calls w.store, w.calls + 1, true⟩ with
        | (.error e, t) => _
        | (.ok a, t) => _)
      rcases hjob : body.run ⟨x.others w.calls w.store, w.calls + 1, true⟩ with ⟨result, t⟩
      rw [hjob] at hrun
      cases result with
      | error e => exact hfound
      | ok a =>
          dsimp only
          cases hend : x.fault t.calls with
          | none => exact hrun
          | some fault =>
              cases fault with
              | before => exact hfound
              | after => exact absurd ⟨_, hend⟩ hlate

/-- A loop that keeps an assertion about the items it has done. -/
theorem Triple.each {body : α → Job σ ε Unit} {items : List α} (inv : List α → σ → Prop)
    (hstep : ∀ done a rest, items = done ++ a :: rest →
      Triple (inv done) (body a) (fun _ => inv (done ++ [a])) R) :
    Triple (inv []) (Program.each body items) (fun _ => inv items) R := by
  suffices hrest : ∀ rest done, items = done ++ rest →
      Triple (inv done) (Program.each body rest) (fun _ => inv items) R from hrest items [] rfl
  intro rest
  induction rest with
  | nil =>
      intro done hitems
      rw [hitems, List.append_nil]
      exact Triple.pure fun _ h => h
  | cons a rest ih =>
      intro done hitems
      refine Triple.bind (hstep done a rest hitems) fun _ => ih (done ++ [a]) ?_
      rw [hitems, List.append_assoc, List.singleton_append]

theorem Triple.collect {body : α → Job σ ε β} {items : List α}
    (inv : List α → List β → σ → Prop)
    (hstep : ∀ done bs a rest, items = done ++ a :: rest →
      Triple (inv done bs) (body a) (fun b => inv (done ++ [a]) (bs ++ [b])) R) :
    Triple (inv [] []) (Jobs.collect body items) (fun bs => inv items bs) R := by
  suffices hrest : ∀ rest done bs, items = done ++ rest →
      Triple (inv done bs) (Jobs.collect body rest) (fun bs' => inv items (bs ++ bs')) R from
    hrest items [] [] rfl
  intro rest
  induction rest with
  | nil =>
      intro done bs hitems
      refine Triple.pure fun s hs => ?_
      rw [hitems, List.append_nil, List.append_nil]
      exact hs
  | cons a rest ih =>
      intro done bs hitems
      refine Triple.bind (hstep done bs a rest hitems) fun b => ?_
      refine Triple.bind (ih (done ++ [a]) (bs ++ [b]) ?_) fun bs' => Triple.pure fun s hs => ?_
      · rw [hitems, List.append_assoc, List.singleton_append]
      · rwa [List.append_assoc, List.singleton_append] at hs

/-- What every call keeps, whether it returns or raises, is kept by the job. -/
abbrev Keeps (P : σ → Prop) (job : Job σ ε α) : Prop := Triple P job (fun _ => P) P

theorem Keeps.run {job : Job σ ε α} (h : Keeps P job) {w : World σ} (hw : P w.store) :
    P (job.run w).2.store := by
  have hrun := h w hw
  rcases hjob : job.run w with ⟨result, t⟩
  rw [hjob] at hrun
  cases result with
  | ok a => exact hrun
  | error e => exact hrun

theorem Keeps.call {op : Program σ ε α} (hstable : x.Stable P)
    (hop : ∀ s, P s → P (op.run s).2) : Keeps P (Jobs.call x op) := by
  refine Triple.call hstable (fun s hs => ?_) (fun _ hs => hs) fun _ s hs => hop s hs
  have hend := hop s hs
  rcases hrun : op.run s with ⟨result, t⟩
  rw [hrun] at hend
  cases result with
  | ok a => exact hend
  | error e => exact hend

theorem Keeps.transaction {body : Job σ ε α} (hstable : x.Stable P) (hbody : Keeps P body) :
    Keeps P (Jobs.transaction x body) :=
  Triple.transaction hstable hbody (fun _ h => h) fun _ _ _ h => h

theorem Keeps.each {body : α → Job σ ε Unit} {items : List α}
    (hstep : ∀ a ∈ items, Keeps P (body a)) : Keeps P (Program.each body items) :=
  Triple.each (fun _ => P) fun done a _ hitems =>
    hstep a (hitems ▸ List.mem_append_right done List.mem_cons_self)

theorem Keeps.of_run {job : Job σ ε α} (h : ∀ w, P w.store → P (job.run w).2.store) :
    Keeps P job := by
  intro w hw
  have hend := h w hw
  rcases hjob : job.run w with ⟨result, t⟩
  rw [hjob] at hend
  cases result with
  | ok a => exact hend
  | error e => exact hend

theorem Keeps.collect {body : α → Job σ ε β} {items : List α}
    (hstep : ∀ a ∈ items, Keeps P (body a)) : Keeps P (Jobs.collect body items) :=
  Triple.collect (fun _ _ => P) fun done _ a _ hitems =>
    hstep a (hitems ▸ List.mem_append_right done List.mem_cons_self)

theorem Keeps.attempt {job : Job σ ε α} (h : Keeps P job) : Keeps P (Program.attempt job) :=
  Triple.attempt h fun _ _ hs => hs

end Rules

end Library.Jobs

import TrwMemory.Daemon.Lane

/-!
The running slot of the lane. Whoever is to free the slot holds its token: a step between the
choice of a job and its release, or an item in a pool. The slot is full exactly while there is
a token, and there is one at most, so no two bodies run at once. An item always has a step
that will free it, and a queue with a job that is not cancelled is looked at again. So when
nothing is pending the slot is empty and the queue holds cancelled jobs only.
-/
namespace TrwMemory.Daemon

open Library.Threads

variable {Outcome : Type}

/-- The job for which a step holds the slot. -/
def Task.held : Task Outcome → Option Job
  | .lookUp job | .give job _ | .enter job | .body job | .settle job _ | .drop job => some job
  | _ => none

def Task.token : Task Outcome → Nat
  | .release => 1
  | task => task.held.toList.length

def tokens (pending : Multiset (Task Outcome)) : Nat := (pending.map Task.token).sum

@[simp]
theorem tokens_cons (t : Task Outcome) (pending : Multiset (Task Outcome)) :
    tokens (t ::ₘ pending) = t.token + tokens pending := by
  simp [tokens]

@[simp]
theorem tokens_add (pending new : Multiset (Task Outcome)) :
    tokens (pending + new) = tokens pending + tokens new := by
  simp [tokens]

@[simp]
theorem tokens_coe (new : List (Task Outcome)) :
    tokens (new : Multiset (Task Outcome)) = (new.map Task.token).sum := by
  simp [tokens]

namespace Offload

variable {J : Type} [DecidableEq J]

omit [DecidableEq J] in
theorem executorOf_items {o o' : Offload J} {pool : Nat}
    (h : o.executorOf = some (pool, o')) : o'.items = o.items := by
  unfold executorOf at h
  split at h
  · cases h
  · split at h <;> cases h <;> rfl

omit [DecidableEq J] in
theorem submit_items {o o' : Offload J} {pool : Nat} {job : J}
    (h : o.submit pool job = some o') : o'.items = o.items ++ [⟨pool, job, false, false⟩] := by
  unfold submit at h
  split at h <;> cases h
  rfl

omit [DecidableEq J] in
/-- With one item at most, every operation of a pool leaves it, changes it or takes it. -/
theorem items_cases {o : Offload J} (h : o.items.length ≤ 1) :
    o.items = [] ∨ ∃ item, o.items = [item] := by
  match hitems : o.items, h with
  | [], _ => exact .inl rfl
  | [item], _ => exact .inr ⟨item, rfl⟩

theorem addDoneCallback_nil {o : Offload J} (h : o.items = []) (job : J) :
    o.addDoneCallback job = (false, o) := by
  rw [addDoneCallback, h]
  rfl

theorem addDoneCallback_single {o : Offload J} {item : Item J} (h : o.items = [item]) (job : J) :
    o.addDoneCallback job =
      if item.job = job then
        if item.cancelled then (true, { o with items := [] })
        else (false, { o with items := [{ item with watched := true }] })
      else (false, o) := by
  rw [addDoneCallback, h, List.find?_singleton]
  by_cases hjob : item.job = job
  · simp [hjob, List.replace]
  · simp [hjob]

theorem takeItem_nil {o : Offload J} (h : o.items = []) (pool : Nat) (job : J) :
    o.takeItem pool job = none := by
  rw [takeItem, h]
  rfl

theorem takeItem_single {o : Offload J} {item : Item J} (h : o.items = [item]) (pool : Nat)
    (job : J) :
    o.takeItem pool job =
      if item.pool = pool ∧ item.job = job ∧ item.cancelled = false then
        some { o with items := [] }
      else none := by
  rw [takeItem, h, List.find?_singleton]
  by_cases hitem : item.pool = pool ∧ item.job = job ∧ item.cancelled = false
  · rw [if_pos hitem, if_pos (by simp [hitem])]
    simp
  · rw [if_neg hitem, if_neg (by simpa [and_assoc] using hitem)]
    rfl

theorem drainItem_nil {o : Offload J} (h : o.items = []) (pool : Nat) :
    o.drainItem pool = (.done, o) := by
  rw [drainItem, h]
  rfl

theorem drainItem_single {o : Offload J} {item : Item J} (h : o.items = [item]) (pool : Nat) :
    o.drainItem pool =
      if item.pool = pool ∧ item.cancelled = false then
        if item.watched then (.dropped item.job, { o with items := [] })
        else (.cancelled, { o with items := [{ item with cancelled := true }] })
      else (.done, o) := by
  rw [drainItem, h, List.find?_singleton]
  by_cases hitem : item.pool = pool ∧ item.cancelled = false
  · rw [if_pos hitem, if_pos (by simp [hitem])]
    simp [List.replace]
  · rw [if_neg hitem, if_neg (by simpa using hitem)]

end Offload

structure OneToken (s : Lane Outcome) (pending : Multiset (Task Outcome)) : Prop where
  counted : s.running.length = tokens pending + s.offload.items.length
  one : s.running.length ≤ 1

namespace OneToken

variable {s s' : Lane Outcome} {t : Task Outcome} {rest pending : Multiset (Task Outcome)}

/-- A step that leaves the slot alone hands its token on. -/
theorem handOn {new : List (Task Outcome)} (h : OneToken s (t ::ₘ rest))
    (hslot : s'.running = s.running)
    (htoken : (new.map Task.token).sum + s'.offload.items.length =
      t.token + s.offload.items.length) : OneToken s' (rest + ↑new) := by
  obtain ⟨hcounted, hone⟩ := h
  rw [tokens_cons] at hcounted
  refine ⟨?_, hslot ▸ hone⟩
  rw [hslot, tokens_add, tokens_coe]
  omega

theorem items_le (h : OneToken s pending) : s.offload.items.length ≤ 1 := by
  have hcounted := h.counted
  have hone := h.one
  omega

theorem items_cases (h : OneToken s pending) :
    s.offload.items = [] ∨ ∃ item, s.offload.items = [item] :=
  Offload.items_cases h.items_le

/-- Who holds the token holds the only one. -/
theorem alone (h : OneToken s (t ::ₘ rest)) (ht : t.token = 1) :
    tokens rest = 0 ∧ s.offload.items = [] := by
  have hcounted := h.counted
  have hone := h.one
  rw [tokens_cons] at hcounted
  exact ⟨by omega, List.length_eq_zero_iff.mp (by omega)⟩

/-- While the slot is empty there is no token. -/
theorem empty (h : OneToken s pending) (hslot : s.running = []) :
    tokens pending = 0 ∧ s.offload.items = [] := by
  have hcounted := h.counted
  rw [hslot, List.length_nil] at hcounted
  exact ⟨by omega, List.length_eq_zero_iff.mp (by omega)⟩

end OneToken

theorem cancel_running (s : Lane Outcome) (job : Job) : (s.cancel job).running = s.running := by
  unfold Lane.cancel
  split <;> rfl

theorem cancel_offload (s : Lane Outcome) (job : Job) : (s.cancel job).offload = s.offload := by
  unfold Lane.cancel
  split <;> rfl

theorem cancel_queue (s : Lane Outcome) (job : Job) : (s.cancel job).queue = s.queue := by
  unfold Lane.cancel
  split <;> rfl

theorem enqueue_cases (s : Lane Outcome) (job : Job) :
    s.shutdown = true ∧ s.enqueue job = ((s.cancel job).mark (.refused job), []) ∨
      s.shutdown = false ∧
        s.enqueue job =
          ({ s with queue := s.queue ++ [job] }.mark (.accepted job), [.dispatch]) := by
  unfold Lane.enqueue
  cases s.shutdown with
  | true => exact .inl ⟨rfl, rfl⟩
  | false => exact .inr ⟨rfl, rfl⟩

/-- A full slot or an empty queue is left so; otherwise a job of least rank takes the slot. -/
theorem dispatch_cases (s : Lane Outcome) :
    (s.running ≠ [] ∨ s.waiting = []) ∧ s.dispatch = ({ s with queue := s.waiting }, []) ∨
      ∃ job ∈ s.waiting, s.running = [] ∧
        (∀ other ∈ s.waiting, Lane.rank s.served s.now job ≤ Lane.rank s.served s.now other) ∧
        s.dispatch =
          ({ s with
              queue := s.waiting.erase job
              running := [job]
              served := Lane.serve s.served job.tenant s.now },
            [.lookUp job]) := by
  unfold Lane.dispatch
  by_cases hslot : s.running = []
  · rw [if_neg (not_not_intro hslot)]
    cases hmin : s.waiting.argmin (Lane.rank s.served s.now) with
    | none => exact .inl ⟨.inr (List.argmin_eq_none.mp hmin), rfl⟩
    | some job =>
        refine .inr ⟨job, List.argmin_mem hmin, hslot, ?_, ?_⟩
        · intro other hother
          exact List.le_of_mem_argmin hother hmin
        · rw [hslot]
          rfl
  · rw [if_pos hslot]
    exact .inl ⟨.inl hslot, rfl⟩

theorem oneToken_dispatch {s : Lane Outcome} {rest : Multiset (Task Outcome)}
    (h : OneToken s (.dispatch ::ₘ rest)) : OneToken s.dispatch.1 (rest + ↑s.dispatch.2) := by
  obtain ⟨-, heq⟩ | ⟨job, -, hslot, -, heq⟩ := dispatch_cases s
  · rw [heq]
    exact h.handOn rfl rfl
  · obtain ⟨hrest, hitems⟩ := h.empty hslot
    rw [tokens_cons] at hrest
    rw [heq]
    refine ⟨?_, Nat.le_refl 1⟩
    rw [tokens_add, tokens_coe]
    simp only [hitems, List.length_singleton, List.length_nil, List.map_cons, List.map_nil,
      List.sum_cons, List.sum_nil, Task.token, Task.held, Option.toList_some]
    omega

theorem oneToken_perform (t : Task Outcome) (outcome : Outcome) (s : Lane Outcome)
    (rest : Multiset (Task Outcome)) (h : OneToken s (t ::ₘ rest)) :
    OneToken (Lane.perform t outcome s).1 (rest + ↑(Lane.perform t outcome s).2) := by
  cases t with
  | number => exact h.handOn rfl rfl
  | enqueue job =>
      simp only [Lane.perform]
      obtain ⟨-, heq⟩ | ⟨-, heq⟩ := enqueue_cases s job
      · rw [heq]
        refine h.handOn (cancel_running s job) ?_
        simp [Lane.mark, cancel_offload, Task.token, Task.held]
      · rw [heq]
        exact h.handOn rfl rfl
  | dispatch => exact oneToken_dispatch h
  | lookUp job =>
      simp only [Lane.perform, Lane.lookUp]
      split
      · exact h.handOn rfl rfl
      · rename_i heq
        exact h.handOn rfl (by simp [Offload.executorOf_items heq, Task.token, Task.held])
  | give job pool =>
      simp only [Lane.perform, Lane.give]
      split
      · exact h.handOn rfl rfl
      · rename_i heq
        refine h.handOn rfl ?_
        simp [Offload.submit_items heq, Task.token, Task.held, Nat.add_comm]
  | watch job =>
      refine h.handOn rfl ?_
      obtain hitems | ⟨item, hitems⟩ := h.items_cases
      · simp [Lane.perform, Lane.watch, Offload.addDoneCallback_nil hitems, Task.token, Task.held]
      · simp only [Lane.perform, Lane.watch, Offload.addDoneCallback_single hitems, hitems]
        split
        · split <;> rfl
        · simp [hitems, Task.token, Task.held]
  | take job pool =>
      simp only [Lane.perform, Lane.take]
      obtain hitems | ⟨item, hitems⟩ := h.items_cases
      · rw [Offload.takeItem_nil hitems]
        exact h.handOn rfl rfl
      · rw [Offload.takeItem_single hitems]
        split
        · rename_i heq
          split at heq <;> cases heq
          exact h.handOn rfl rfl
        · rename_i heq
          split at heq <;> cases heq
          exact h.handOn rfl (by simp [hitems, Task.token, Task.held])
  | enter job =>
      simp only [Lane.perform, Lane.enter]
      split <;> exact h.handOn rfl rfl
  | body job => exact h.handOn rfl rfl
  | settle job result =>
      simp only [Lane.perform, Lane.settle]
      split <;> exact h.handOn rfl rfl
  | drop job =>
      refine h.handOn (cancel_running s job) ?_
      simp [Lane.perform, Lane.drop, cancel_offload, Task.token, Task.held]
  | release =>
      obtain ⟨hrest, hitems⟩ := h.alone rfl
      refine ⟨?_, Nat.zero_le _⟩
      rw [tokens_add, tokens_coe, hrest]
      simp [Lane.perform, Lane.release, hitems, Task.token, Task.held]
  | cancelAll dropped pools =>
      cases dropped with
      | nil => cases pools <;> exact h.handOn rfl rfl
      | cons job dropped =>
          refine h.handOn (cancel_running s job) ?_
          simp [Lane.perform, Lane.cancelAll, cancel_offload, Task.token, Task.held]
  | takePool =>
      refine h.handOn rfl ?_
      simp only [Lane.perform, Lane.takePool, Offload.takeExecutor]
      cases s.offload.executor <;> rfl
  | shut pool => exact h.handOn rfl rfl
  | drain pool =>
      refine h.handOn rfl ?_
      obtain hitems | ⟨item, hitems⟩ := h.items_cases
      · simp only [Lane.perform, Lane.drain, Offload.drainItem_nil hitems]
        rfl
      · simp only [Lane.perform, Lane.drain, Offload.drainItem_single hitems, hitems]
        by_cases hitem : item.pool = pool ∧ item.cancelled = false
        · rw [if_pos hitem]
          split <;> rfl
        · rw [if_neg hitem, hitems]
          rfl

theorem oneToken_call (c : Call) (s : Lane Outcome) (pending : Multiset (Task Outcome))
    (r : Lane Outcome × List (Task Outcome)) (h : OneToken s pending)
    (hr : s.call c = some r) : OneToken r.1 (pending + ↑r.2) := by
  have hframe : r.1.running = s.running ∧ r.1.offload.items = s.offload.items ∧
      (r.2.map Task.token).sum = 0 := by
    cases c with
    | passes time =>
        simp only [Lane.call] at hr
        split at hr <;> cases hr
        exact ⟨rfl, rfl, rfl⟩
    | cancel job =>
        simp only [Lane.call] at hr
        split at hr <;> cases hr
        exact ⟨cancel_running s job, by rw [cancel_offload], rfl⟩
    | _ =>
        cases hr
        exact ⟨rfl, rfl, rfl⟩
  obtain ⟨hslot, hitems, hnew⟩ := hframe
  refine ⟨?_, hslot ▸ h.one⟩
  rw [hslot, hitems, tokens_add, tokens_coe, hnew]
  exact h.counted

/-- An item that nobody watches is still to be watched, one that waits is still to be taken,
and one that was cancelled is not watched. -/
def Attended (pending : Multiset (Task Outcome)) (item : Item Job) : Prop :=
  (item.watched = false → .watch item.job ∈ pending) ∧
    (item.cancelled = false → .take item.job item.pool ∈ pending) ∧
    (item.cancelled = true → item.watched = false)

structure ItemsAttended (s : Lane Outcome) (pending : Multiset (Task Outcome)) : Prop where
  token : OneToken s pending
  attended : ∀ item ∈ s.offload.items, Attended pending item

/-- Steps other than the ones an item waits for leave it attended. -/
theorem Attended.mono {pending pending' : Multiset (Task Outcome)} {item : Item Job}
    (h : Attended pending item) (hwatch : ∀ job, .watch job ∈ pending → .watch job ∈ pending')
    (htake : ∀ job pool, .take job pool ∈ pending → .take job pool ∈ pending') :
    Attended pending' item :=
  ⟨fun hw => hwatch _ (h.1 hw), fun hc => htake _ _ (h.2.1 hc), h.2.2⟩

theorem Attended.after {t : Task Outcome} {rest : Multiset (Task Outcome)}
    {new : List (Task Outcome)} {item : Item Job} (h : Attended (t ::ₘ rest) item)
    (hwatch : t ≠ .watch item.job) (htake : t ≠ .take item.job item.pool) :
    Attended (rest + (↑new : Multiset (Task Outcome))) item := by
  refine ⟨fun hw => ?_, fun hc => ?_, h.2.2⟩
  · obtain heq | hmem := Multiset.mem_cons.mp (h.1 hw)
    · exact absurd heq.symm hwatch
    · exact Multiset.mem_add.mpr (.inl hmem)
  · obtain heq | hmem := Multiset.mem_cons.mp (h.2.1 hc)
    · exact absurd heq.symm htake
    · exact Multiset.mem_add.mpr (.inl hmem)

/-- Only four steps touch the items of a pool. -/
theorem perform_items (t : Task Outcome) (outcome : Outcome) (s : Lane Outcome)
    (hgive : ∀ job pool, t ≠ .give job pool) (hwatch : ∀ job, t ≠ .watch job)
    (htake : ∀ job pool, t ≠ .take job pool) (hdrain : ∀ pool, t ≠ .drain pool) :
    (Lane.perform t outcome s).1.offload.items = s.offload.items := by
  cases t with
  | enqueue job =>
      simp only [Lane.perform, Lane.enqueue]
      split
      · exact congrArg Offload.items (cancel_offload s job)
      · rfl
  | dispatch =>
      simp only [Lane.perform, Lane.dispatch]
      split
      · rfl
      · split <;> rfl
  | lookUp job =>
      simp only [Lane.perform, Lane.lookUp]
      split
      · rfl
      · rename_i heq
        exact Offload.executorOf_items heq
  | give job pool => exact absurd rfl (hgive job pool)
  | watch job => exact absurd rfl (hwatch job)
  | take job pool => exact absurd rfl (htake job pool)
  | drain pool => exact absurd rfl (hdrain pool)
  | enter job =>
      simp only [Lane.perform, Lane.enter]
      split <;> rfl
  | settle job result =>
      simp only [Lane.perform, Lane.settle]
      split <;> rfl
  | drop job => exact congrArg Offload.items (cancel_offload s job)
  | cancelAll dropped pools =>
      cases dropped with
      | nil => cases pools <;> rfl
      | cons job dropped => exact congrArg Offload.items (cancel_offload s job)
  | _ => rfl

theorem attended_perform (t : Task Outcome) (outcome : Outcome) (s : Lane Outcome)
    (rest : Multiset (Task Outcome)) (h : ItemsAttended s (t ::ₘ rest)) :
    ∀ item ∈ (Lane.perform t outcome s).1.offload.items,
      Attended (rest + (↑(Lane.perform t outcome s).2 : Multiset (Task Outcome))) item := by
  have hother : (∀ job pool, t ≠ .give job pool) → (∀ job, t ≠ .watch job) →
      (∀ job pool, t ≠ .take job pool) → (∀ pool, t ≠ .drain pool) →
      ∀ item ∈ (Lane.perform t outcome s).1.offload.items,
        Attended (rest + (↑(Lane.perform t outcome s).2 : Multiset (Task Outcome))) item := by
    intro hgive hwatch htake hdrain item hitem
    rw [perform_items t outcome s hgive hwatch htake hdrain] at hitem
    exact (h.attended item hitem).after (hwatch _) (htake _ _)
  cases t with
  | give job pool =>
      intro item hitem
      obtain ⟨-, hnone⟩ := h.token.alone rfl
      simp only [Lane.perform, Lane.give] at hitem ⊢
      split at hitem
      · rw [hnone] at hitem
        cases hitem
      · rename_i heq
        dsimp only at hitem
        rw [Offload.submit_items heq, hnone] at hitem
        cases List.mem_singleton.mp hitem
        exact ⟨fun _ => by simp [heq], fun _ => by simp [heq], nofun⟩
  | watch job =>
      intro item hitem
      obtain hitems | ⟨waiting, hitems⟩ := h.token.items_cases
      · simp only [Lane.perform, Lane.watch, Offload.addDoneCallback_nil hitems, hitems] at hitem
        cases hitem
      · have hwaiting := h.attended waiting (by simp [hitems])
        simp only [Lane.perform, Lane.watch, Offload.addDoneCallback_single hitems] at hitem ⊢
        by_cases hjob : waiting.job = job
        · rw [if_pos hjob] at hitem ⊢
          by_cases hcancelled : waiting.cancelled = true
          · rw [if_pos hcancelled] at hitem
            cases hitem
          · rw [if_neg hcancelled] at hitem ⊢
            cases List.mem_singleton.mp hitem
            refine ⟨nofun, fun hc => ?_, fun hc => absurd hc hcancelled⟩
            simpa using hwaiting.2.1 hc
        · rw [if_neg hjob, hitems] at hitem
          rw [if_neg hjob]
          cases List.mem_singleton.mp hitem
          exact hwaiting.after (fun heq => hjob (by cases heq; rfl)) nofun
  | take job pool =>
      intro item hitem
      obtain hitems | ⟨waiting, hitems⟩ := h.token.items_cases
      · simp only [Lane.perform, Lane.take, Offload.takeItem_nil hitems, hitems] at hitem
        cases hitem
      · have hwaiting := h.attended waiting (by simp [hitems])
        simp only [Lane.perform, Lane.take, Offload.takeItem_single hitems] at hitem ⊢
        by_cases hfree : waiting.pool = pool ∧ waiting.job = job ∧ waiting.cancelled = false
        · rw [if_pos hfree] at hitem
          cases hitem
        · rw [if_neg hfree] at hitem ⊢
          dsimp only at hitem
          rw [hitems] at hitem
          cases List.mem_singleton.mp hitem
          refine ⟨fun hw => ?_, fun hc => ?_, hwaiting.2.2⟩
          · simpa using hwaiting.1 hw
          · obtain heq | hmem := Multiset.mem_cons.mp (hwaiting.2.1 hc)
            · cases heq
              exact absurd ⟨rfl, rfl, hc⟩ hfree
            · simpa using hmem
  | drain pool =>
      intro item hitem
      obtain hitems | ⟨waiting, hitems⟩ := h.token.items_cases
      · simp only [Lane.perform, Lane.drain, Offload.drainItem_nil hitems, hitems] at hitem
        cases hitem
      · have hwaiting := h.attended waiting (by simp [hitems])
        simp only [Lane.perform, Lane.drain, Offload.drainItem_single hitems] at hitem ⊢
        by_cases hfree : waiting.pool = pool ∧ waiting.cancelled = false
        · rw [if_pos hfree] at hitem ⊢
          by_cases hwatched : waiting.watched = true
          · rw [if_pos hwatched] at hitem
            cases hitem
          · rw [if_neg hwatched] at hitem ⊢
            cases List.mem_singleton.mp hitem
            refine ⟨fun hw => ?_, nofun, fun _ => by simpa using hwatched⟩
            have hmem := hwaiting.1 (by simpa using hwatched)
            exact Multiset.mem_add.mpr (.inl (by simpa using hmem))
        · rw [if_neg hfree] at hitem ⊢
          rw [hitems] at hitem
          cases List.mem_singleton.mp hitem
          exact hwaiting.after nofun nofun
  | _ => exact hother nofun nofun nofun nofun

theorem attended_call (c : Call) (s : Lane Outcome) (pending : Multiset (Task Outcome))
    (r : Lane Outcome × List (Task Outcome)) (h : ItemsAttended s pending)
    (hr : s.call c = some r) : ∀ item ∈ r.1.offload.items,
      Attended (pending + (↑r.2 : Multiset (Task Outcome))) item := by
  have hframe : r.1.offload.items = s.offload.items := by
    cases c with
    | passes time =>
        simp only [Lane.call] at hr
        split at hr <;> cases hr
        rfl
    | cancel job =>
        simp only [Lane.call] at hr
        split at hr <;> cases hr
        rw [cancel_offload]
    | _ =>
        cases hr
        rfl
  intro item hitem
  rw [hframe] at hitem
  exact (h.attended item hitem).mono (fun _ hmem => Multiset.mem_add.mpr (.inl hmem))
    fun _ _ hmem => Multiset.mem_add.mpr (.inl hmem)

theorem itemsAttended_keeps :
    Program.Keeps (Lane.program : Program (Lane Outcome) (Task Outcome) Outcome Call)
      ItemsAttended where
  perform t outcome s rest h :=
    ⟨oneToken_perform t outcome s rest h.token, attended_perform t outcome s rest h⟩
  call c s pending r h hr :=
    ⟨oneToken_call c s pending r h.token hr, attended_call c s pending r h hr⟩

end TrwMemory.Daemon

import TrwMemory.Library.Transition

/-!
The one session that a client of the daemon holds across calls (`daemon._held_session`), on one
event loop. What a coroutine does between two of its awaits is one step; coroutines interleave at
the awaits. A session is known by the number of the opening that made it.

The history and the count of closings are no part of the code: they mark what callers can tell.
That a call awaits the closing of a session matters only in `acquire`, which goes on after it. A
client that fails to open, what a closing does, and the end of the loop are not modelled.
-/
namespace TrwMemory.Daemon

open Library.Threads Library.Transition

/-- `HeldSession`. `closings` counts the calls of its stack's `aclose`. -/
structure HeldSession (K : Type) where
  key : K
  active : Nat
  released : Bool
  closed : Bool
  closings : Nat

inductive SessionMark where
  | opened (id : Nat)
  | reused (id : Nat)
  | released (id : Nat)
deriving DecidableEq

structure HeldSessions (K : Type) where
  opened : Nat
  session : Nat → Option (HeldSession K)
  held : Option Nat
  retired : Bool
  opening : Bool
  history : List SessionMark

/-- What a coroutine has still to do. -/
inductive SessionTask (K : Type) where
  | acquire (key : K)
  | closeFirst (key : K)
  | openClient (key : K)
  | use (id : Nat)
deriving DecidableEq

/-- A coroutine that holds the lock of `acquire`. -/
def SessionTask.opens {K : Type} : SessionTask K → Bool
  | .closeFirst _ | .openClient _ => true
  | _ => false

/-- A call that uses a session. -/
def SessionTask.uses {K : Type} : SessionTask K → Bool
  | .use _ => true
  | _ => false

/-- An await of another coroutine ends well, or with an error or a cancellation. -/
inductive Awaited where
  | done | failed
deriving DecidableEq

inductive SessionCall (K : Type) where
  | acquire (key : K)
  | release (id : Nat)
  | retire
deriving DecidableEq

namespace HeldSessions

variable {K : Type}

def put (s : HeldSessions K) (id : Nat) (held : HeldSession K) : HeldSessions K :=
  { s with session := Function.update s.session id (some held) }

def mark (s : HeldSessions K) (m : SessionMark) : HeldSessions K :=
  { s with history := s.history ++ [m] }

/-- `_close`, up to its await. The flag says that there is one. -/
def close (s : HeldSessions K) (id : Nat) (held : HeldSession K) : HeldSessions K × Bool :=
  if held.closed then (s.put id held, false)
  else (s.put id { held with closed := true, closings := held.closings + 1 }, true)

/-- `drop`. -/
def drop (s : HeldSessions K) : HeldSessions K × Bool :=
  match s.held with
  | none => (s, false)
  | some id =>
      match s.session id with
      | none => ({ s with held := none }, false)
      | some held =>
          let dropped := { s with held := none }.mark (.released id)
          if held.active = 0 then dropped.close id { held with released := true }
          else (dropped.put id { held with released := true }, false)

/-- The session that `acquire` may hand out as it is. -/
def reusable [DecidableEq K] (s : HeldSessions K) (key : K) : Option (Nat × HeldSession K) := do
  let id ← s.held
  let held ← s.session id
  if held.key = key then some (id, held) else none

/-- `acquire` under its lock, up to its first await. A coroutine that finds the lock taken waits,
and may be cancelled while it does. -/
def acquire [DecidableEq K] (s : HeldSessions K) (key : K) (awaited : Awaited) :
    HeldSessions K × List (SessionTask K) :=
  if s.opening then (s, if awaited = .done then [.acquire key] else [])
  else
    match s.reusable key with
    | some (id, held) =>
        ((s.put id { held with active := held.active + 1 }).mark (.reused id), [.use id])
    | none =>
        ({ s.drop.1 with opening := true },
          [if s.drop.2 then .closeFirst key else .openClient key])

/-- The old session is closed, or its closing was cancelled, which leaves `acquire`. -/
def closeFirst (s : HeldSessions K) (key : K) : Awaited → HeldSessions K × List (SessionTask K)
  | .done => (s, [.openClient key])
  | .failed => ({ s with opening := false }, [])

/-- The end of `acquire`. A session that opens after `retire` is born released. -/
def openClient (s : HeldSessions K) (key : K) : Awaited → HeldSessions K × List (SessionTask K)
  | .failed => ({ s with opening := false }, [])
  | .done =>
      let fresh := { s with opened := s.opened + 1, opening := false }.put s.opened
        ⟨key, 1, s.retired, false, 0⟩
      let marked := fresh.mark (.opened s.opened)
      (if s.retired then marked.mark (.released s.opened)
        else { marked with held := some s.opened },
        [.use s.opened])

/-- `done_with`. -/
def doneWith (s : HeldSessions K) (id : Nat) : HeldSessions K × List (SessionTask K) :=
  match s.session id with
  | none => (s, [])
  | some held =>
      let returned := { held with active := held.active - 1 }
      (if returned.released ∧ returned.active = 0 then (s.close id returned).1
        else s.put id returned, [])

def perform [DecidableEq K] (task : SessionTask K) (awaited : Awaited) (s : HeldSessions K) :
    HeldSessions K × List (SessionTask K) :=
  match task with
  | .acquire key => s.acquire key awaited
  | .closeFirst key => s.closeFirst key awaited
  | .openClient key => s.openClient key awaited
  | .use id => s.doneWith id

/-- `release` of a session that was opened, at any time, and `retire`. -/
def call (c : SessionCall K) (s : HeldSessions K) :
    Option (HeldSessions K × List (SessionTask K)) :=
  match c with
  | .acquire key => some (s, [.acquire key])
  | .release id =>
      if id < s.opened then some (if s.held = some id then s.drop.1 else s, []) else none
  | .retire => some ({ s with retired := true }.drop.1, [])

def program [DecidableEq K] : Program (HeldSessions K) (SessionTask K) Awaited (SessionCall K) :=
  ⟨perform, call⟩

def initial : HeldSessions K := ⟨0, fun _ => none, none, false, false, []⟩

/-- The flags of a session, by whether it is held and how many calls use it. -/
structure Account (isHeld : Prop) (calls : Nat) (held : HeldSession K) : Prop where
  active : held.active = calls
  released : held.released = true ↔ ¬ isHeld
  closed : held.closed = true ↔ held.released = true ∧ held.active = 0
  closings : held.closings = if held.closed then 1 else 0

/-- Every session is accounted for, and none that was released is handed out after that. -/
structure Sound (s : HeldSessions K) (uses : Nat → Nat) : Prop where
  unknown : ∀ id, s.opened ≤ id → uses id = 0
  account : ∀ id < s.opened, ∃ held, s.session id = some held ∧
    Account (s.held = some id) (uses id) held
  holds : ∀ id, s.held = some id → id < s.opened
  marked : ∀ id, .released id ∈ s.history → id < s.opened ∧ s.held ≠ some id
  order : ∀ id, ¬ [.released id, .reused id].Sublist s.history

variable {s : HeldSessions K} {uses : Nat → Nat}

theorem Account.held {isHeld : Prop} {calls : Nat} {held : HeldSession K}
    (h : Account isHeld calls held) (hheld : isHeld) :
    held.released = false ∧ held.closed = false ∧ held.closings = 0 := by
  have hreleased : held.released = false :=
    Bool.eq_false_iff.mpr fun hreleased => h.released.mp hreleased hheld
  have hclosed : held.closed = false := by
    refine Bool.eq_false_iff.mpr fun hclosed => ?_
    rw [(h.closed.mp hclosed).1] at hreleased
    cases hreleased
  refine ⟨hreleased, hclosed, ?_⟩
  rw [h.closings, hclosed]
  rfl

/-- A mark that hands out nothing. -/
theorem Sound.order_mark (h : Sound s uses) {m : SessionMark}
    (hm : ∀ id, m = .reused id → .released id ∉ s.history) (id : Nat) :
    ¬ [.released id, .reused id].Sublist (s.mark m).history := by
  intro hsub
  rcases pair_sublist_concat.mp hsub with hold | ⟨hreleased, hnew⟩
  · exact h.order id hold
  · exact hm id hnew.symm hreleased

/-- Another account of one session. -/
theorem Sound.put (h : Sound s uses) {id calls : Nat} {held : HeldSession K}
    (hid : id < s.opened) (haccount : Account (s.held = some id) calls held) :
    Sound (s.put id held) (Function.update uses id calls) := by
  refine ⟨fun other hother => ?_, fun other hother => ?_, h.holds, h.marked, h.order⟩
  · rw [Function.update_of_ne (show other ≠ id from fun heq => Nat.not_le.mpr hid (heq ▸ hother))]
    exact h.unknown other hother
  · by_cases hsame : other = id
    · subst hsame
      rw [Function.update_self]
      exact ⟨held, Function.update_self .., haccount⟩
    · rw [Function.update_of_ne hsame]
      obtain ⟨session, hsession, hother⟩ := h.account other hother
      exact ⟨session, (Function.update_of_ne hsame ..).trans hsession, hother⟩

theorem Sound.mark (h : Sound s uses) {m : SessionMark}
    (hreused : ∀ id, m = .reused id → .released id ∉ s.history)
    (hreleased : ∀ id, m = .released id → id < s.opened ∧ s.held ≠ some id) :
    Sound (s.mark m) uses := by
  refine ⟨h.unknown, h.account, h.holds, fun id hmem => ?_, h.order_mark hreused⟩
  rcases List.mem_append.mp hmem with hold | hnew
  · exact h.marked id hold
  · exact hreleased id (List.mem_singleton.mp hnew).symm

theorem sound_drop (h : Sound s uses) : Sound s.drop.1 uses ∧ s.drop.1.held = none := by
  cases hheld : s.held with
  | none =>
      have heq : s.drop = (s, false) := by rw [drop, hheld]
      rw [heq]
      exact ⟨h, hheld⟩
  | some id =>
      obtain ⟨held, hsession, haccount⟩ := h.account id (h.holds id hheld)
      obtain ⟨hreleased, hclosed, hclosings⟩ := haccount.held hheld
      -- the session is released, and closed if no call uses it
      have heq :
          ∃ dropped, s.drop.1 = ({ s with held := none }.mark (.released id)).put id dropped ∧
          Account False (uses id) dropped := by
        rw [drop, hheld]
        dsimp only
        rw [hsession]
        dsimp only
        split
        · rename_i hidle
          refine ⟨{ held with released := true, closed := true, closings := held.closings + 1 },
            ?_, haccount.active, by simp, by simp [hidle], by simp [hclosings]⟩
          rw [close, if_neg (by simp [hclosed])]
        · rename_i hbusy
          refine ⟨{ held with released := true }, rfl, haccount.active, by simp, ?_, ?_⟩
          · simp [hclosed, hbusy]
          · simp [hclosings, hclosed]
      obtain ⟨dropped, heq, hdropped⟩ := heq
      rw [heq]
      refine ⟨⟨h.unknown, fun other hother => ?_, nofun, fun other hmem => ?_, ?_⟩, rfl⟩
      · by_cases hsame : other = id
        · subst hsame
          refine ⟨dropped, Function.update_self .., ?_⟩
          exact ⟨hdropped.active, iff_of_true (hdropped.released.mpr id) nofun, hdropped.closed,
            hdropped.closings⟩
        · obtain ⟨session, hother, haccount'⟩ := h.account other hother
          refine ⟨session, (Function.update_of_ne hsame ..).trans hother, haccount'.active, ?_,
            haccount'.closed, haccount'.closings⟩
          have hnot : s.held ≠ some other := by
            rw [hheld]
            exact fun heq => hsame (Option.some.inj heq).symm
          exact iff_of_true (haccount'.released.mpr hnot) nofun
      · refine ⟨?_, nofun⟩
        rcases List.mem_append.mp hmem with hold | hnew
        · exact (h.marked other hold).1
        · cases List.mem_singleton.mp hnew
          exact h.holds id hheld
      · exact h.order_mark nofun

/-- The held session is handed to one more call. -/
theorem sound_reuse [DecidableEq K] (h : Sound s uses) {key : K} {id : Nat} {held : HeldSession K}
    (hreusable : s.reusable key = some (id, held)) :
    Sound ((s.put id { held with active := held.active + 1 }).mark (.reused id))
      (Function.update uses id (uses id + 1)) := by
  obtain ⟨found, hheld, hrest⟩ := Option.bind_eq_some_iff.mp hreusable
  obtain ⟨session, hsession, hkey⟩ := Option.bind_eq_some_iff.mp hrest
  split at hkey
  · cases hkey
    obtain ⟨known, hknown, haccount⟩ := h.account id (h.holds id hheld)
    obtain rfl := Option.some.inj (hsession.symm.trans hknown)
    have hone : Account (s.held = some id) (uses id + 1) { held with active := held.active + 1 } :=
      ⟨congrArg Nat.succ haccount.active, haccount.released, by simp [haccount.held hheld],
        haccount.closings⟩
    refine (h.put (h.holds id hheld) hone).mark (fun other heq hmem => ?_) nofun
    cases heq
    exact (h.marked id hmem).2 hheld
  · cases hkey

/-- A session is opened while none is held. -/
theorem sound_openClient (h : Sound s uses) (hfree : s.held = none) (key : K) :
    Sound (s.openClient key .done).1 (Function.update uses s.opened 1) := by
  have hfresh : ∀ id < s.opened, id ≠ s.opened := fun id hid => Nat.ne_of_lt hid
  -- the accounts of the sessions of before and of the new one
  have hsound : ∀ newly : Option Nat, (newly = none ↔ s.retired = true) →
      (∀ id, newly = some id → id = s.opened) →
      ∀ history, (∀ id, .released id ∈ history → .released id ∈ s.history ∨
        id = s.opened ∧ newly = none) → (∀ id, ¬ [.released id, .reused id].Sublist history) →
      Sound ⟨s.opened + 1, Function.update s.session s.opened (some ⟨key, 1, s.retired, false, 0⟩),
        newly, s.retired, false, history⟩ (Function.update uses s.opened 1) := by
    intro newly hretired hnewly history hmarked horder
    refine ⟨fun id hid => ?_, fun id hid => ?_, fun id hid => ?_, fun id hmem => ?_, horder⟩
    · rw [Function.update_of_ne (Nat.ne_of_gt hid)]
      exact h.unknown id (Nat.le_of_succ_le hid)
    · rcases Nat.lt_succ_iff_lt_or_eq.mp hid with hold | rfl
      · obtain ⟨held, hsession, haccount⟩ := h.account id hold
        rw [Function.update_of_ne (hfresh id hold)]
        refine ⟨held, (Function.update_of_ne (hfresh id hold) ..).trans hsession,
          haccount.active, ?_, haccount.closed, haccount.closings⟩
        refine iff_of_true (haccount.released.mpr (by rw [hfree]; nofun)) fun heq => ?_
        exact hfresh id hold (hnewly id heq)
      · rw [Function.update_self]
        refine ⟨_, Function.update_self .., rfl, hretired.symm.trans ⟨?_, fun hnot => ?_⟩,
          by simp, rfl⟩
        · intro hnone hsome
          cases hnone.symm.trans hsome
        cases hcase : newly with
        | none => rfl
        | some id => exact absurd (hcase.trans (congrArg some (hnewly id hcase))) hnot
    · exact hnewly id hid ▸ Nat.lt_succ_self _
    · rcases hmarked id hmem with hold | ⟨rfl, hnone⟩
      · obtain ⟨hid, -⟩ := h.marked id hold
        exact ⟨Nat.lt_succ_of_lt hid, fun heq => hfresh id hid (hnewly id heq)⟩
      · exact ⟨Nat.lt_succ_self _, by rw [hnone]; nofun⟩
  have hopened := h.order_mark (m := .opened s.opened) nofun
  rw [openClient]
  dsimp only
  split
  · rename_i hretired
    refine hsound s.held (iff_of_true hfree hretired) (fun id hid => ?_) _ (fun id hmem => ?_)
      fun id hsub => ?_
    · cases hfree.symm.trans hid
    · rcases List.mem_append.mp hmem with hmem | hnew
      · rcases List.mem_append.mp hmem with hold | hother
        · exact .inl hold
        · cases List.mem_singleton.mp hother
      · cases List.mem_singleton.mp hnew
        exact .inr ⟨rfl, hfree⟩
    · rcases pair_sublist_concat.mp hsub with hold | ⟨-, hother⟩
      · exact hopened id hold
      · cases hother
  · rename_i hretired
    refine hsound (some s.opened) (iff_of_false nofun hretired) (fun id heq => ?_) _
      (fun id hmem => ?_) hopened
    · exact (Option.some.inj heq).symm
    · rcases List.mem_append.mp hmem with hold | hother
      · exact .inl hold
      · cases List.mem_singleton.mp hother

/-- A call returns its session, which is closed if it was released and no other call uses it. -/
theorem sound_doneWith (h : Sound s uses) {id : Nat} (huse : 0 < uses id) :
    Sound (s.doneWith id).1 (Function.update uses id (uses id - 1)) := by
  have hid : id < s.opened := Nat.lt_of_not_le fun hle => by
    rw [h.unknown id hle] at huse
    exact Nat.lt_irrefl 0 huse
  obtain ⟨held, hsession, haccount⟩ := h.account id hid
  have hactive : held.active - 1 = uses id - 1 := congrArg (· - 1) haccount.active
  have hopen : held.closed = false := by
    refine Bool.eq_false_iff.mpr fun hclosed => ?_
    rw [← haccount.active, (haccount.closed.mp hclosed).2] at huse
    exact Nat.lt_irrefl 0 huse
  have hclosings : held.closings = 0 := by rw [haccount.closings, hopen]; rfl
  rw [doneWith, hsession]
  dsimp only
  split
  · rename_i hlast
    rw [close, if_neg (by simp [hopen])]
    exact h.put hid ⟨hactive, haccount.released, by simp [hlast], by simp [hclosings]⟩
  · rename_i hmore
    exact h.put hid ⟨hactive, haccount.released, by simpa [hopen] using hmore,
      by simp [hclosings, hopen]⟩

/-- The lock and the flag of `retire` are no part of the accounts. -/
theorem Sound.flags (h : Sound s uses) (retired opening : Bool) :
    Sound { s with retired := retired, opening := opening } uses :=
  ⟨h.unknown, h.account, h.holds, h.marked, h.order⟩

@[simp]
theorem drop_flags (s : HeldSessions K) :
    s.drop.1.retired = s.retired ∧ s.drop.1.opening = s.opening := by
  rw [drop]
  split
  · exact ⟨rfl, rfl⟩
  · split
    · exact ⟨rfl, rfl⟩
    · dsimp only
      split
      · rw [close]
        split <;> exact ⟨rfl, rfl⟩
      · exact ⟨rfl, rfl⟩

theorem doneWith_flags (s : HeldSessions K) (id : Nat) :
    (s.doneWith id).1.retired = s.retired ∧ (s.doneWith id).1.opening = s.opening ∧
      (s.doneWith id).1.held = s.held ∧ (s.doneWith id).2 = [] := by
  rw [doneWith]
  split
  · exact ⟨rfl, rfl, rfl, rfl⟩
  · dsimp only
    split
    · rw [close]
      split <;> exact ⟨rfl, rfl, rfl, rfl⟩
    · exact ⟨rfl, rfl, rfl, rfl⟩

def openings (pending : Multiset (SessionTask K)) : Nat := pending.countP (·.opens = true)

theorem openings_cons {t : SessionTask K} (ht : t.opens = true)
    {rest : Multiset (SessionTask K)} : openings (t ::ₘ rest) = openings rest + 1 :=
  Multiset.countP_cons_of_pos rest ht

theorem openings_other {t : SessionTask K} (ht : t.opens = false)
    {rest : Multiset (SessionTask K)} : openings (t ::ₘ rest) = openings rest :=
  Multiset.countP_cons_of_neg rest (by rw [ht]; exact Bool.false_ne_true)

theorem add_single {t : SessionTask K} {rest : Multiset (SessionTask K)} :
    rest + ↑[t] = t ::ₘ rest := by
  rw [Multiset.coe_singleton, add_comm, Multiset.singleton_add]

variable [DecidableEq K]

/-- One coroutine at most holds the lock, and no session is held then. -/
structure Safe (s : HeldSessions K) (pending : Multiset (SessionTask K)) : Prop where
  sound : Sound s fun id => pending.count (.use id)
  lock : openings pending = if s.opening then 1 else 0
  free : s.opening = true → s.held = none
  retired : s.retired = true → s.held = none

/-- The uses of a session, with one task more. -/
theorem uses_use {rest : Multiset (SessionTask K)} (id : Nat) :
    (fun other => (SessionTask.use id ::ₘ rest).count (.use other)) =
      Function.update (fun other => rest.count (.use other)) id (rest.count (.use id) + 1) := by
  funext other
  by_cases hsame : other = id
  · subst hsame
    rw [Function.update_self, Multiset.count_cons_self]
  · rw [Function.update_of_ne hsame, Multiset.count_cons_of_ne fun heq => hsame (by cases heq; rfl)]

theorem uses_other {rest : Multiset (SessionTask K)} {t : SessionTask K} (ht : t.uses = false) :
    (fun other => (t ::ₘ rest).count (.use other)) = fun other => rest.count (.use other) := by
  funext other
  exact Multiset.count_cons_of_ne (fun heq => by rw [← heq] at ht; cases ht) rest

section Steps

variable {rest : Multiset (SessionTask K)}

theorem safe_acquire {key : K} (awaited : Awaited) (h : Safe s (.acquire key ::ₘ rest)) :
    Safe (s.acquire key awaited).1 (rest + ↑(s.acquire key awaited).2) := by
  obtain ⟨hsound, hlock, hfree, hretired⟩ := h
  rw [uses_other rfl] at hsound
  rw [openings_other rfl] at hlock
  rw [acquire]
  cases hopening : s.opening with
  | true =>
      rw [if_pos rfl]
      cases awaited with
      | done =>
          rw [if_pos rfl, add_single]
          refine ⟨by rwa [uses_other rfl], ?_, hfree, hretired⟩
          rw [openings_other rfl, hlock]
      | failed =>
          rw [if_neg nofun, Multiset.coe_nil, add_zero]
          exact ⟨hsound, hlock, hfree, hretired⟩
  | false =>
      rw [if_neg Bool.false_ne_true]
      rw [hopening] at hlock
      cases hreusable : s.reusable key with
      | some found =>
          obtain ⟨id, held⟩ := found
          dsimp only
          rw [add_single]
          refine ⟨by rw [uses_use]; exact sound_reuse hsound hreusable, ?_, hfree, hretired⟩
          rw [openings_other rfl, hlock]
          exact (congrArg (if · = true then 1 else 0) hopening).symm
      | none =>
          obtain ⟨hdropped, hnone⟩ := sound_drop hsound
          obtain ⟨hflag, -⟩ := drop_flags s
          dsimp only
          rw [add_single]
          refine ⟨?_, ?_, fun _ => hnone, fun _ => hnone⟩
          · rw [uses_other (by split <;> rfl)]
            exact hdropped.flags _ _
          · rw [openings_cons (by split <;> rfl), hlock]
            rfl

theorem safe_closeFirst {key : K} (awaited : Awaited) (h : Safe s (.closeFirst key ::ₘ rest)) :
    Safe (s.closeFirst key awaited).1 (rest + ↑(s.closeFirst key awaited).2) := by
  obtain ⟨hsound, hlock, hfree, hretired⟩ := h
  rw [uses_other rfl] at hsound
  rw [openings_cons rfl] at hlock
  cases awaited with
  | done =>
      rw [closeFirst, add_single]
      refine ⟨by rwa [uses_other rfl], ?_, hfree, hretired⟩
      rwa [openings_cons rfl]
  | failed =>
      rw [closeFirst, Multiset.coe_nil, add_zero]
      refine ⟨hsound.flags _ _, ?_, nofun, hretired⟩
      split at hlock <;> simp at hlock
      exact hlock

theorem safe_openClient {key : K} (awaited : Awaited) (h : Safe s (.openClient key ::ₘ rest)) :
    Safe (s.openClient key awaited).1 (rest + ↑(s.openClient key awaited).2) := by
  obtain ⟨hsound, hlock, hfree, hretired⟩ := h
  rw [uses_other rfl] at hsound
  rw [openings_cons rfl] at hlock
  have hopening : s.opening = true := by
    by_contra hnot
    rw [if_neg hnot] at hlock
    cases hlock
  have hnone : openings rest = 0 := by
    rw [if_pos hopening] at hlock
    exact Nat.succ.inj hlock
  cases awaited with
  | failed =>
      rw [openClient, Multiset.coe_nil, add_zero]
      exact ⟨hsound.flags _ _, hnone, nofun, hretired⟩
  | done =>
      have hnew := sound_openClient hsound (hfree hopening) key
      have hunused : rest.count (.use s.opened) = 0 := hsound.unknown _ (Nat.le_refl _)
      have htasks : (s.openClient key .done).2 = [.use s.opened] := rfl
      rw [htasks, add_single]
      have hclear : (s.openClient key .done).1.opening = false ∧
          (s.openClient key .done).1.retired = s.retired ∧
          (s.retired = true → (s.openClient key .done).1.held = none) := by
        rw [openClient]
        dsimp only
        split
        · exact ⟨rfl, rfl, fun _ => hfree hopening⟩
        · rename_i hactive
          exact ⟨rfl, rfl, fun hret => absurd hret hactive⟩
      obtain ⟨hopened, hsame, hheld⟩ := hclear
      refine ⟨?_, ?_, fun hstill => ?_, fun hret => hheld (hsame ▸ hret)⟩
      · rwa [uses_use, hunused]
      · rw [openings_other rfl, hnone, hopened]
        rfl
      · rw [hopened] at hstill
        cases hstill

theorem safe_doneWith {id : Nat} (h : Safe s (.use id ::ₘ rest)) :
    Safe (s.doneWith id).1 (rest + ↑(s.doneWith id).2) := by
  obtain ⟨hsound, hlock, hfree, hretired⟩ := h
  rw [openings_other rfl] at hlock
  obtain ⟨hret, hopening, hheld, htasks⟩ := doneWith_flags s id
  have hone : 0 < (SessionTask.use id ::ₘ rest).count (.use id) := by
    rw [Multiset.count_cons_self]
    exact Nat.succ_pos _
  have hdone := sound_doneWith hsound hone
  rw [htasks, Multiset.coe_nil, add_zero]
  refine ⟨?_, by rw [hlock, hopening], by rwa [hopening, hheld], by rwa [hret, hheld]⟩
  rw [Multiset.count_cons_self, uses_use, Function.update_idem, Nat.add_sub_cancel,
    Function.update_eq_self] at hdone
  exact hdone

end Steps

theorem safe_keeps : Program.Keeps (program : Program (HeldSessions K) (SessionTask K) Awaited
    (SessionCall K)) Safe where
  perform t awaited s rest h := by
    cases t with
    | acquire key => exact safe_acquire awaited h
    | closeFirst key => exact safe_closeFirst awaited h
    | openClient key => exact safe_openClient awaited h
    | use id => exact safe_doneWith h
  call c s pending r h hr := by
    have hdrop : ∀ retired, Safe { s.drop.1 with retired := retired } pending := by
      intro retired
      obtain ⟨hdropped, hnone⟩ := sound_drop h.sound
      refine ⟨hdropped.flags _ _, ?_, fun _ => hnone, fun _ => hnone⟩
      rw [h.lock, ← (drop_flags s).2]
    cases c with
    | acquire key =>
        cases hr
        rw [add_single]
        refine ⟨by rw [uses_other rfl]; exact h.sound, ?_, h.free, h.retired⟩
        rw [openings_other rfl, h.lock]
    | release id =>
        simp only [program, call] at hr
        split at hr
        · cases hr
          rw [Multiset.coe_nil, add_zero]
          dsimp only
          split
          · exact hdrop s.drop.1.retired
          · exact h
        · cases hr
    | retire =>
        cases hr
        rw [Multiset.coe_nil, add_zero]
        obtain ⟨hdropped, hnone⟩ := sound_drop (h.sound.flags true s.opening)
        refine ⟨hdropped, ?_, fun _ => hnone, fun _ => hnone⟩
        rw [h.lock, (drop_flags { s with retired := true }).2]

theorem safe_initial : Safe (initial : HeldSessions K) 0 := by
  refine ⟨⟨fun _ _ => rfl, fun _ hid => absurd hid (Nat.not_lt_zero _), nofun, fun _ hmem => ?_,
    fun _ hsub => ?_⟩, rfl, nofun, nofun⟩
  · cases hmem
  · cases hsub

/-- A session that was opened and is held no more. -/
def LetGo (id : Nat) (s : HeldSessions K) : Prop := id < s.opened ∧ s.held ≠ some id

/-- What a step may do to the session that is held: keep it, drop it, or hold the one that it
opens. -/
theorem letGo_of_held {s' : HeldSessions K} {id : Nat} (h : LetGo id s)
    (hopened : s.opened ≤ s'.opened)
    (hheld : s'.held = s.held ∨ s'.held = none ∨ s'.held = some s.opened) : LetGo id s' := by
  refine ⟨Nat.lt_of_lt_of_le h.1 hopened, fun hsome => ?_⟩
  rcases hheld with hsame | hnone | hnew
  · exact h.2 (hsame.symm.trans hsome)
  · cases hnone.symm.trans hsome
  · exact Nat.ne_of_lt h.1 (Option.some.inj (hsome.symm.trans hnew))

theorem drop_lets (s : HeldSessions K) : s.drop.1.opened = s.opened ∧ s.drop.1.held = none := by
  rw [drop]
  split
  · rename_i hnone
    exact ⟨rfl, hnone⟩
  · split
    · exact ⟨rfl, rfl⟩
    · dsimp only
      split
      · rw [close]
        split <;> exact ⟨rfl, rfl⟩
      · exact ⟨rfl, rfl⟩

theorem doneWith_opened (s : HeldSessions K) (id : Nat) :
    (s.doneWith id).1.opened = s.opened := by
  rw [doneWith]
  split
  · rfl
  · dsimp only
    split
    · rw [close]
      split <;> rfl
    · rfl

theorem letGo_keeps (id : Nat) : Program.Keeps (program : Program (HeldSessions K)
    (SessionTask K) Awaited (SessionCall K)) fun s _ => LetGo id s where
  perform t awaited s rest h := by
    cases t with
    | acquire key =>
        change LetGo id (s.acquire key awaited).1
        rw [acquire]
        split
        · exact h
        · split
          · exact h
          · exact letGo_of_held h (drop_lets s).1.ge (.inr (.inl (drop_lets s).2))
    | closeFirst key => cases awaited <;> exact h
    | openClient key =>
        cases awaited with
        | failed => exact h
        | done =>
            change LetGo id (s.openClient key .done).1
            rw [openClient]
            dsimp only
            split
            · exact letGo_of_held h (Nat.le_succ _) (.inl rfl)
            · exact letGo_of_held h (Nat.le_succ _) (.inr (.inr rfl))
    | use other =>
        exact letGo_of_held h (doneWith_opened s other).ge (.inl (doneWith_flags s other).2.2.1)
  call c s pending r h hr := by
    cases c with
    | acquire key =>
        cases hr
        exact h
    | release other =>
        simp only [program, call] at hr
        split at hr
        · cases hr
          dsimp only
          split
          · exact letGo_of_held h (drop_lets s).1.ge (.inr (.inl (drop_lets s).2))
          · exact h
        · cases hr
    | retire =>
        cases hr
        obtain ⟨hopened, hnone⟩ := drop_lets { s with retired := true }
        exact letGo_of_held h hopened.ge (.inr (.inl hnone))

theorem retired_keeps : Program.Keeps (program : Program (HeldSessions K) (SessionTask K) Awaited
    (SessionCall K)) fun s _ => s.retired = true where
  perform t awaited s rest h := by
    cases t with
    | acquire key =>
        change (s.acquire key awaited).1.retired = true
        rw [acquire]
        split
        · exact h
        · split
          · exact h
          · exact (drop_flags s).1.trans h
    | closeFirst key => cases awaited <;> exact h
    | openClient key =>
        cases awaited with
        | failed => exact h
        | done =>
            change (s.openClient key .done).1.retired = true
            rw [openClient]
            dsimp only
            split <;> exact h
    | use other => exact (doneWith_flags s other).1.trans h
  call c s pending r h hr := by
    cases c with
    | acquire key =>
        cases hr
        exact h
    | release other =>
        simp only [program, call] at hr
        split at hr
        · cases hr
          dsimp only
          split
          · exact (drop_flags s).1.trans h
          · exact h
        · cases hr
    | retire =>
        cases hr
        exact (drop_flags { s with retired := true }).1

/-- After a call, whatever it left holds at the end of the run. -/
theorem kept_after_call {P : HeldSessions K → Prop}
    (hkeeps : Program.Keeps (program : Program (HeldSessions K) (SessionTask K) Awaited
      (SessionCall K)) fun s _ => P s)
    {c : SessionCall K} (hcall : ∀ s r, call c s = some r → P r.1)
    {events : List (Event (SessionTask K) Awaited (SessionCall K))}
    {s s' : State (HeldSessions K) (SessionTask K)} (hmem : .call c ∈ events)
    (hrun : program.machine.run s events = some s') : P s'.shared := by
  obtain ⟨before, after, rfl⟩ := List.append_of_mem hmem
  obtain ⟨mid, -, hrest⟩ := (program.machine.run_append _ _ _ _).mp hrun
  obtain ⟨next, hstep, hafter⟩ := (program.machine.run_cons _ _ _ _).mp hrest
  obtain ⟨r, hr, hshared, -⟩ := program.machine_call hstep
  exact hkeeps.run (hshared ▸ hcall _ _ hr) hafter

theorem letGo_release {id : Nat} {s : HeldSessions K} {r : HeldSessions K × List (SessionTask K)}
    (h : call (.release id) s = some r) : LetGo id r.1 := by
  rw [call] at h
  split at h
  · rename_i hopened
    cases h
    dsimp only
    split
    · obtain ⟨hsame, hnone⟩ := drop_lets s
      exact ⟨hsame ▸ hopened, by rw [hnone]; nofun⟩
    · rename_i hother
      exact ⟨hopened, hother⟩
  · cases h

theorem retired_retire {s : HeldSessions K} {r : HeldSessions K × List (SessionTask K)}
    (h : call .retire s = some r) : r.1.retired = true := by
  cases h
  exact (drop_flags { s with retired := true }).1

/-- In every interleaving: a session is closed once at most and not while a call uses it, it is
closed when it is released and no call uses it, and none is handed out after its release. From a
`release` of a session on it is released and not held, and from `retire` on none is held and each
is released, so that it is closed unless a call uses it. -/
theorem heldSessions_safe {events : List (Event (SessionTask K) Awaited (SessionCall K))}
    {s : State (HeldSessions K) (SessionTask K)}
    (h : program.machine.run ⟨initial, 0⟩ events = some s) :
    (∀ id, ¬ [.released id, .reused id].Sublist s.shared.history) ∧
    (∀ id, .call (.release id) ∈ events → id < s.shared.opened ∧ s.shared.held ≠ some id ∧
      ∃ held, s.shared.session id = some held ∧ held.released = true) ∧
    (.call .retire ∈ events → s.shared.retired = true ∧
      ∀ id < s.shared.opened, ∃ held, s.shared.session id = some held ∧ held.released = true) ∧
    (s.shared.retired = true → s.shared.held = none) ∧
    ∀ id < s.shared.opened, ∃ held, s.shared.session id = some held ∧
      held.closings ≤ 1 ∧
      (.use id ∈ s.pending → held.closed = false ∧ held.closings = 0) ∧
      (.use id ∉ s.pending → held.released = true ∨ s.shared.retired = true →
        held.closed = true ∧ held.closings = 1) := by
  obtain ⟨hsound, -, -, hretired⟩ := safe_keeps.run safe_initial h
  have hreleased : ∀ id < s.shared.opened, s.shared.held ≠ some id →
      ∃ held, s.shared.session id = some held ∧ held.released = true := by
    intro id hid hother
    obtain ⟨held, hsession, haccount⟩ := hsound.account id hid
    exact ⟨held, hsession, haccount.released.mpr hother⟩
  refine ⟨hsound.order, fun id hmem => ?_, fun hmem => ?_, hretired, fun id hid => ?_⟩
  · obtain ⟨hid, hother⟩ := kept_after_call (letGo_keeps id) (fun _ _ => letGo_release) hmem h
    exact ⟨hid, hother, hreleased id hid hother⟩
  · have hretire := kept_after_call retired_keeps (fun _ _ => retired_retire) hmem h
    exact ⟨hretire, fun id hid => hreleased id hid (by rw [hretired hretire]; nofun)⟩
  obtain ⟨held, hsession, haccount⟩ := hsound.account id hid
  have hclosings := haccount.closings
  refine ⟨held, hsession, ?_, fun huse => ?_, fun hunused hover => ?_⟩
  · rw [hclosings]
    split <;> omega
  · have hopen : held.closed = false := by
      refine Bool.eq_false_iff.mpr fun hclosed => ?_
      have hidle := haccount.active.symm.trans (haccount.closed.mp hclosed).2
      exact Multiset.count_eq_zero.mp hidle huse
    exact ⟨hopen, by rw [hclosings, hopen]; rfl⟩
  · have hreleased : held.released = true := hover.elim (fun hreleased => hreleased) fun hret =>
      haccount.released.mpr (by rw [hretired hret]; nofun)
    have hclosed : held.closed = true :=
      haccount.closed.mpr ⟨hreleased, haccount.active.trans (Multiset.count_eq_zero.mpr hunused)⟩
    exact ⟨hclosed, by rw [hclosings, hclosed]; rfl⟩

/-- A client that releases its session and is retired while a call uses it and another waits
for one. -/
def retiredInUse : List (Event (SessionTask Nat) Awaited (SessionCall Nat)) :=
  [.call (.acquire 0), .step (.acquire 0) .done, .step (.openClient 0) .done, .call (.acquire 0),
    .call (.release 0), .call .retire, .step (.acquire 0) .done, .step (.openClient 0) .done,
    .step (.use 0) .done]

theorem heldSessions_safe_retired : ∃ s : State (HeldSessions Nat) (SessionTask Nat),
    program.machine.run ⟨initial, 0⟩ retiredInUse = some s ∧ s.shared.opened = 2 ∧
      s.shared.held ≠ some 0 ∧
      ∃ held, s.shared.session 0 = some held ∧ held.closings ≤ 1 ∧
        (.use 0 ∈ s.pending → held.closed = false ∧ held.closings = 0) ∧
        (.use 0 ∉ s.pending → held.released = true ∨ s.shared.retired = true →
          held.closed = true ∧ held.closings = 1) := by
  have hrun := program.machine.run_endState ⟨(initial : HeldSessions Nat), 0⟩ retiredInUse
    (by decide)
  obtain ⟨-, hrelease, -, -, hsessions⟩ := heldSessions_safe hrun
  exact ⟨_, hrun, by decide, (hrelease 0 (by decide)).2.1, hsessions 0 (by decide)⟩

end HeldSessions

end TrwMemory.Daemon

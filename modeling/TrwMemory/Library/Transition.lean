import Mathlib.Algebra.BigOperators.Group.Multiset.Basic
import Mathlib.Algebra.Ring.Nat
import Mathlib.Data.List.Basic
import Mathlib.Data.Option.Basic

/-!
Deterministic machines whose events carry every choice of their environment.
A run is a finite list of events. `Guarded` restricts a run to steps that meet
a condition on the state before the step and the event taken there, so that
"in every run whose steps all meet the condition" has one spelling. Nothing here says that an
event is enabled: a disabled event has no successor.

Programs of atomic steps over a shared state. What every thread has still to do is one
multiset of pending steps: performing one changes the shared state and leaves the steps
that follow it. Calls from outside change the shared state and leave steps of their own.
A run is any interleaving. Fairness is not asked for: `run_bounded` says that the pending
steps run out.
-/
namespace Library.Transition

universe u v

/-- A partial transition function. `none` means that the event is not enabled. -/
structure Machine (σ : Type u) (ε : Type v) where
  step : σ → ε → Option σ

variable {σ : Type u} {ε : Type v}

namespace Machine

def run (m : Machine σ ε) : σ → List ε → Option σ
  | s, [] => some s
  | s, e :: es => (m.step s e).bind fun t => m.run t es

/-- Every step that the run takes meets `guard` where it is taken. -/
def Guarded (m : Machine σ ε) (guard : σ → ε → Prop) : σ → List ε → Prop
  | _, [] => True
  | s, e :: es => guard s e ∧ ∀ t, m.step s e = some t → m.Guarded guard t es

/-- One step that meets `guard` keeps `inv`. -/
def Preserves (m : Machine σ ε) (guard : σ → ε → Prop) (inv : σ → Prop) : Prop :=
  ∀ s e t, inv s → guard s e → m.step s e = some t → inv t

theorem guarded_cons (m : Machine σ ε) (guard : σ → ε → Prop) (s : σ) (e : ε) (es : List ε) :
    m.Guarded guard s (e :: es) ↔
      guard s e ∧ ∀ t, m.step s e = some t → m.Guarded guard t es :=
  Iff.rfl

/-- A run is followed to see whether it is guarded. -/
instance decidableGuarded (m : Machine σ ε) (guard : σ → ε → Prop)
    [∀ s e, Decidable (guard s e)] : (s : σ) → (es : List ε) → Decidable (m.Guarded guard s es)
  | _, [] => isTrue trivial
  | s, e :: es =>
      match h : m.step s e with
      | none => decidable_of_iff (guard s e) (by simp [guarded_cons, h])
      | some t =>
          have := decidableGuarded m guard t es
          decidable_of_iff (guard s e ∧ m.Guarded guard t es) (by simp [guarded_cons, h])

/-- Where a run of enabled events ends. -/
def endState (m : Machine σ ε) (s : σ) (es : List ε) : σ := (m.run s es).getD s

theorem run_endState (m : Machine σ ε) (s : σ) (es : List ε)
    (h : (m.run s es).isSome = true) : m.run s es = some (m.endState s es) := by
  obtain ⟨t, ht⟩ := Option.isSome_iff_exists.mp h
  rw [endState, ht, Option.getD_some]

theorem step_endState (m : Machine σ ε) (s : σ) (e : ε)
    (h : (m.step s e).isSome = true) : m.step s e = some (m.endState s [e]) := by
  obtain ⟨t, ht⟩ := Option.isSome_iff_exists.mp h
  simp [endState, run, ht]

@[simp]
theorem run_nil (m : Machine σ ε) (s : σ) : m.run s [] = some s := rfl

theorem run_cons (m : Machine σ ε) (s t : σ) (e : ε) (es : List ε) :
    m.run s (e :: es) = some t ↔ ∃ mid, m.step s e = some mid ∧ m.run mid es = some t :=
  Option.bind_eq_some_iff

theorem run_append (m : Machine σ ε) (s t : σ) (es fs : List ε) :
    m.run s (es ++ fs) = some t ↔ ∃ mid, m.run s es = some mid ∧ m.run mid fs = some t := by
  induction es generalizing s with
  | nil => simp
  | cons e es ih =>
      simp only [List.cons_append, run_cons, ih]
      constructor
      · rintro ⟨a, ha, b, hb, ht⟩
        exact ⟨b, ⟨a, ha, hb⟩, ht⟩
      · rintro ⟨b, ⟨a, ha, hb⟩, ht⟩
        exact ⟨a, ha, b, hb, ht⟩

theorem guarded_append (m : Machine σ ε) (guard : σ → ε → Prop) (s : σ) (es fs : List ε)
    (h : m.Guarded guard s (es ++ fs)) :
    m.Guarded guard s es ∧ ∀ mid, m.run s es = some mid → m.Guarded guard mid fs := by
  induction es generalizing s with
  | nil =>
      refine ⟨trivial, ?_⟩
      intro mid hmid
      cases hmid
      exact h
  | cons e es ih =>
      obtain ⟨hg, hrest⟩ := h
      refine ⟨⟨hg, fun t ht => (ih t (hrest t ht)).1⟩, ?_⟩
      intro mid hmid
      obtain ⟨t, ht, hrun⟩ := (m.run_cons _ _ _ _).mp hmid
      exact (ih t (hrest t ht)).2 mid hrun

/-- The invariant rule: what guarded steps keep, guarded runs keep. -/
theorem run_preserves (m : Machine σ ε) {guard : σ → ε → Prop} {inv : σ → Prop}
    (hstep : m.Preserves guard inv) {s t : σ} {es : List ε}
    (hs : inv s) (hg : m.Guarded guard s es) (hr : m.run s es = some t) : inv t := by
  induction es generalizing s with
  | nil =>
      cases hr
      exact hs
  | cons e es ih =>
      obtain ⟨mid, hmid, hrun⟩ := (m.run_cons _ _ _ _).mp hr
      exact ih (hstep s e mid hs hg.1 hmid) (hg.2 mid hmid) hrun

theorem guarded_true (m : Machine σ ε) (s : σ) (es : List ε) :
    m.Guarded (fun _ _ => True) s es := by
  induction es generalizing s with
  | nil => trivial
  | cons e es ih => exact ⟨trivial, fun t _ => ih t⟩

/-- What every step keeps, every run keeps. -/
theorem run_invariant (m : Machine σ ε) {inv : σ → Prop}
    (hstep : ∀ s e t, inv s → m.step s e = some t → inv t) {s t : σ} {es : List ε}
    (hs : inv s) (hr : m.run s es = some t) : inv t :=
  m.run_preserves (fun s e t h _ => hstep s e t h) hs (m.guarded_true s es) hr

/-- `P` holds in every state that the run passes, the first and the last among them. -/
def Along (m : Machine σ ε) (P : σ → Prop) : σ → List ε → Prop
  | s, [] => P s
  | s, e :: es => P s ∧ ∀ t, m.step s e = some t → m.Along P t es

theorem Along.here {m : Machine σ ε} {P : σ → Prop} {s : σ} {es : List ε}
    (h : m.Along P s es) : P s := by
  cases es with
  | nil => exact h
  | cons e es => exact h.1

/-- What guarded steps keep holds all along a guarded run. -/
theorem along_of_guarded (m : Machine σ ε) {guard : σ → ε → Prop} {inv P : σ → Prop}
    (hstep : m.Preserves guard inv) (hP : ∀ s, inv s → P s) {s : σ} {es : List ε}
    (hs : inv s) (hg : m.Guarded guard s es) : m.Along P s es := by
  induction es generalizing s with
  | nil => exact hP s hs
  | cons e es ih =>
      exact ⟨hP s hs, fun t ht => ih (hstep s e t hs hg.1 ht) (hg.2 t ht)⟩

/-- Where every step off guard breaks `P`, a run along which `P` holds is guarded. -/
theorem guarded_of_along (m : Machine σ ε) {guard : σ → ε → Prop} {P : σ → Prop}
    (hbreak : ∀ s e, ¬ guard s e → ∃ t, m.step s e = some t ∧ ¬ P t) {s : σ} {es : List ε}
    (h : m.Along P s es) : m.Guarded guard s es := by
  induction es generalizing s with
  | nil => trivial
  | cons e es ih =>
      refine ⟨?_, fun t ht => ih (h.2 t ht)⟩
      by_contra hguard
      obtain ⟨t, ht, hP⟩ := hbreak s e hguard
      exact hP (h.2 t ht).here

end Machine

/-- What comes before what in a history that has one more mark. -/
theorem pair_sublist_concat {α : Type u} {marks : List α} {a b m : α} :
    [a, b].Sublist (marks ++ [m]) ↔ [a, b].Sublist marks ∨ a ∈ marks ∧ b = m := by
  constructor
  · intro h
    obtain ⟨before, after, heq, hbefore, hafter⟩ := List.sublist_append_iff.mp h
    rcases List.sublist_singleton.mp hafter with rfl | rfl
    · rw [List.append_nil] at heq
      exact .inl (heq ▸ hbefore)
    · have hsplit : [a] ++ [b] = before ++ [m] := heq
      obtain ⟨rfl, hlast⟩ := List.append_inj' hsplit rfl
      exact .inr ⟨List.singleton_sublist.mp hbefore, (List.cons.inj hlast).1⟩
  · rintro (h | ⟨ha, rfl⟩)
    · exact h.trans (List.sublist_append_left _ _)
    · exact (List.singleton_sublist.mpr ha).append (List.Sublist.refl [b])

end Library.Transition

namespace Library.Threads

open Transition

universe u v w x

structure State (σ : Type u) (τ : Type v) where
  shared : σ
  pending : Multiset τ

/-- A step may depend on a choice of its environment. A call may be refused. -/
structure Program (σ : Type u) (τ : Type v) (χ : Type w) (ε : Type x) where
  perform : τ → χ → σ → σ × List τ
  call : ε → σ → Option (σ × List τ)

inductive Event (τ : Type v) (χ : Type w) (ε : Type x) where
  | step (t : τ) (choice : χ)
  | call (e : ε)
deriving DecidableEq

variable {σ : Type u} {τ : Type v} {χ : Type w} {ε : Type x}

namespace Program

section Machine

variable [DecidableEq τ]

def machine (p : Program σ τ χ ε) : Machine (State σ τ) (Event τ χ ε) where
  step s
    | .step t choice =>
        if t ∈ s.pending then
          some ⟨(p.perform t choice s.shared).1,
            s.pending.erase t + ↑(p.perform t choice s.shared).2⟩
        else none
    | .call e => (p.call e s.shared).map fun r => ⟨r.1, s.pending + ↑r.2⟩

theorem machine_step (p : Program σ τ χ ε) {s s' : State σ τ} {t : τ} {choice : χ}
    (h : p.machine.step s (.step t choice) = some s') :
    ∃ rest, s.pending = t ::ₘ rest ∧ s'.shared = (p.perform t choice s.shared).1 ∧
      s'.pending = rest + ↑(p.perform t choice s.shared).2 := by
  simp only [machine] at h
  split at h
  · rename_i hmem
    cases h
    exact ⟨s.pending.erase t, (Multiset.cons_erase hmem).symm, rfl, rfl⟩
  · cases h

theorem machine_call (p : Program σ τ χ ε) {s s' : State σ τ} {e : ε}
    (h : p.machine.step s (.call e) = some s') :
    ∃ r, p.call e s.shared = some r ∧ s'.shared = r.1 ∧ s'.pending = s.pending + ↑r.2 := by
  obtain ⟨r, hr, rfl⟩ := Option.map_eq_some_iff.mp h
  exact ⟨r, hr, rfl, rfl⟩

end Machine

/-- Every step and every call keeps `inv`, whatever else is pending. -/
structure Keeps (p : Program σ τ χ ε) (inv : σ → Multiset τ → Prop) : Prop where
  perform : ∀ t choice sh rest, inv sh (t ::ₘ rest) →
    inv (p.perform t choice sh).1 (rest + ↑(p.perform t choice sh).2)
  call : ∀ e sh pending r, inv sh pending → p.call e sh = some r → inv r.1 (pending + ↑r.2)

/-- What every step and every call keeps, every interleaving keeps. -/
theorem Keeps.run [DecidableEq τ] {p : Program σ τ χ ε} {inv : σ → Multiset τ → Prop}
    (h : p.Keeps inv) {s s' : State σ τ} {es : List (Event τ χ ε)}
    (hs : inv s.shared s.pending) (hr : p.machine.run s es = some s') :
    inv s'.shared s'.pending := by
  have hkept : ∀ (s : State σ τ) e t, inv s.shared s.pending → p.machine.step s e = some t →
      inv t.shared t.pending := by
    intro s e t hinv hstep
    cases e with
    | step t choice =>
        obtain ⟨rest, hpending, hshared, hpending'⟩ := p.machine_step hstep
        rw [hpending] at hinv
        rw [hshared, hpending']
        exact h.perform _ _ _ _ hinv
    | call e =>
        obtain ⟨r, hr, hshared, hpending⟩ := p.machine_call hstep
        rw [hshared, hpending]
        exact h.call _ _ _ _ hinv hr
  exact p.machine.run_invariant hkept hs hr

/-- Where every step makes the work that is left smaller, steps without calls run out. -/
theorem run_bounded [DecidableEq τ] (p : Program σ τ χ ε) (weight : τ → Nat) (load : σ → Nat)
    (h : ∀ t choice sh, load (p.perform t choice sh).1 +
      ((p.perform t choice sh).2.map weight).sum < load sh + weight t)
    {s s' : State σ τ} {es : List (Event τ χ ε)} (hr : p.machine.run s es = some s')
    (hes : ∀ e ∈ es, ∃ t choice, e = .step t choice) :
    es.length ≤ load s.shared + (s.pending.map weight).sum := by
  induction es generalizing s with
  | nil => exact Nat.zero_le _
  | cons e es ih =>
      obtain ⟨mid, hmid, hrun⟩ := (p.machine.run_cons _ _ _ _).mp hr
      obtain ⟨t, choice, rfl⟩ := hes e List.mem_cons_self
      obtain ⟨rest, hpending, hshared, hpending'⟩ := p.machine_step hmid
      have hless := h t choice s.shared
      have hih := ih hrun fun e he => hes e (List.mem_cons_of_mem _ he)
      rw [hshared, hpending', Multiset.map_add, Multiset.sum_add, Multiset.map_coe,
        Multiset.sum_coe] at hih
      rw [hpending, Multiset.map_cons, Multiset.sum_cons, List.length_cons]
      omega

end Program

end Library.Threads

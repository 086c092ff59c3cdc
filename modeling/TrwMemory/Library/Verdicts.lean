import Mathlib.Data.List.Basic

/-!
Computations that fail in two ways: with an error that a guard around them catches, or with
one that escapes it. A run of steps is described by what each step comes to, in their
order; what a step returns does not matter to it.
-/
namespace Library

inductive Verdict where
  | fine | refused | escaped
  deriving DecidableEq, Repr

namespace Verdict

/-- The first step that fails decides. -/
def first : List Verdict → Verdict
  | [] => fine
  | fine :: vs => first vs
  | v :: _ => v

theorem first_append (us vs : List Verdict) :
    first (us ++ vs) = if first us = fine then first vs else first us := by
  induction us with
  | nil => rfl
  | cons u us ih =>
      cases u with
      | fine => exact ih
      | refused => rfl
      | escaped => rfl

end Verdict

section

variable {ε α β : Type} {caught : ε → Bool}

/-- What a computation comes to under a guard. -/
def verdict (caught : ε → Bool) : Except ε α → Verdict
  | .ok _ => .fine
  | .error error => if caught error then .refused else .escaped

theorem verdict_bind {x : Except ε α} {f : α → Except ε β} {vs : List Verdict}
    (hf : ∀ a, verdict caught (f a) = Verdict.first vs) :
    verdict caught (x >>= f) = Verdict.first (verdict caught x :: vs) := by
  cases x with
  | ok a => exact hf a
  | error error =>
      change (if caught error then _ else _) = Verdict.first ((if caught error then _ else _) :: vs)
      cases caught error <;> rfl

/-- A computation escapes the guard exactly when the steps say so. -/
def Follows (caught : ε → Bool) (x : Except ε α) (steps : List Verdict) : Prop :=
  verdict caught x = .escaped ↔ Verdict.first steps = .escaped

namespace Follows

theorem done {x : Except ε α} (h : verdict caught x ≠ .escaped) : Follows caught x [] :=
  ⟨fun hescaped => absurd hescaped h, fun h => by cases h⟩

/-- A step that is several. -/
theorem bindAll {x : Except ε α} {f : α → Except ε β} {us vs : List Verdict}
    (hx : verdict caught x = Verdict.first us) (hf : ∀ a, Follows caught (f a) vs) :
    Follows caught (x >>= f) (us ++ vs) := by
  rw [Follows, Verdict.first_append, ← hx]
  cases x with
  | ok a => exact hf a
  | error error =>
      change (if caught error then _ else _) = _ ↔ _
      rw [verdict]
      cases caught error <;> simp

theorem bind {x : Except ε α} {f : α → Except ε β} {v : Verdict} {vs : List Verdict}
    (hx : verdict caught x = v) (hf : ∀ a, Follows caught (f a) vs) :
    Follows caught (x >>= f) (v :: vs) := by
  have hone : verdict caught x = Verdict.first [v] := by
    rw [hx]
    cases v <;> rfl
  exact bindAll hone hf

/-- A step that never fails is not listed. -/
theorem skip {x : Except ε α} {f : α → Except ε β} {vs : List Verdict}
    (hx : verdict caught x = .fine) (hf : ∀ a, Follows caught (f a) vs) :
    Follows caught (x >>= f) vs := by
  have hnone : verdict caught x = Verdict.first [] := hx
  exact bindAll hnone hf

end Follows

/-- What a computation returns, if it returns, satisfies a predicate. -/
def Yields (x : Except ε α) (post : α → Prop) : Prop := ∀ a, x = .ok a → post a

namespace Yields

theorem bind {x : Except ε α} {f : α → Except ε β} {post : β → Prop}
    (hf : ∀ a, x = .ok a → Yields (f a) post) : Yields (x >>= f) post := by
  intro b hb
  cases x with
  | ok a => exact hf a rfl b hb
  | error error => cases hb

end Yields

theorem bind_eq_ok {x : Except ε α} {f : α → Except ε β} {b : β} (h : (x >>= f) = .ok b) :
    ∃ a, x = .ok a ∧ f a = .ok b := by
  cases x with
  | ok a => exact ⟨a, rfl, h⟩
  | error error => cases h

theorem mapError_eq_ok {ε' : Type} {x : Except ε α} {f : ε → ε'} {a : α}
    (h : x.mapError f = .ok a) : x = .ok a := by
  cases x with
  | ok b => exact congrArg Except.ok (Except.ok.inj h)
  | error error => cases h

end

end Library

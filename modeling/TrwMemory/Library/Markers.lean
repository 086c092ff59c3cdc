import Mathlib.Data.List.Basic

/-!
Texts with markers in them. A marker begins with an opening character and has no other one,
and no marker is a proper beginning of another; so where one stands in a text does not depend
on what is around it, and a text falls into literals and markers in one way.
-/
namespace Library

universe u

/-- A set of markers. -/
structure Markers (α : Type u) where
  isMarker : List α → Bool
  opens : α → Bool
  shape : ∀ h, isMarker h = true →
    ∃ o body, h = o :: body ∧ opens o = true ∧ ∀ c ∈ body, opens c = false
  whole : ∀ h rest, isMarker h = true → isMarker (h ++ rest) = true → rest = []

namespace Markers

variable {α : Type u} (M : Markers α)

/-- The length of the marker that the text begins with. -/
def length? (text : List α) : Option Nat :=
  (List.range (text.length + 1)).find? fun n => M.isMarker (text.take n)

/-- The first literal of a text, after what is skipped, and the markers with the literals that
follow them. -/
def pieces : Nat → List α → List α × List (List α × List α)
  | _, [] => ([], [])
  | skip + 1, _ :: text => pieces skip text
  | 0, c :: text =>
      match M.length? (c :: text) with
      | some (n + 1) =>
          let rest := pieces n text
          ([], ((c :: text).take (n + 1), rest.1) :: rest.2)
      | _ =>
          let rest := pieces 0 text
          (c :: rest.1, rest.2)

variable {M}

/-- At most one beginning of a text is a marker. -/
theorem length?_eq_some {text : List α} {n : Nat} :
    M.length? text = some n ↔ n ≤ text.length ∧ M.isMarker (text.take n) = true := by
  rw [length?, List.find?_range_eq_some]
  constructor
  · rintro ⟨hm, hn, -⟩
    rw [List.mem_range] at hn
    exact ⟨by omega, hm⟩
  · rintro ⟨hn, hm⟩
    refine ⟨hm, List.mem_range.mpr (by omega), fun k hk => ?_⟩
    rw [Bool.not_eq_true']
    cases hshort : M.isMarker (text.take k) with
    | false => rfl
    | true =>
        have htake : (text.take n).take k = text.take k := by
          rw [List.take_take, Nat.min_eq_left (by omega)]
        rw [← List.take_append_drop k (text.take n), htake] at hm
        have hrest := congrArg List.length (M.whole _ _ hshort hm)
        rw [List.length_drop, List.length_take, List.length_nil] at hrest
        omega

theorem length?_marker {h : List α} (hm : M.isMarker h = true) (rest : List α) :
    M.length? (h ++ rest) = some h.length := by
  rw [length?_eq_some, List.take_left]
  exact ⟨by rw [List.length_append]; omega, hm⟩

/-- What begins in a text ends before the next opening character. -/
theorem length?_append {c o : α} {text rest : List α} (ho : M.opens o = true) :
    M.length? (c :: text ++ o :: rest) = M.length? (c :: text) := by
  apply Option.ext
  intro n
  rw [length?_eq_some, length?_eq_some]
  have htake : n ≤ (c :: text).length →
      (c :: text ++ o :: rest).take n = (c :: text).take n :=
    fun hn => List.take_append_of_le_length hn
  constructor
  · rintro ⟨hlength, hm⟩
    have hn : n ≤ (c :: text).length := by
      by_contra hlong
      obtain ⟨k, rfl⟩ : ∃ k, n = (c :: text).length + (k + 1) :=
        ⟨n - (c :: text).length - 1, by omega⟩
      rw [List.take_length_add_append, List.take_succ_cons] at hm
      obtain ⟨first, body, hshape, -, hbody⟩ := M.shape _ hm
      rw [List.cons_append, List.cons.injEq] at hshape
      have hmem : o ∈ body := by
        rw [← hshape.2]
        simp
      rw [hbody o hmem] at ho
      cases ho
    exact ⟨hn, htake hn ▸ hm⟩
  · rintro ⟨hn, hm⟩
    refine ⟨?_, (htake hn).symm ▸ hm⟩
    rw [List.length_append]
    omega

theorem pieces_skip (xs rest : List α) : M.pieces xs.length (xs ++ rest) = M.pieces 0 rest := by
  induction xs with
  | nil => rfl
  | cons x xs ih => exact ih

/-- A marker in a text divides its pieces, wherever it stands. -/
theorem pieces_append {h : List α} (hm : M.isMarker h = true) (text rest : List α) {skip : Nat}
    (hskip : skip ≤ text.length) :
    M.pieces skip (text ++ (h ++ rest)) =
      ((M.pieces skip text).1,
        (M.pieces skip text).2 ++ (h, (M.pieces 0 rest).1) :: (M.pieces 0 rest).2) := by
  induction text generalizing skip with
  | nil =>
      obtain rfl : skip = 0 := by simpa using hskip
      obtain ⟨o, body, rfl, -, -⟩ := M.shape h hm
      have hlength := length?_marker hm rest
      rw [List.cons_append] at hlength
      conv_lhs => rw [List.nil_append, List.cons_append, pieces, hlength]
      dsimp only [List.length_cons]
      rw [pieces_skip, List.take_succ_cons, List.take_left]
      rfl
  | cons c text ih =>
      cases skip with
      | succ skip => exact ih (by simpa using hskip)
      | zero =>
          obtain ⟨o, body, rfl, ho, -⟩ := M.shape h hm
          have hlength : M.length? (c :: (text ++ (o :: body ++ rest))) = M.length? (c :: text) :=
            length?_append ho
          rw [List.cons_append, pieces, pieces, hlength]
          split
          · rename_i n hn
            have hle := (length?_eq_some.mp hn).1
            rw [List.length_cons] at hle
            dsimp only
            rw [ih (by omega)]
            have hfits : n + 1 ≤ (c :: text).length := by
              rw [List.length_cons]
              omega
            have htake : (c :: (text ++ (o :: body ++ rest))).take (n + 1) =
                (c :: text).take (n + 1) := List.take_append_of_le_length hfits
            rw [htake]
            rfl
          · dsimp only
            rw [ih (Nat.zero_le _)]

/-- The pieces of a text, put together. -/
def weave (pieces : List α × List (List α × List α)) : List α :=
  pieces.1 ++ pieces.2.flatMap fun piece => piece.1 ++ piece.2

theorem weave_pieces (text : List α) (skip : Nat) :
    weave (M.pieces skip text) = text.drop skip := by
  induction text generalizing skip with
  | nil => simp [weave, pieces]
  | cons c text ih =>
      cases skip with
      | succ skip => exact ih skip
      | zero =>
          rw [pieces]
          split
          · rename_i n hn
            have hrest := ih n
            rw [weave] at hrest ⊢
            dsimp only
            rw [List.nil_append, List.flatMap_cons, List.append_assoc, hrest, List.drop_zero,
              List.take_succ_cons, List.cons_append, List.take_append_drop]
          · have hrest := ih 0
            rw [weave] at hrest ⊢
            dsimp only
            rw [List.cons_append, hrest, List.drop_zero, List.drop_zero]

theorem isMarker_of_pieces {text : List α} {skip : Nat} :
    ∀ piece ∈ (M.pieces skip text).2, M.isMarker piece.1 = true := by
  induction text generalizing skip with
  | nil => simp [pieces]
  | cons c text ih =>
      cases skip with
      | succ skip => exact ih
      | zero =>
          rw [pieces]
          split
          · rename_i n hn
            exact List.forall_mem_cons.mpr ⟨(length?_eq_some.mp hn).2, ih⟩
          · exact ih

end Markers

end Library

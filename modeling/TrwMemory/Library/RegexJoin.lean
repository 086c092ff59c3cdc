import TrwMemory.Library.Regex

/-!
Searches in a text that is joined from parts by a separator. An expression stays within the parts
if none of its classes has the separator and its conditions take a separator for the edge of the
text. Then it matches somewhere in the joined text exactly if it does in one of the parts.
-/
namespace Library

universe u

variable {α : Type u}

/-- What may lie around a part: nothing, or a separator and more. -/
def Edge (s : α) (outer : List α) : Prop := ∀ a ∈ outer.head?, a = s

theorem edge_nil (s : α) : Edge s [] := nofun

theorem edge_cons (s : α) (outer : List α) : Edge s (s :: outer) := fun _ ha =>
  (Option.some.inj ha).symm

namespace Cursor

/-- The place in a text that goes on to both sides. -/
def frame (pre post : List α) (c : Cursor α) : Cursor α := ⟨c.before ++ pre, c.after ++ post⟩

theorem length_frame_lt {pre post : List α} {c d : Cursor α} :
    (d.frame pre post).after.length < (c.frame pre post).after.length ↔
      d.after.length < c.after.length := by
  simp [frame]

end Cursor

namespace Regex

def Within (s : α) : Regex α → Prop
  | .empty => True
  | .one p => p s = false
  | .look p => ∀ before after pre post, Edge s pre → Edge s post →
      p (before ++ pre) (after ++ post) = p before after
  | .seq r t | .alt r t => Within s r ∧ Within s t
  | .rep r _ _ => Within s r

/-- There are no more rounds than characters left. -/
theorem further_of_le {step : Cursor α → List (Cursor α)} {extra more : Nat} {c : Cursor α}
    (h : c.after.length ≤ extra) (h' : c.after.length ≤ more) :
    further step extra c = further step more c := by
  induction extra generalizing more c with
  | zero =>
      have hnone : ((step c).filter fun d => d.after.length < c.after.length) = [] := by
        rw [Nat.le_zero.mp h]
        exact List.filter_eq_nil_iff.mpr fun d _ => by simp
      cases more with
      | zero => rfl
      | succ more =>
          rw [further, further, hnone]
          rfl
  | succ extra ih =>
      cases more with
      | zero =>
          have hnone : ((step c).filter fun d => d.after.length < c.after.length) = [] := by
            rw [Nat.le_zero.mp h']
            exact List.filter_eq_nil_iff.mpr fun d _ => by simp
          rw [further, further, hnone]
          rfl
      | succ more =>
          rw [further, further]
          congr 1
          refine List.flatMap_congr fun d hd => ?_
          have hless : d.after.length < c.after.length :=
            of_decide_eq_true (List.mem_filter.mp hd).2
          exact ih (by omega) (by omega)

theorem rounds_of_le {step : Cursor α → List (Cursor α)}
    (hstep : ∀ c, ∀ d ∈ step c, d.after.length ≤ c.after.length) {extra more least : Nat}
    {c : Cursor α} (h : c.after.length ≤ extra) (h' : c.after.length ≤ more) :
    rounds step extra least c = rounds step more least c := by
  induction least generalizing c with
  | zero => exact further_of_le h h'
  | succ least ih =>
      rw [rounds, rounds]
      refine List.flatMap_congr fun d hd => ?_
      have hless := hstep c d hd
      exact ih (by omega) (by omega)

section Frame

variable {pre post : List α} {step : Cursor α → List (Cursor α)}

theorem further_frame
    (hstep : ∀ c : Cursor α, step (c.frame pre post) = (step c).map (Cursor.frame pre post))
    (extra : Nat) (c : Cursor α) :
    further step extra (c.frame pre post) = (further step extra c).map (Cursor.frame pre post) := by
  induction extra generalizing c with
  | zero => rfl
  | succ extra ih =>
      rw [further, further, hstep, List.map_append, List.filter_map, List.flatMap_map,
        List.map_flatMap]
      congr 1
      have hpred : ((fun d : Cursor α => decide (d.after.length <
          (c.frame pre post).after.length)) ∘ Cursor.frame pre post) =
          fun d => decide (d.after.length < c.after.length) :=
        funext fun d => decide_eq_decide.mpr Cursor.length_frame_lt
      rw [hpred]
      exact List.flatMap_congr fun d _ => ih d

theorem rounds_frame
    (hstep : ∀ c : Cursor α, step (c.frame pre post) = (step c).map (Cursor.frame pre post))
    (extra least : Nat) (c : Cursor α) :
    rounds step extra least (c.frame pre post) =
      (rounds step extra least c).map (Cursor.frame pre post) := by
  induction least generalizing c with
  | zero => exact further_frame hstep extra c
  | succ least ih =>
      rw [rounds, rounds, hstep, List.flatMap_map, List.map_flatMap]
      exact List.flatMap_congr fun d _ => ih d

end Frame

/-- Within a part, what lies around it does not matter. -/
theorem ends_frame {s : α} {r : Regex α} (h : r.Within s) {pre post : List α} (hpre : Edge s pre)
    (hpost : Edge s post) (c : Cursor α) :
    r.ends (c.frame pre post) = (r.ends c).map (Cursor.frame pre post) := by
  induction r generalizing c with
  | empty => rfl
  | one p =>
      obtain ⟨before, after⟩ := c
      cases after with
      | cons a after =>
          simp only [Cursor.frame, List.cons_append, ends]
          split <;> rfl
      | nil =>
          cases post with
          | nil => rfl
          | cons a post =>
              obtain rfl : a = s := hpost a rfl
              have hp : p a = false := h
              simp [Cursor.frame, ends, hp]
  | look p =>
      have hp : p (c.before ++ pre) (c.after ++ post) = p c.before c.after :=
        h c.before c.after pre post hpre hpost
      simp only [Cursor.frame, ends, hp]
      split <;> rfl
  | seq r t ihr iht =>
      rw [ends, ends, ihr h.1, List.flatMap_map, List.map_flatMap]
      exact List.flatMap_congr fun d _ => iht h.2 d
  | alt r t ihr iht => rw [ends, ends, ihr h.1, iht h.2, List.map_append]
  | rep r least most ih =>
      cases most with
      | some most => exact rounds_frame (fun c => ih h c) _ _ c
      | none =>
          have hstep : ∀ c, ∀ d ∈ r.ends c, d.after.length ≤ c.after.length :=
            fun c d hd => (ends_leads r c d hd).length_le
          have hlength : c.after.length ≤ (c.frame pre post).after.length := by
            simp [Cursor.frame]
          exact (rounds_frame (fun c => ih h c) _ _ c).trans
            (congrArg _ (rounds_of_le hstep hlength (Nat.le_refl _)))

/-- `pattern.search(text) is not None`. -/
def found (r : Regex α) (text : List α) : Bool := (r.search false [] text).isSome

/-- A match somewhere. -/
def Occurs (r : Regex α) (before after : List α) : Prop :=
  ∃ moved rest, after = moved ++ rest ∧ r.ends ⟨moved.reverse ++ before, rest⟩ ≠ []

theorem search_isSome {r : Regex α} {before after : List α} :
    (r.search false before after).isSome = true ↔ r.Occurs before after := by
  induction after generalizing before with
  | nil =>
      rw [search, Option.isSome_map, hitAt_false, List.isSome_head?]
      constructor
      · exact fun h => ⟨[], [], rfl, h⟩
      · rintro ⟨moved, rest, hsplit, h⟩
        obtain ⟨rfl, rfl⟩ := List.append_eq_nil_iff.mp hsplit.symm
        exact h
  | cons a after ih =>
      rw [search]
      cases hat : r.hitAt false ⟨before, a :: after⟩ with
      | some stop =>
          refine iff_of_true rfl ⟨[], a :: after, rfl, fun hnil => ?_⟩
          rw [hitAt_false, show r.ends ⟨before, a :: after⟩ = [] from hnil] at hat
          cases hat
      | none =>
          rw [hitAt_false, List.head?_eq_none_iff] at hat
          refine ih.trans ⟨?_, ?_⟩
          · rintro ⟨moved, rest, rfl, h⟩
            refine ⟨a :: moved, rest, rfl, ?_⟩
            rwa [List.reverse_cons, List.append_assoc]
          · rintro ⟨moved, rest, hsplit, h⟩
            cases moved with
            | nil =>
                rw [List.nil_append] at hsplit
                rw [← hsplit] at h
                exact absurd hat h
            | cons b moved =>
                obtain ⟨rfl, rfl⟩ := List.cons.inj hsplit
                refine ⟨moved, rest, rfl, ?_⟩
                rwa [List.reverse_cons, List.append_assoc] at h

/-- Expressions with the same ends find the same. -/
theorem found_congr {r t : Regex α} (h : ∀ c, r.ends c = t.ends c) (text : List α) :
    r.found text = t.found text := by
  rw [found, found, Bool.eq_iff_iff, search_isSome, search_isSome]
  simp only [Occurs, h]

section Join

variable {s : α} {r : Regex α}

theorem ends_ne_nil_frame (h : r.Within s) {pre post : List α} (hpre : Edge s pre)
    (hpost : Edge s post) (before after : List α) :
    r.ends ⟨before ++ pre, after ++ post⟩ ≠ [] ↔ r.ends ⟨before, after⟩ ≠ [] := by
  have hends := ends_frame h hpre hpost ⟨before, after⟩
  rw [Cursor.frame] at hends
  rw [hends, ne_eq, List.map_eq_nil_iff]

/-- A match in two parts is in the first or in what follows the separator. -/
theorem occurs_append (h : r.Within s) {pre : List α} (hpre : Edge s pre) (part tail : List α) :
    r.Occurs pre (part ++ s :: tail) ↔
      r.Occurs [] part ∨ r.Occurs (s :: (part.reverse ++ pre)) tail := by
  have hpost := edge_cons s tail
  have hinside : ∀ {moved rest : List α}, r.ends ⟨moved.reverse ++ pre, rest ++ s :: tail⟩ ≠ [] ↔
      r.ends ⟨moved.reverse ++ [], rest⟩ ≠ [] := by
    intro moved rest
    rw [ends_ne_nil_frame h hpre hpost, List.append_nil]
  have hbehind : ∀ moved : List α, (part ++ s :: moved).reverse ++ pre =
      moved.reverse ++ s :: (part.reverse ++ pre) := fun moved => by simp
  constructor
  · rintro ⟨moved, rest, hsplit, hends⟩
    rcases List.append_eq_append_iff.mp hsplit with ⟨beyond, rfl, htail⟩ | ⟨left, rfl, rfl⟩
    · cases beyond with
      | nil =>
          rw [List.append_nil, ← List.nil_append rest, ← htail] at hends
          exact .inl ⟨part, [], (List.append_nil part).symm, hinside.mp hends⟩
      | cons a beyond =>
          obtain ⟨rfl, rfl⟩ := List.cons.inj htail
          rw [hbehind] at hends
          exact .inr ⟨beyond, rest, rfl, hends⟩
    · exact .inl ⟨moved, left, rfl, hinside.mp hends⟩
  · rintro (⟨moved, rest, rfl, hends⟩ | ⟨moved, rest, rfl, hends⟩)
    · exact ⟨moved, rest ++ s :: tail, List.append_assoc _ _ _, hinside.mpr hends⟩
    · refine ⟨part ++ s :: moved, rest, by simp, ?_⟩
      rwa [hbehind]

theorem occurs_intercalate (h : r.Within s) {parts : List (List α)} (hparts : parts ≠ [])
    {pre : List α} (hpre : Edge s pre) :
    r.Occurs pre ([s].intercalate parts) ↔ ∃ part ∈ parts, r.Occurs [] part := by
  induction parts generalizing pre with
  | nil => exact absurd rfl hparts
  | cons part parts ih =>
      cases parts with
      | nil =>
          have hone : [s].intercalate [part] = part := by simp [List.intercalate]
          rw [hone]
          have hoccurs : r.Occurs pre part ↔ r.Occurs [] part := by
            refine exists_congr fun moved => exists_congr fun rest => and_congr_right fun _ => ?_
            have hframe := ends_ne_nil_frame h hpre (edge_nil s) moved.reverse rest
            rw [List.append_nil] at hframe
            rw [hframe, List.append_nil]
          simpa using hoccurs
      | cons next parts =>
          have hjoin : [s].intercalate (part :: next :: parts) =
              part ++ s :: [s].intercalate (next :: parts) := by
            simp [List.intercalate]
          rw [hjoin, occurs_append h hpre, ih (List.cons_ne_nil _ _) (edge_cons s _)]
          simp only [List.exists_mem_cons_iff]

/-- The joined text has a match if a part has one. -/
theorem found_intercalate (h : r.Within s) {parts : List (List α)} (hparts : parts ≠ []) :
    r.found ([s].intercalate parts) = parts.any r.found := by
  rw [Bool.eq_iff_iff, found, search_isSome, occurs_intercalate h hparts (edge_nil s),
    List.any_eq_true]
  simp only [found, search_isSome]

end Join

end Regex

end Library

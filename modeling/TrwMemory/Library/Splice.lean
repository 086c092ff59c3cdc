import Mathlib.Algebra.BigOperators.Group.List.Basic
import Mathlib.Algebra.Order.Group.Int
import Mathlib.Algebra.Ring.Int.Defs
import Mathlib.Data.List.Sort
import TrwMemory.Library.Redaction

/-!
Stretches of a text replaced one after the other, each at the offsets it has in the text as it
was before the first replacement. Run on a text whose characters are their own positions, the
replacements show which positions are left; `trace` follows one position through them.

Which positions replacements from the right remove: a position behind a stretch is removed if the
replacements before have moved it below the stretch's end. Of stretches apart from each other
exactly the covered positions go.
-/
namespace Library.Redaction

section Replacements

universe u

variable {α : Type u} {β : Type u}

/-- `text[:start] + holder + text[stop:]`. -/
def splice (text : List α) (s : Span α) : List α :=
  text.take s.start ++ s.holder ++ text.drop s.stop

def spliceAll (ranges : List (Span α)) (text : List α) : List α := ranges.foldl splice text

/-- The stretches from the right, those left out that reach past the start of the last one
taken. -/
def apart : Nat → List (Span α) → List (Span α)
  | _, [] => []
  | bound, s :: rest =>
      if s.stop > bound then apart bound rest else s :: apart s.start rest

/-- The later of two stretches in the list starts no later in the text. -/
def FromRight (ranges : List (Span α)) : Prop := ranges.Pairwise fun s t => t.start ≤ s.start

def WellPlaced (length : Nat) (s : Span α) : Prop := s.start ≤ s.stop ∧ s.stop ≤ length

def Span.map (f : α → β) (s : Span α) : Span β := ⟨s.start, s.stop, s.holder.map f⟩

theorem map_spliceAll (f : α → β) (ranges : List (Span α)) (text : List α) :
    (spliceAll ranges text).map f = spliceAll (ranges.map (Span.map f)) (text.map f) := by
  induction ranges generalizing text with
  | nil => rfl
  | cons s ranges ih =>
      change (spliceAll ranges (splice text s)).map f = _
      rw [ih]
      simp [spliceAll, splice, Span.map]

/-- A text whose characters are their own positions; characters of markers stand for
themselves. -/
def positions (length : Nat) : List (Nat ⊕ α) := (List.range length).map .inl

/-- The positions that are left in a text of origins. -/
def survivors (origins : List (Nat ⊕ α)) : List Nat := origins.filterMap Sum.getLeft?

/-- A character of the text, by its origin. -/
def readOrigin (text : List α) : Nat ⊕ α → Option α := Sum.elim (text[·]?) some

/-- The origins of what the replacements leave. -/
def origins (ranges : List (Span α)) (length : Nat) : List (Nat ⊕ α) :=
  spliceAll (ranges.map (Span.map .inr)) (positions length)

/-- Read in the text, the origins are the text with the stretches replaced. -/
theorem map_readOrigin (ranges : List (Span α)) (text : List α) :
    (origins ranges text.length).map (readOrigin text) = (spliceAll ranges text).map some := by
  have hholders : (ranges.map (Span.map .inr)).map (Span.map (readOrigin text)) =
      ranges.map (Span.map some) := by
    rw [List.map_map]
    apply List.map_congr_left
    intro s _
    simp [Span.map, Function.comp_def, readOrigin]
  have hsource : (positions text.length).map (readOrigin text) = text.map some := by
    rw [positions, List.map_map]
    apply List.ext_getElem
    · rw [List.length_map, List.length_range, List.length_map]
    · intro i hi hi'
      rw [List.length_map] at hi'
      simp [readOrigin, hi']
  rw [origins, map_spliceAll, map_spliceAll, hholders, hsource]

/-- The positions of a text of origins with their offsets. -/
def located : Nat → List (Nat ⊕ α) → List (Nat × Nat)
  | _, [] => []
  | offset, .inl p :: rest => (p, offset) :: located (offset + 1) rest
  | offset, .inr _ :: rest => located (offset + 1) rest

/-- Where a splice moves an offset; nothing for an offset that it removes. -/
def move (s : Span α) (offset : Nat) : Option Nat :=
  if offset < s.start then some offset
  else if s.stop ≤ offset then some (offset - (s.stop - s.start) + s.holder.length) else none

/-- An offset through all replacements. -/
def trace (ranges : List (Span α)) (offset : Nat) : Option Nat :=
  ranges.foldlM (fun offset s => move s offset) offset

theorem trace_cons (s : Span α) (ranges : List (Span α)) (offset : Nat) :
    trace (s :: ranges) offset = (move s offset).bind (trace ranges) := rfl

theorem located_append (offset : Nat) (xs ys : List (Nat ⊕ α)) :
    located offset (xs ++ ys) = located offset xs ++ located (offset + xs.length) ys := by
  induction xs generalizing offset with
  | nil => rfl
  | cons x xs ih =>
      cases x with
      | inl p => simp [located, ih, Nat.add_assoc, Nat.add_comm 1]
      | inr a => simp [located, ih, Nat.add_assoc, Nat.add_comm 1]

theorem located_inr (offset : Nat) (holder : List α) :
    located offset (holder.map .inr) = ([] : List (Nat × Nat)) := by
  induction holder generalizing offset with
  | nil => rfl
  | cons a holder ih => exact ih (offset + 1)

theorem located_add (offset more : Nat) (xs : List (Nat ⊕ α)) :
    located (offset + more) xs = (located offset xs).map fun e => (e.1, e.2 + more) := by
  induction xs generalizing offset with
  | nil => rfl
  | cons x xs ih =>
      have hrest := ih (offset + 1)
      rw [Nat.add_right_comm] at hrest
      cases x with
      | inl p => simp [located, hrest]
      | inr a => simp [located, hrest]

theorem located_bounds {offset : Nat} {xs : List (Nat ⊕ α)} :
    ∀ e ∈ located offset xs, offset ≤ e.2 ∧ e.2 < offset + xs.length := by
  induction xs generalizing offset with
  | nil => exact fun e he => nomatch he
  | cons x xs ih =>
      intro e he
      rw [List.length_cons]
      have hrest : e ∈ located (offset + 1) xs → offset ≤ e.2 ∧ e.2 < offset + (xs.length + 1) := by
        intro he
        have hbounds := ih e he
        omega
      cases x with
      | inl p =>
          rcases List.mem_cons.mp he with rfl | he
          · dsimp only
            omega
          · exact hrest he
      | inr a => exact hrest he

theorem located_positions (length : Nat) :
    located 0 (positions length : List (Nat ⊕ α)) = (List.range length).map fun p => (p, p) := by
  induction length with
  | zero => rfl
  | succ length ih =>
      have hlength : (positions length : List (Nat ⊕ α)).length = length := by
        rw [positions, List.length_map, List.length_range]
      rw [positions, List.range_succ, List.map_append, located_append, ← positions, ih,
        List.map_append, hlength, Nat.zero_add]
      rfl

theorem survivors_eq (offset : Nat) (xs : List (Nat ⊕ α)) :
    survivors xs = (located offset xs).map Prod.fst := by
  induction xs generalizing offset with
  | nil => rfl
  | cons x xs ih =>
      cases x with
      | inl p => exact congrArg (List.cons p) (ih (offset + 1))
      | inr a => exact ih (offset + 1)

/-- One splice moves the positions of the text, and removes those between its ends. -/
theorem located_splice {s : Span α} {text : List (Nat ⊕ α)} (hspan : s.start ≤ s.stop)
    (hstart : s.start ≤ text.length) :
    located 0 (splice text (s.map .inr)) =
      (located 0 text).filterMap fun e => (move s e.2).map fun offset => (e.1, offset) := by
  have htext : text = text.take s.start ++
      ((text.drop s.start).take (s.stop - s.start) ++ text.drop s.stop) := by
    have hdrop : text.drop s.stop = (text.drop s.start).drop (s.stop - s.start) := by
      rw [List.drop_drop, Nat.add_sub_cancel' hspan]
    rw [hdrop, List.take_append_drop, List.take_append_drop]
  have hfront : (text.take s.start).length = s.start := List.length_take_of_le hstart
  conv_rhs => rw [htext]
  rw [splice, Span.map, located_append, located_append, located_append, located_append]
  dsimp only
  rw [located_inr, List.append_nil, Nat.zero_add, hfront, List.length_append, List.length_map,
    hfront, Nat.zero_add, List.filterMap_append, List.filterMap_append]
  have hkept : (located 0 (text.take s.start)).filterMap
      (fun e => (move s e.2).map fun offset => (e.1, offset)) = located 0 (text.take s.start) := by
    conv_rhs => rw [← List.filterMap_some (l := located 0 (text.take s.start))]
    apply List.filterMap_congr
    intro e he
    have hbounds := located_bounds e he
    rw [move, if_pos (by omega)]
    rfl
  have hgone : (located s.start ((text.drop s.start).take (s.stop - s.start))).filterMap
      (fun e => (move s e.2).map fun offset => (e.1, offset)) = [] := by
    rw [List.filterMap_eq_nil_iff]
    intro e he
    have hbounds := located_bounds e he
    rw [List.length_take] at hbounds
    rw [move, if_neg (by omega), if_neg (by omega)]
    rfl
  rw [hkept, hgone, List.nil_append]
  congr 1
  by_cases hstop : s.stop ≤ text.length
  · have hmiddle : ((text.drop s.start).take (s.stop - s.start)).length = s.stop - s.start := by
      rw [List.length_take, List.length_drop]
      omega
    rw [hmiddle, Nat.add_sub_cancel' hspan, ← Nat.zero_add (s.start + _), located_add,
      ← Nat.zero_add s.stop, located_add 0 s.stop, List.filterMap_map]
    rw [← List.filterMap_eq_map]
    apply List.filterMap_congr
    intro e he
    simp only [Function.comp]
    rw [move, if_neg (by omega), if_pos (by omega)]
    simp only [Option.map_some, Option.some.injEq, Prod.mk.injEq, true_and]
    omega
  · rw [List.drop_eq_nil_of_le (by omega)]
    rfl

theorem length_splice {s : Span α} {text : List (Nat ⊕ α)} (hstart : s.start ≤ text.length) :
    s.start ≤ (splice text (s.map .inr)).length := by
  rw [splice, Span.map, List.length_append, List.length_append, List.length_take_of_le hstart]
  omega

/-- The replacements from the right move each position as its trace says. -/
theorem located_spliceAll {ranges : List (Span α)} {text : List (Nat ⊕ α)}
    (hsorted : FromRight ranges) (hspans : ∀ s ∈ ranges, s.start ≤ s.stop)
    (hstarts : ∀ s ∈ ranges, s.start ≤ text.length) :
    located 0 (spliceAll (ranges.map (Span.map .inr)) text) =
      (located 0 text).filterMap fun e => (trace ranges e.2).map fun offset => (e.1, offset) := by
  induction ranges generalizing text with
  | nil => exact List.filterMap_some.symm
  | cons s ranges ih =>
      obtain ⟨hlater, hsorted⟩ := List.pairwise_cons.mp hsorted
      have hstart := hstarts s List.mem_cons_self
      have hsplice := located_splice (hspans s List.mem_cons_self) hstart
      have hlength : s.start ≤ (splice text (s.map .inr)).length := length_splice hstart
      have hnext : ∀ t ∈ ranges, t.start ≤ (splice text (s.map .inr)).length := fun t ht =>
        Nat.le_trans (hlater t ht) hlength
      have hrest := ih hsorted (fun t ht => hspans t (List.mem_cons_of_mem _ ht)) hnext
      change located 0 (spliceAll (ranges.map (Span.map .inr)) (splice text (s.map .inr))) = _
      rw [hrest, hsplice, List.filterMap_filterMap]
      apply List.filterMap_congr
      intro e _
      rw [trace_cons]
      cases move s e.2 <;> rfl

/-- What is left are the positions whose trace does not end. -/
theorem survivors_origins {ranges : List (Span α)} {length : Nat} (hsorted : FromRight ranges)
    (hplaced : ∀ s ∈ ranges, WellPlaced length s) :
    survivors (origins ranges length) =
      (List.range length).filter fun p => (trace ranges p).isSome := by
  have hlength : (positions length : List (Nat ⊕ α)).length = length := by
    rw [positions, List.length_map, List.length_range]
  have hstarts : ∀ s ∈ ranges, s.start ≤ (positions length : List (Nat ⊕ α)).length := by
    intro s hs
    rw [hlength]
    exact Nat.le_trans (hplaced s hs).1 (hplaced s hs).2
  rw [survivors_eq 0, origins, located_spliceAll hsorted (fun s hs => (hplaced s hs).1) hstarts,
    located_positions, List.filterMap_map, List.map_filterMap, ← List.filterMap_eq_filter]
  apply List.filterMap_congr
  intro p _
  cases htrace : trace ranges p <;> simp [Option.guard, htrace]

end Replacements

universe u

variable {α : Type u}

/-- How far the replacements of stretches that begin at or before a position move it. -/
def shift (p : Nat) (earlier : List (Span α)) : Int :=
  ((earlier.filter fun s => s.start ≤ p).map fun s =>
    (s.holder.length : Int) - ((s.stop : Int) - s.start)).sum

/-- A stretch that begins at or before the position ends behind where the replacements before
it have moved the position. -/
def Reached (ranges : List (Span α)) (p : Nat) : Prop :=
  ∃ earlier s later, ranges = earlier ++ s :: later ∧ s.start ≤ p ∧
    (p : Int) + shift p earlier < s.stop

/-- The positions outside all stretches are left, in order, and no other ones. -/
def Exact (ranges : List (Span α)) (length : Nat) (left : List (Nat ⊕ α)) : Prop :=
  survivors left = (List.range length).filter fun p => ¬ Covers ranges p

theorem filter_eq_iff {l : List α} {p q : α → Bool} :
    l.filter p = l.filter q ↔ ∀ a ∈ l, (p a = true ↔ q a = true) := by
  constructor
  · intro h a ha
    have hmem : a ∈ l.filter p ↔ a ∈ l.filter q := by rw [h]
    simpa [ha] using hmem
  · exact fun h => List.filter_congr fun a ha => Bool.eq_iff_iff.mpr (h a ha)

theorem shift_cons_of_le {p : Nat} {s : Span α} (h : s.start ≤ p) (earlier : List (Span α)) :
    shift p (s :: earlier) =
      (s.holder.length : Int) - ((s.stop : Int) - s.start) + shift p earlier := by
  simp [shift, h]

theorem shift_cons_of_lt {p : Nat} {s : Span α} (h : p < s.start) (earlier : List (Span α)) :
    shift p (s :: earlier) = shift p earlier := by
  simp [shift, Nat.not_le.mpr h]

/-- The trace of an offset behind the starts of all stretches goes on as long as no stretch
ends behind it. -/
theorem trace_behind {ranges : List (Span α)} {p offset : Nat} (hsorted : FromRight ranges)
    (hspans : ∀ s ∈ ranges, s.start ≤ s.stop) (hp : ∀ s ∈ ranges, s.start ≤ p)
    (hoffset : ∀ s ∈ ranges, s.start ≤ offset) :
    (trace ranges offset).isSome ↔ ∀ earlier s later, ranges = earlier ++ s :: later →
      (s.stop : Int) ≤ offset + shift p earlier := by
  induction ranges generalizing offset with
  | nil =>
      refine iff_of_true rfl fun earlier s later h => ?_
      cases earlier <;> cases h
  | cons s ranges ih =>
      obtain ⟨hlater, hsorted⟩ := List.pairwise_cons.mp hsorted
      have hspan := hspans s List.mem_cons_self
      have hstart := hoffset s List.mem_cons_self
      have hstartp := hp s List.mem_cons_self
      rw [trace_cons, move, if_neg (Nat.not_lt.mpr hstart)]
      by_cases hstop : s.stop ≤ offset
      · have hnext : ∀ t ∈ ranges, t.start ≤ offset - (s.stop - s.start) + s.holder.length := by
          intro t ht
          have hle := hlater t ht
          omega
        rw [if_pos hstop, Option.bind_some, ih hsorted
          (fun t ht => hspans t (List.mem_cons_of_mem _ ht))
          (fun t ht => hp t (List.mem_cons_of_mem _ ht)) hnext]
        constructor
        · intro h earlier t later hsplit
          cases earlier with
          | nil =>
              obtain ⟨rfl, -⟩ := List.cons.inj hsplit
              simpa [shift] using hstop
          | cons first earlier =>
              obtain ⟨rfl, htail⟩ := List.cons.inj hsplit
              have hreach := h earlier t later htail
              rw [shift_cons_of_le hstartp]
              omega
        · intro h earlier t later hsplit
          have hreach := h (s :: earlier) t later (congrArg (List.cons s) hsplit)
          rw [shift_cons_of_le hstartp] at hreach
          omega
      · rw [if_neg hstop, Option.bind_none]
        refine iff_of_false Bool.false_ne_true fun h => ?_
        have hreach := h [] s ranges rfl
        simp only [shift, List.filter_nil, List.map_nil, List.sum_nil] at hreach
        omega

/-- A position goes exactly if a stretch reaches it. -/
theorem trace_isSome_iff {ranges : List (Span α)} (hsorted : FromRight ranges)
    (hspans : ∀ s ∈ ranges, s.start ≤ s.stop) (p : Nat) :
    (trace ranges p).isSome ↔ ¬ Reached ranges p := by
  induction ranges with
  | nil =>
      refine iff_of_true rfl fun ⟨earlier, s, later, h, _⟩ => ?_
      cases earlier <;> cases h
  | cons s ranges ih =>
      by_cases hstart : s.start ≤ p
      · have hp : ∀ t ∈ s :: ranges, t.start ≤ p := by
          intro t ht
          rcases List.mem_cons.mp ht with rfl | ht
          · exact hstart
          · exact Nat.le_trans ((List.pairwise_cons.mp hsorted).1 t ht) hstart
        rw [trace_behind hsorted hspans hp hp]
        constructor
        · rintro h ⟨earlier, t, later, hsplit, -, hreach⟩
          have hle := h earlier t later hsplit
          omega
        · intro h earlier t later hsplit
          by_contra hlt
          refine h ⟨earlier, t, later, hsplit, hp t ?_, by omega⟩
          rw [hsplit]
          exact List.mem_append_right _ List.mem_cons_self
      · have hlt := Nat.not_le.mp hstart
        rw [trace_cons, move, if_pos hlt, Option.bind_some, ih (List.pairwise_cons.mp hsorted).2
          fun t ht => hspans t (List.mem_cons_of_mem _ ht)]
        refine not_congr ⟨?_, ?_⟩
        · rintro ⟨earlier, t, later, rfl, ht, hreach⟩
          exact ⟨s :: earlier, t, later, rfl, ht, by rwa [shift_cons_of_lt hlt]⟩
        · rintro ⟨earlier, t, later, hsplit, ht, hreach⟩
          cases earlier with
          | nil =>
              obtain ⟨rfl, -⟩ := List.cons.inj hsplit
              exact absurd ht hstart
          | cons first earlier =>
              obtain ⟨rfl, htail⟩ := List.cons.inj hsplit
              rw [shift_cons_of_lt hlt] at hreach
              exact ⟨earlier, t, later, htail, ht, hreach⟩

/-- All stretches cut out: exact as far as the covered positions are those reached. -/
theorem exact_origins_iff {ranges : List (Span α)} {length : Nat} (hsorted : FromRight ranges)
    (hplaced : ∀ s ∈ ranges, WellPlaced length s) :
    Exact ranges length (origins ranges length) ↔
      ∀ p < length, (Covers ranges p ↔ Reached ranges p) := by
  have htrace : ∀ p, (trace ranges p).isSome = true ↔ ¬ Reached ranges p :=
    trace_isSome_iff hsorted fun s hs => (hplaced s hs).1
  rw [Exact, survivors_origins hsorted hplaced, filter_eq_iff]
  constructor
  · intro h p hp
    have hiff := h p (List.mem_range.mpr hp)
    rw [htrace, decide_eq_true_eq] at hiff
    exact not_iff_not.mp hiff.symm
  · intro h p hp
    rw [htrace, decide_eq_true_eq, h p (List.mem_range.mp hp)]

/-- Each stretch of the list ends before the one before it begins. -/
def Apart (ranges : List (Span α)) : Prop := ranges.Pairwise fun s t => t.stop ≤ s.start

theorem Apart.fromRight {ranges : List (Span α)} (h : Apart ranges)
    (hspans : ∀ s ∈ ranges, s.start ≤ s.stop) : FromRight ranges :=
  List.Pairwise.imp_of_mem (fun _ ht hle => Nat.le_trans (hspans _ ht) hle) h

theorem trace_past {ranges : List (Span α)} {offset : Nat} (h : Apart ranges)
    (hspans : ∀ s ∈ ranges, s.start ≤ s.stop) (hoffset : ∀ s ∈ ranges, s.stop ≤ offset) :
    (trace ranges offset).isSome := by
  induction ranges generalizing offset with
  | nil => rfl
  | cons s ranges ih =>
      obtain ⟨hlater, hapart⟩ := List.pairwise_cons.mp h
      have hspan := hspans s List.mem_cons_self
      have hstop := hoffset s List.mem_cons_self
      rw [trace_cons, move, if_neg (by omega), if_pos hstop, Option.bind_some]
      apply ih hapart fun t ht => hspans t (List.mem_cons_of_mem _ ht)
      intro t ht
      have hle := hlater t ht
      omega

theorem trace_apart {ranges : List (Span α)} (h : Apart ranges)
    (hspans : ∀ s ∈ ranges, s.start ≤ s.stop) (p : Nat) :
    (trace ranges p).isSome ↔ ¬ Covers ranges p := by
  induction ranges with
  | nil => exact iff_of_true rfl fun ⟨s, hs, _⟩ => nomatch hs
  | cons s ranges ih =>
      obtain ⟨hlater, hapart⟩ := List.pairwise_cons.mp h
      have hspan := hspans s List.mem_cons_self
      have hrest : ∀ t ∈ ranges, t.start ≤ t.stop :=
        fun t ht => hspans t (List.mem_cons_of_mem _ ht)
      rw [trace_cons, move, covers_cons]
      by_cases hstart : p < s.start
      · rw [if_pos hstart, Option.bind_some, ih hapart hrest]
        refine not_congr ⟨.inr, ?_⟩
        rintro (hin | hin)
        · omega
        · exact hin
      · rw [if_neg hstart]
        by_cases hstop : s.stop ≤ p
        · rw [if_pos hstop, Option.bind_some]
          refine iff_of_true (trace_past hapart hrest fun t ht => ?_) ?_
          · have hle := hlater t ht
            omega
          · rintro (hin | ⟨t, ht, hin⟩)
            · omega
            · have hle := hlater t ht
              omega
        · rw [if_neg hstop, Option.bind_none]
          exact iff_of_false Bool.false_ne_true fun hnot => hnot (.inl ⟨by omega, by omega⟩)

/-- Stretches apart from each other are cut out exactly. -/
theorem exact_of_apart {ranges : List (Span α)} {length : Nat} (h : Apart ranges)
    (hplaced : ∀ s ∈ ranges, WellPlaced length s) :
    Exact ranges length (origins ranges length) := by
  have hspans : ∀ s ∈ ranges, s.start ≤ s.stop := fun s hs => (hplaced s hs).1
  rw [Exact, survivors_origins (h.fromRight hspans) hplaced, filter_eq_iff]
  intro p _
  rw [trace_apart h hspans, decide_eq_true_eq]

theorem apart_sublist (bound : Nat) (ranges : List (Span α)) :
    (apart bound ranges).Sublist ranges := by
  induction ranges generalizing bound with
  | nil => exact .slnil
  | cons s ranges ih =>
      rw [apart]
      split
      · exact (ih bound).cons s
      · exact (ih s.start).cons_cons s

theorem apart_le {bound : Nat} {ranges : List (Span α)}
    (hspans : ∀ s ∈ ranges, s.start ≤ s.stop) : ∀ t ∈ apart bound ranges, t.stop ≤ bound := by
  induction ranges generalizing bound with
  | nil => exact fun t ht => nomatch ht
  | cons s ranges ih =>
      have hrest : ∀ t ∈ ranges, t.start ≤ t.stop :=
        fun t ht => hspans t (List.mem_cons_of_mem _ ht)
      intro t ht
      rw [apart] at ht
      split at ht
      · exact ih hrest t ht
      · rcases List.mem_cons.mp ht with rfl | ht
        · omega
        · have hle := ih hrest t ht
          have hspan := hspans s List.mem_cons_self
          omega

theorem apart_apart {bound : Nat} {ranges : List (Span α)}
    (hspans : ∀ s ∈ ranges, s.start ≤ s.stop) : Apart (apart bound ranges) := by
  induction ranges generalizing bound with
  | nil => exact .nil
  | cons s ranges ih =>
      have hrest : ∀ t ∈ ranges, t.start ≤ t.stop :=
        fun t ht => hspans t (List.mem_cons_of_mem _ ht)
      rw [apart]
      split
      · exact ih hrest
      · exact List.pairwise_cons.mpr ⟨apart_le hrest, ih hrest⟩

/-- The stretches taken cut out: exact as far as they cover what all of them cover. -/
theorem exact_apart_iff {ranges : List (Span α)} {length : Nat}
    (hplaced : ∀ s ∈ ranges, WellPlaced length s) :
    Exact ranges length (origins (apart length ranges) length) ↔
      ∀ p, Covers ranges p → Covers (apart length ranges) p := by
  have hspans : ∀ s ∈ ranges, s.start ≤ s.stop := fun s hs => (hplaced s hs).1
  have hsublist := apart_sublist length ranges
  have hexact := exact_of_apart (apart_apart hspans : Apart (apart length ranges)) fun s hs =>
    hplaced s (hsublist.subset hs)
  rw [Exact] at hexact
  rw [Exact, hexact, filter_eq_iff]
  constructor
  · rintro h p ⟨s, hs, hstart, hstop⟩
    have hp : p < length := Nat.lt_of_lt_of_le hstop (hplaced s hs).2
    have hiff := h p (List.mem_range.mpr hp)
    rw [decide_eq_true_eq, decide_eq_true_eq, not_iff_not] at hiff
    exact hiff.mpr ⟨s, hs, hstart, hstop⟩
  · intro h p _
    rw [decide_eq_true_eq, decide_eq_true_eq, not_iff_not]
    exact ⟨fun ⟨s, hs, hin⟩ => ⟨s, hsublist.subset hs, hin⟩, h p⟩

end Library.Redaction

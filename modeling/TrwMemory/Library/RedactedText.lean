import TrwMemory.Library.Redaction

/-!
A redacted text with its source: the literals it has in common with the source and, between
them, what was removed and the marker it was replaced by. Where the source itself holds
markers, the redaction that counts each of them as replaced by itself has the pieces of the
redacted text for its steps.
-/
namespace Library

universe u

/-- One removed stretch, the marker in its place and the literal that follows. -/
structure Step (α : Type u) where
  removed : List α
  marker : List α
  kept : List α

/-- A text and what it is redacted to. -/
structure Redaction {α : Type u} (M : Markers α) where
  first : List α
  steps : List (Step α)
  marked : ∀ step ∈ steps, M.isMarker step.marker = true

namespace Redaction

variable {α : Type u} {M : Markers α}

/-- The text before the redaction. -/
def source (r : Redaction M) : List α :=
  r.first ++ r.steps.flatMap fun step => step.removed ++ step.kept

/-- The text after the redaction. -/
def masked (r : Redaction M) : List α :=
  r.first ++ r.steps.flatMap fun step => step.marker ++ step.kept

def rangesFrom : Nat → List (Step α) → List (Span α)
  | _, [] => []
  | pos, step :: steps =>
      ⟨pos, pos + step.removed.length, step.marker⟩ ::
        rangesFrom (pos + step.removed.length + step.kept.length) steps

/-- The stretches of the source that are replaced. -/
def ranges (r : Redaction M) : List (Span α) := rangesFrom r.first.length r.steps

def placesFrom : Nat → List (Step α) → List Nat
  | _, [] => []
  | pos, step :: steps =>
      (pos + step.removed.length) ::
        placesFrom (pos + step.removed.length + step.kept.length) steps

/-- The literals behind the first one. -/
def parts (r : Redaction M) : List (List α) := r.steps.map Step.kept

/-- Where they stand in the source. -/
def places (r : Redaction M) : List Nat := placesFrom r.first.length r.steps

/-- The literals may stand at these places of the source. -/
def PlacedAt (r : Redaction M) (places : List Nat) : Prop :=
  Placed r.source r.first.length r.parts places

/-- What is replaced if the literals stand at these places. -/
def rangesAt (r : Redaction M) (places : List Nat) : List (Span α) :=
  spans r.first.length r.parts places (r.steps.map Step.marker)

theorem ranges_eq_rangesAt (r : Redaction M) : r.ranges = r.rangesAt r.places := by
  have hsteps : ∀ (steps : List (Step α)) (pos : Nat), rangesFrom pos steps =
      spans pos (steps.map Step.kept) (placesFrom pos steps) (steps.map Step.marker) := by
    intro steps
    induction steps with
    | nil => exact fun pos => rfl
    | cons step steps ih => exact fun pos => congrArg (List.cons _) (ih _)
  exact hsteps r.steps r.first.length

theorem placed_placesFrom (before : List α) (steps : List (Step α)) :
    Placed (before ++ steps.flatMap fun step => step.removed ++ step.kept) before.length
      (steps.map Step.kept) (placesFrom before.length steps) := by
  induction steps generalizing before with
  | nil => simp [placesFrom, Placed]
  | cons step steps ih =>
      have hrest := ih (before ++ (step.removed ++ step.kept))
      have hsource : before ++ (step :: steps).flatMap (fun step => step.removed ++ step.kept) =
          before ++ (step.removed ++ step.kept) ++
            steps.flatMap fun step => step.removed ++ step.kept := by
        rw [List.flatMap_cons, List.append_assoc before]
      have hstop : (before ++ (step.removed ++ step.kept)).length =
          before.length + step.removed.length + step.kept.length := by
        rw [List.length_append, List.length_append, Nat.add_assoc]
      rw [hstop] at hrest
      rw [hsource]
      refine ⟨Nat.le_add_right _ _, ?_, hrest⟩
      have hplace : (before ++ step.removed).length = before.length + step.removed.length :=
        List.length_append
      rw [← hplace, ← List.append_assoc, List.append_assoc, List.drop_left]
      exact List.prefix_append _ _

theorem placedAt_places (r : Redaction M) : r.PlacedAt r.places := placed_placesFrom r.first r.steps

theorem rangesFrom_append (pos : Nat) (front back : List (Step α)) :
    rangesFrom pos (front ++ back) = rangesFrom pos front ++
      rangesFrom (pos + (front.flatMap fun step => step.removed ++ step.kept).length) back := by
  induction front generalizing pos with
  | nil => rfl
  | cons step front ih =>
      rw [List.cons_append, rangesFrom, rangesFrom, ih, List.cons_append, List.flatMap_cons,
        List.length_append, List.length_append]
      congr 3
      omega

/-- The markers of a literal, each replaced by itself. -/
def literalSteps (M : Markers α) (literal : List α) : List (Step α) :=
  (M.pieces 0 literal).2.map fun piece => ⟨piece.1, piece.1, piece.2⟩

theorem literalSteps_source (literal : List α) :
    (M.pieces 0 literal).1 ++
      (literalSteps M literal).flatMap (fun step => step.removed ++ step.kept) = literal := by
  have hweave := Markers.weave_pieces (M := M) literal 0
  rw [List.drop_zero, Markers.weave] at hweave
  rw [literalSteps, List.flatMap_map]
  exact hweave

/-- The steps with the markers of their literals counted as steps too. -/
def splitSteps (M : Markers α) (steps : List (Step α)) : List (Step α) :=
  steps.flatMap fun step =>
    ⟨step.removed, step.marker, (M.pieces 0 step.kept).1⟩ :: literalSteps M step.kept

theorem splitSteps_cons (step : Step α) (steps : List (Step α)) :
    splitSteps M (step :: steps) =
      ⟨step.removed, step.marker, (M.pieces 0 step.kept).1⟩ ::
        (literalSteps M step.kept ++ splitSteps M steps) := rfl

theorem splitSteps_source (steps : List (Step α)) :
    (splitSteps M steps).flatMap (fun step => step.removed ++ step.kept) =
      steps.flatMap fun step => step.removed ++ step.kept := by
  rw [splitSteps, List.flatMap_assoc]
  congr 1
  funext step
  rw [List.flatMap_cons, List.append_assoc, literalSteps_source]

/-- The redaction that replaces the markers of its literals by themselves. -/
def split (r : Redaction M) : Redaction M where
  first := (M.pieces 0 r.first).1
  steps := literalSteps M r.first ++ splitSteps M r.steps
  marked := by
    have hliteral : ∀ literal, ∀ step ∈ literalSteps M literal, M.isMarker step.marker = true := by
      intro literal step hstep
      obtain ⟨piece, hpiece, rfl⟩ := List.mem_map.mp hstep
      exact Markers.isMarker_of_pieces piece hpiece
    intro step hstep
    rcases List.mem_append.mp hstep with hfirst | hlater
    · exact hliteral r.first step hfirst
    · obtain ⟨origin, horigin, hstep⟩ := List.mem_flatMap.mp hlater
      rcases List.mem_cons.mp hstep with rfl | hstep
      · exact r.marked origin horigin
      · exact hliteral origin.kept step hstep

theorem split_source (r : Redaction M) : r.split.source = r.source := by
  change (M.pieces 0 r.first).1 ++ (literalSteps M r.first ++ splitSteps M r.steps).flatMap _ = _
  rw [List.flatMap_append, ← List.append_assoc, literalSteps_source, splitSteps_source]
  rfl

/-- The pieces of the redacted text are the steps of the split redaction. -/
theorem pieces_masked (r : Redaction M) :
    M.pieces 0 r.masked =
      (r.split.first, r.split.steps.map fun step => (step.marker, step.kept)) := by
  obtain ⟨first, steps, hmarked⟩ := r
  change M.pieces 0 (first ++ steps.flatMap fun step => step.marker ++ step.kept) =
    ((M.pieces 0 first).1, (literalSteps M first ++ splitSteps M steps).map _)
  have hliteral : ∀ literal, (literalSteps M literal).map (fun step => (step.marker, step.kept)) =
      (M.pieces 0 literal).2 := by
    intro literal
    rw [literalSteps, List.map_map]
    exact List.map_id _
  induction steps generalizing first with
  | nil =>
      rw [List.flatMap_nil, List.append_nil, splitSteps, List.flatMap_nil, List.append_nil,
        hliteral]
  | cons step steps ih =>
      have hrest := ih step.kept fun s hs => hmarked s (List.mem_cons_of_mem _ hs)
      rw [List.map_append, hliteral] at hrest
      rw [List.flatMap_cons, List.append_assoc,
        Markers.pieces_append (hmarked step List.mem_cons_self) _ _ (Nat.zero_le _), hrest,
        splitSteps_cons, List.map_append, List.map_cons, List.map_append, hliteral, hliteral]

theorem ranges_subset_split (r : Redaction M) : r.ranges ⊆ r.split.ranges := by
  have hsteps : ∀ (steps : List (Step α)) (pos : Nat),
      rangesFrom pos steps ⊆ rangesFrom pos (splitSteps M steps) := by
    intro steps
    induction steps with
    | nil => exact fun pos => List.Subset.refl _
    | cons step steps ih =>
        intro pos
        have hkept := congrArg List.length (literalSteps_source (M := M) step.kept)
        rw [List.length_append] at hkept
        rw [splitSteps_cons, rangesFrom, rangesFrom, rangesFrom_append]
        apply List.cons_subset_cons
        apply List.subset_append_of_subset_right
        rw [Nat.add_assoc _ (M.pieces 0 step.kept).1.length, hkept]
        exact ih _
  have hfirst := congrArg List.length (literalSteps_source (M := M) r.first)
  rw [List.length_append] at hfirst
  change rangesFrom _ r.steps ⊆
    rangesFrom (M.pieces 0 r.first).1.length (literalSteps M r.first ++ splitSteps M r.steps)
  rw [rangesFrom_append, hfirst]
  exact List.subset_append_of_subset_right _ (hsteps r.steps _)

theorem covers_of_subset {xs ys : List (Span α)} (h : xs ⊆ ys) {p : Nat} (hp : Covers xs p) :
    Covers ys p := by
  obtain ⟨s, hs, hin⟩ := hp
  exact ⟨s, h hs, hin⟩

theorem split_masked (r : Redaction M) : r.split.masked = r.masked := by
  have hweave := Markers.weave_pieces (M := M) r.masked 0
  rw [pieces_masked, Markers.weave, List.flatMap_map, List.drop_zero] at hweave
  exact hweave

theorem first_leads (r : Redaction M) : r.first <+: r.source := List.prefix_append _ _

theorem parts_suffix (r : Redaction M) (default : List α) (h : r.steps ≠ []) :
    r.parts.getLastD default <:+ r.source := by
  obtain ⟨steps, step, hsteps⟩ := List.eq_nil_or_concat r.steps |>.resolve_left h
  rw [List.concat_eq_append] at hsteps
  rw [parts, source, hsteps, List.map_append, List.flatMap_append]
  simp only [List.map_cons, List.map_nil, List.getLastD_concat, List.flatMap_cons,
    List.flatMap_nil, List.append_nil, ← List.append_assoc]
  exact List.suffix_append _ _

theorem rebuild_rangesAt (r : Redaction M) {places : List Nat} (h : r.PlacedAt places) :
    rebuild r.source (r.rangesAt places) = r.masked := by
  have hfirst : r.first <+: r.source.drop 0 := first_leads r
  have hplaced : Placed r.source (0 + r.first.length) r.parts places := by
    rw [Nat.zero_add]
    exact h
  have hlength : (r.steps.map Step.marker).length = r.parts.length := by
    rw [parts, List.length_map, List.length_map]
  have hrebuild := rebuildFrom_spans hfirst hplaced hlength
  rw [Nat.zero_add] at hrebuild
  rw [rebuild, rangesAt, hrebuild, parts, List.zip_map', List.flatMap_map]
  rfl

section Search

variable [BEq α] [LawfulBEq α]

/-- The literals have first places and last ones, and a run of replaced characters lies in one
stretch of the hull of the two. -/
theorem exists_alignments (r : Redaction M) (h : r.steps ≠ []) :
    ∃ firsts lasts, earliest r.source r.first.length r.parts = some firsts ∧
      latest r.source r.parts = some lasts ∧ r.PlacedAt firsts ∧ r.PlacedAt lasts ∧
      ∀ i k, i ≤ k → (∀ j, i ≤ j → j ≤ k → Covers r.ranges j) →
        ∃ s ∈ hull (r.rangesAt firsts) (r.rangesAt lasts), s.start ≤ i ∧ k < s.stop := by
  have hne : r.parts ≠ [] := fun hnil => h (List.map_eq_nil_iff.mp hnil)
  have hplaced := r.placedAt_places
  obtain ⟨firsts, hfirsts, hearly, hbelow⟩ := earliest_placed hplaced (Nat.le_refl _) hne
  obtain ⟨lasts, hlasts, hlate, habove⟩ := latest_placed hplaced hne
  refine ⟨firsts, lasts, hfirsts, hlasts, hearly, hlate, fun i k hik hrun => ?_⟩
  rw [ranges_eq_rangesAt] at hrun
  exact run_in_hull hplaced hlasts hbelow habove (Nat.le_refl _) hik hrun

end Search

/-- Ranges one behind the other, from a position on and within a length. -/
def InOrder (length : Nat) : Nat → List (Span α) → Prop
  | pos, [] => pos ≤ length
  | pos, s :: rest => pos ≤ s.start ∧ s.start ≤ s.stop ∧ InOrder length s.stop rest

theorem inOrder_le {length pos : Nat} {ranges : List (Span α)} (h : InOrder length pos ranges) :
    pos ≤ length := by
  induction ranges generalizing pos with
  | nil => exact h
  | cons s rest ih =>
      have hrest := ih h.2.2
      have hstart := h.1
      have hstop := h.2.1
      omega

/-- The literal up to the first range, and the steps from there on. -/
def cut (source : List α) : Nat → List (Span α) → List α × List (Step α)
  | pos, [] => (source.drop pos, [])
  | pos, s :: rest =>
      let tail := cut source s.stop rest
      ((source.drop pos).take (s.start - pos),
        ⟨(source.drop s.start).take (s.stop - s.start), s.holder, tail.1⟩ :: tail.2)

theorem take_drop_append {source : List α} {pos stop : Nat} (h : pos ≤ stop) :
    (source.drop pos).take (stop - pos) ++ source.drop stop = source.drop pos := by
  have hstop : source.drop stop = (source.drop pos).drop (stop - pos) := by
    rw [List.drop_drop, Nat.add_sub_cancel' h]
  rw [hstop, List.take_append_drop]

theorem length_take_drop {source : List α} {pos stop : Nat} (h : stop ≤ source.length) :
    ((source.drop pos).take (stop - pos)).length = stop - pos := by
  rw [List.length_take, List.length_drop]
  omega

theorem cut_source {source : List α} {pos : Nat} {ranges : List (Span α)}
    (h : InOrder source.length pos ranges) :
    (cut source pos ranges).1 ++
      ((cut source pos ranges).2.flatMap fun step => step.removed ++ step.kept) =
        source.drop pos := by
  induction ranges generalizing pos with
  | nil => exact List.append_nil _
  | cons s rest ih =>
      rw [cut]
      dsimp only
      rw [List.flatMap_cons, List.append_assoc, ih h.2.2, take_drop_append h.2.1,
        take_drop_append h.1]

theorem cut_masked {source : List α} {pos : Nat} {ranges : List (Span α)}
    (h : InOrder source.length pos ranges) :
    rebuildFrom source pos ranges = some ((cut source pos ranges).1 ++
      (cut source pos ranges).2.flatMap fun step => step.marker ++ step.kept) := by
  induction ranges generalizing pos with
  | nil => simp [rebuildFrom, cut]
  | cons s rest ih =>
      rw [rebuildFrom, if_neg (Nat.not_lt.mpr h.1), ih h.2.2, cut]
      simp

theorem cut_ranges {source : List α} {pos : Nat} {ranges : List (Span α)}
    (h : InOrder source.length pos ranges) :
    rangesFrom (pos + (cut source pos ranges).1.length) (cut source pos ranges).2 = ranges := by
  induction ranges generalizing pos with
  | nil => rfl
  | cons s rest ih =>
      have hstop := inOrder_le h.2.2
      have hstart : s.start ≤ source.length := Nat.le_trans h.2.1 hstop
      rw [cut]
      dsimp only
      rw [length_take_drop hstart, Nat.add_sub_cancel' h.1, rangesFrom]
      dsimp only
      rw [length_take_drop hstop, Nat.add_sub_cancel' h.2.1, ih h.2.2]

theorem cut_marked {source : List α} {pos : Nat} {ranges : List (Span α)}
    (h : ∀ s ∈ ranges, M.isMarker s.holder = true) :
    ∀ step ∈ (cut source pos ranges).2, M.isMarker step.marker = true := by
  induction ranges generalizing pos with
  | nil => simp [cut]
  | cons s rest ih =>
      obtain ⟨hfirst, hrest⟩ := List.forall_mem_cons.mp h
      exact List.forall_mem_cons.mpr ⟨hfirst, ih hrest⟩

/-- Ranges in order, with markers for their holders, make a redaction of the source. -/
theorem exists_of_inOrder {source : List α} {ranges : List (Span α)}
    (h : InOrder source.length 0 ranges) (hm : ∀ s ∈ ranges, M.isMarker s.holder = true) :
    ∃ r : Redaction M, r.source = source ∧ r.masked = rebuild source ranges ∧
      r.ranges = ranges := by
  refine ⟨⟨(cut source 0 ranges).1, (cut source 0 ranges).2, cut_marked hm⟩, ?_, ?_, ?_⟩
  · exact (cut_source h).trans List.drop_zero
  · rw [rebuild, cut_masked h]
    rfl
  · have hranges := cut_ranges h
    rwa [Nat.zero_add] at hranges

end Redaction

end Library

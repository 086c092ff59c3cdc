import TrwMemory.Security.ScanNormalize

/-!
What is masked across invisible characters: for a mask that only replaces stretches of its text
by placeholders, the output is a redaction of the text. It hides what the mask replaces in the
text as written and what it replaces in the joined text, there with the invisible characters
that stand within a replaced run. An invisible character next to replaced ones that neither run
takes in is unmasked text.
-/
namespace TrwMemory.Security.ScanNormalize

open Library Library.Redaction

/-- A mask that only replaces stretches of its text by placeholders: with each text, what it
replaces there. -/
structure Masker where
  redaction : List Char → Redaction placeholder
  source_eq : ∀ text, (redaction text).source = text

namespace Masker

variable (m : Masker)

def mask (text : List Char) : List Char := (m.redaction text).masked

/-- The stretches that the mask replaces. -/
def replaced (text : List Char) : List Range := (m.redaction text).ranges

end Masker

section Ranges

variable {r : Redaction placeholder}

/-- The pieces of the masked text are the steps of the redaction. -/
def Pieced (r : Redaction placeholder) : Prop :=
  placeholder.pieces 0 r.masked = (r.first, r.steps.map fun step => (step.marker, step.kept))

theorem maskedRanges_of_nil (hpieces : Pieced r) (h : r.steps = []) :
    maskedRanges r.source r.masked = [] := by
  rw [maskedRanges, hpieces, h]
  rfl

theorem rebuilds_rangesAt {places : List Nat} (h : r.PlacedAt places) :
    rebuilds r.source r.masked (r.rangesAt places) = true := by
  rw [rebuilds, rebuild_rangesAt r h, beq_self_eq_true, Bool.and_true, Bool.not_eq_true',
    List.any_eq_false]
  intro s hs
  rw [decide_eq_true_eq, Nat.not_lt]
  exact (start_le_of_spans h s hs).2.1

/-- Both extreme alignments stand, and the ranges are their hull. -/
theorem maskedRanges_of_pieced (hpieces : Pieced r) (h : r.steps ≠ []) {firsts lasts : List Nat}
    (hfirsts : earliest r.source r.first.length r.parts = some firsts)
    (hlasts : latest r.source r.parts = some lasts)
    (hearly : r.PlacedAt firsts) (hlate : r.PlacedAt lasts) :
    maskedRanges r.source r.masked =
      (hull (r.rangesAt firsts) (r.rangesAt lasts)).filter fun s => decide (s.start < s.stop) := by
  have hparts : (r.steps.map fun step => (step.marker, step.kept)).map Prod.snd = r.parts :=
    List.map_map
  have hholders : (r.steps.map fun step => (step.marker, step.kept)).map Prod.fst =
      r.steps.map Step.marker := List.map_map
  have hanchored : (!r.first.isPrefixOf r.source ||
      !(r.parts.getLastD []).isSuffixOf r.source) = false := by
    rw [List.isPrefixOf_iff_prefix.mpr (first_leads r),
      List.isSuffixOf_iff_suffix.mpr (parts_suffix r [] h)]
    rfl
  obtain ⟨step, steps, hsteps⟩ := List.exists_cons_of_ne_nil h
  have hhead : ¬ lasts.headD r.source.length < r.first.length := by
    cases lasts with
    | nil => exact Nat.not_lt.mpr (placed_le hlate)
    | cons last lasts =>
        rw [PlacedAt, parts, hsteps] at hlate
        exact Nat.not_lt.mpr hlate.1
  unfold maskedRanges
  rw [hpieces]
  dsimp only
  rw [hparts, hholders]
  split
  · rename_i hnil
    rw [hsteps] at hnil
    cases hnil
  · have hfirst := rebuilds_rangesAt hearly
    have hlast := rebuilds_rangesAt hlate
    rw [rangesAt] at hfirst hlast
    rw [hanchored, if_neg Bool.false_ne_true, hfirsts, hlasts]
    dsimp only
    rw [if_neg hhead, hfirst, hlast]
    rfl

/-- The ranges of a run are stretches of its text, each with a placeholder, and a run of
replaced characters lies in one of them. -/
theorem maskedRanges_redaction (r : Redaction placeholder) :
    (∀ s ∈ maskedRanges r.source r.masked,
      s.start < s.stop ∧ s.stop ≤ r.source.length ∧ isPlaceholder s.holder = true) ∧
    ∀ i k, i ≤ k → (∀ j, i ≤ j → j ≤ k → Covers r.ranges j) →
      ∃ s ∈ maskedRanges r.source r.masked, s.start ≤ i ∧ k < s.stop := by
  -- a placeholder of the source counts as replaced by itself
  suffices hsplit : (∀ s ∈ maskedRanges r.split.source r.split.masked,
      s.start < s.stop ∧ s.stop ≤ r.split.source.length ∧ isPlaceholder s.holder = true) ∧
    ∀ i k, i ≤ k → (∀ j, i ≤ j → j ≤ k → Covers r.split.ranges j) →
      ∃ s ∈ maskedRanges r.split.source r.split.masked, s.start ≤ i ∧ k < s.stop by
    rw [split_source, split_masked] at hsplit
    refine ⟨hsplit.1, fun i k hik hrun => hsplit.2 i k hik fun j hij hjk => ?_⟩
    exact covers_of_subset (ranges_subset_split r) (hrun j hij hjk)
  have hpieces : Pieced r.split := by
    rw [Pieced, split_masked]
    exact pieces_masked r
  generalize r.split = q at hpieces ⊢
  by_cases hsteps : q.steps = []
  · rw [maskedRanges_of_nil hpieces hsteps]
    refine ⟨by simp, fun i k hik hrun => ?_⟩
    obtain ⟨s, hs, -⟩ := hrun i (Nat.le_refl i) hik
    rw [Redaction.ranges, hsteps] at hs
    cases hs
  · obtain ⟨firsts, lasts, hfirsts, hlasts, hearly, hlate, hruns⟩ := exists_alignments q hsteps
    rw [maskedRanges_of_pieced hpieces hsteps hfirsts hlasts hearly hlate]
    constructor
    · intro s hs
      obtain ⟨hmem, hlt⟩ := List.mem_filter.mp hs
      obtain ⟨first, hfirst, last, hlast, rfl⟩ := mem_hull hmem
      obtain ⟨step, hstep, hholder⟩ := List.mem_map.mp (holder_mem_of_spans first hfirst)
      refine ⟨of_decide_eq_true hlt, (start_le_of_spans hlate last hlast).2.2, ?_⟩
      exact hholder ▸ q.marked step hstep
    · intro i k hik hrun
      obtain ⟨s, hs, hstart, hstop⟩ := hruns i k hik hrun
      refine ⟨s, List.mem_filter.mpr ⟨hs, ?_⟩, hstart, hstop⟩
      exact decide_eq_true (by omega)

end Ranges

/-- A stretch of a text of this length, with a placeholder. -/
def Hides (length : Nat) (s : Range) : Prop :=
  s.start < s.stop ∧ s.stop ≤ length ∧ isPlaceholder s.holder = true

/-- One range lies in another. -/
def Within (s t : Range) : Prop := t.start ≤ s.start ∧ s.stop ≤ t.stop

theorem mergeFrom_spec {length pos : Nat} {last : Range} {rest : List Range}
    (hlast : Hides length last) (hpos : pos ≤ last.start) (hrest : ∀ s ∈ rest, Hides length s)
    (hsorted : (last :: rest).Pairwise fun a b => a.start ≤ b.start) :
    InOrder length pos (mergeFrom last rest) ∧
      (∀ t ∈ mergeFrom last rest, isPlaceholder t.holder = true) ∧
      ∀ s ∈ last :: rest, ∃ t ∈ mergeFrom last rest, Within s t := by
  induction rest generalizing last pos with
  | nil =>
      refine ⟨⟨hpos, Nat.le_of_lt hlast.1, hlast.2.1⟩, ?_, ?_⟩
      · simpa [mergeFrom] using hlast.2.2
      · intro s hs
        exact ⟨s, hs, Nat.le_refl _, Nat.le_refl _⟩
  | cons r rest ih =>
      obtain ⟨hr, hrest⟩ := List.forall_mem_cons.mp hrest
      obtain ⟨hbefore, hsorted'⟩ := List.pairwise_cons.mp hsorted
      obtain ⟨hfirst, hlater⟩ := List.forall_mem_cons.mp hbefore
      rw [mergeFrom]
      split
      · rename_i htouch
        have hmerged : Hides length { last with stop := max last.stop r.stop } :=
          ⟨Nat.lt_of_lt_of_le hlast.1 (Nat.le_max_left _ _), Nat.max_le.mpr ⟨hlast.2.1, hr.2.1⟩,
            hlast.2.2⟩
        obtain ⟨horder, hholders, hwithin⟩ := ih hmerged hpos hrest
          (List.pairwise_cons.mpr ⟨hlater, (List.pairwise_cons.mp hsorted').2⟩)
        refine ⟨horder, hholders, ?_⟩
        obtain ⟨t, ht, hstart, hstop⟩ := hwithin _ List.mem_cons_self
        have hstop' := Nat.max_le.mp hstop
        refine List.forall_mem_cons.mpr ⟨⟨t, ht, hstart, hstop'.1⟩, ?_⟩
        refine List.forall_mem_cons.mpr ⟨⟨t, ht, Nat.le_trans hstart hfirst, hstop'.2⟩, ?_⟩
        exact fun s hs => hwithin s (List.mem_cons_of_mem _ hs)
      · rename_i hapart
        have hgap : last.stop ≤ r.start := by omega
        obtain ⟨horder, hholders, hwithin⟩ := ih hr hgap hrest hsorted'
        refine ⟨⟨hpos, Nat.le_of_lt hlast.1, horder⟩,
          List.forall_mem_cons.mpr ⟨hlast.2.2, hholders⟩, List.forall_mem_cons.mpr ⟨?_, ?_⟩⟩
        · exact ⟨last, List.mem_cons_self, Nat.le_refl _, Nat.le_refl _⟩
        · intro s hs
          obtain ⟨t, ht, hin⟩ := hwithin s hs
          exact ⟨t, List.mem_cons_of_mem _ ht, hin⟩

theorem start_le_of_rangeKey {a b : Range} (h : rangeKey a ≤ rangeKey b) : a.start ≤ b.start :=
  Prod.Lex.monotone_fst _ _ h

instance : Std.Total fun a b : Range => rangeKey a ≤ rangeKey b := ⟨fun _ _ => le_total _ _⟩

instance : IsTrans Range fun a b => rangeKey a ≤ rangeKey b := ⟨fun _ _ _ => le_trans⟩

/-- Merged ranges stand in order, and each range lies in one of them. -/
theorem mergeRanges_spec {length : Nat} {ranges : List Range}
    (h : ∀ s ∈ ranges, Hides length s) :
    InOrder length 0 (mergeRanges ranges) ∧
      (∀ t ∈ mergeRanges ranges, isPlaceholder t.holder = true) ∧
      ∀ s ∈ ranges, ∃ t ∈ mergeRanges ranges, Within s t := by
  have hsorted : (ranges.insertionSort fun a b => rangeKey a ≤ rangeKey b).Pairwise
      fun a b => a.start ≤ b.start :=
    (List.pairwise_insertionSort _ ranges).imp start_le_of_rangeKey
  have hmem : ∀ s, s ∈ (ranges.insertionSort fun a b => rangeKey a ≤ rangeKey b) ↔ s ∈ ranges :=
    fun s => List.mem_insertionSort _
  rw [mergeRanges]
  cases hsort : ranges.insertionSort fun a b => rangeKey a ≤ rangeKey b with
  | nil =>
      rw [hsort] at hmem
      refine ⟨Nat.zero_le _, by simp, fun s hs => ?_⟩
      cases (hmem s).mpr hs
  | cons first rest =>
      rw [hsort] at hmem hsorted
      have hfirst := h first ((hmem first).mp List.mem_cons_self)
      obtain ⟨horder, hholders, hwithin⟩ := mergeFrom_spec hfirst (Nat.zero_le _)
        (fun s hs => h s ((hmem s).mp (List.mem_cons_of_mem _ hs))) hsorted
      exact ⟨horder, hholders, fun s hs => hwithin s ((hmem s).mpr hs)⟩

section Joined

variable (category : Char → String) (text : List Char)

/-- The text without its invisible characters. -/
def joined : List Char := (withoutInvisibleSplits category text).1

/-- The places of the joined text's characters. -/
def kept : List Nat := (withoutInvisibleSplits category text).2

theorem kept_length : (kept category text).length = (joined category text).length := by
  rw [kept, joined, withoutInvisibleSplits, List.length_map, List.length_map]

theorem kept_pairwise : (kept category text).Pairwise (· < ·) := by
  have hsub : (kept category text).Sublist (List.range text.length) := by
    rw [kept, withoutInvisibleSplits, ← List.zipIdx_map_snd 0 text |>.trans
      List.range_eq_range'.symm]
    exact List.filter_sublist.map _
  exact List.pairwise_lt_range.sublist hsub

variable {category text}

theorem kept_lt {i a : Nat} (h : (kept category text)[i]? = some a) : a < text.length := by
  obtain ⟨⟨ch, b⟩, hmem, rfl⟩ := List.mem_map.mp (List.mem_of_getElem? h)
  have hin := (List.mem_filter.mp hmem).1
  have hget := List.mem_zipIdx_iff_getElem?.mp hin
  obtain ⟨hlt, -⟩ := List.getElem?_eq_some_iff.mp hget
  exact hlt

theorem kept_le {i k a b : Nat} (hik : i ≤ k) (ha : (kept category text)[i]? = some a)
    (hb : (kept category text)[k]? = some b) : a ≤ b := by
  rcases Nat.eq_or_lt_of_le hik with rfl | hlt
  · exact Nat.le_of_eq (Option.some.inj (ha.symm.trans hb))
  · obtain ⟨hi, rfl⟩ := List.getElem?_eq_some_iff.mp ha
    obtain ⟨hk, rfl⟩ := List.getElem?_eq_some_iff.mp hb
    exact Nat.le_of_lt (List.pairwise_iff_getElem.mp (kept_pairwise category text) i k hi hk hlt)

theorem exists_kept {i : Nat} (h : i < (joined category text).length) :
    ∃ a, (kept category text)[i]? = some a := by
  rw [← kept_length] at h
  exact ⟨_, List.getElem?_eq_getElem h⟩

/-- A range of the joined text has its place in the text. -/
theorem originalRange_spec {r : Range} (h : Hides (joined category text).length r) :
    ∃ s, originalRange (kept category text) r = some s ∧ Hides text.length s ∧
      ∀ i a, r.start ≤ i → i < r.stop → (kept category text)[i]? = some a →
        s.start ≤ a ∧ a < s.stop := by
  obtain ⟨hlt, hstop, hholder⟩ := h
  obtain ⟨start, hstart⟩ : ∃ start, (kept category text)[r.start]? = some start :=
    exists_kept (by omega)
  obtain ⟨last, hlast⟩ : ∃ last, (kept category text)[r.stop - 1]? = some last :=
    exists_kept (by omega)
  refine ⟨⟨start, last + 1, r.holder⟩, ?_, ⟨?_, kept_lt hlast, hholder⟩, ?_⟩
  · simp [originalRange, hstart, hlast]
  · exact Nat.lt_succ_of_le (kept_le (by omega) hstart hlast)
  · intro i a hi hi' ha
    exact ⟨kept_le hi hstart ha, Nat.lt_succ_of_le (kept_le (by omega) ha hlast)⟩

theorem mapM_originalRange {rs : List Range}
    (h : ∀ r ∈ rs, Hides (joined category text).length r) :
    ∃ found, rs.mapM (originalRange (kept category text)) = some found ∧
      (∀ s ∈ found, Hides text.length s) ∧
      ∀ r ∈ rs, ∃ s ∈ found, originalRange (kept category text) r = some s := by
  induction rs with
  | nil => exact ⟨[], rfl, by simp, by simp⟩
  | cons r rs ih =>
      obtain ⟨hr, hrs⟩ := List.forall_mem_cons.mp h
      obtain ⟨s, hs, hhides, -⟩ := originalRange_spec hr
      obtain ⟨found, hfound, hall, himage⟩ := ih hrs
      refine ⟨s :: found, by simp [List.mapM_cons, hs, hfound],
        List.forall_mem_cons.mpr ⟨hhides, hall⟩,
        List.forall_mem_cons.mpr ⟨⟨s, List.mem_cons_self, hs⟩, ?_⟩⟩
      intro r' hr'
      obtain ⟨s', hs', himage'⟩ := himage r' hr'
      exact ⟨s', List.mem_cons_of_mem _ hs', himage'⟩

/-- Without invisible characters the joined text is the text. -/
theorem joined_of_none (h : text.any (isFormat category) = false) :
    joined category text = text ∧ kept category text = List.range text.length := by
  have hall : withoutInvisibleSplits category text =
      (text.zipIdx.map Prod.fst, text.zipIdx.map Prod.snd) := by
    rw [withoutInvisibleSplits, List.filter_eq_self.mpr]
    rintro ⟨ch, i⟩ hmem
    have hch : ch ∈ text := List.mem_of_getElem? (List.mem_zipIdx_iff_getElem?.mp hmem)
    have hnot := List.any_eq_false.mp h ch hch
    simpa using hnot
  rw [joined, kept, hall]
  exact ⟨List.zipIdx_map_fst 0 text, (List.zipIdx_map_snd 0 text).trans List.range_eq_range'.symm⟩

end Joined

section Output

variable (category : Char → String) (m : Masker) (text : List Char)

theorem masker_ranges :
    (∀ s ∈ maskedRanges text (m.mask text), Hides text.length s) ∧
    ∀ i k, i ≤ k → (∀ j, i ≤ j → j ≤ k → Covers (m.replaced text) j) →
      ∃ s ∈ maskedRanges text (m.mask text), s.start ≤ i ∧ k < s.stop := by
  have hranges := maskedRanges_redaction (m.redaction text)
  rw [m.source_eq text] at hranges
  exact hranges

/-- The union of both runs: ranges in order that take in what either run replaced. -/
theorem unionRanges_spec :
    ∃ out, unionRanges category m.mask text = some out ∧ InOrder text.length 0 out ∧
      (∀ t ∈ out, isPlaceholder t.holder = true) ∧
      (∀ s ∈ maskedRanges text (m.mask text), ∃ t ∈ out, Within s t) ∧
      ∀ r ∈ maskedRanges (joined category text) (m.mask (joined category text)),
        ∃ s, originalRange (kept category text) r = some s ∧ ∃ t ∈ out, Within s t := by
  have htext := (masker_ranges m text).1
  have hjoined := (masker_ranges m (joined category text)).1
  obtain ⟨found, hfound, hall, himage⟩ := mapM_originalRange hjoined
  have hboth : ∀ s ∈ maskedRanges text (m.mask text) ++ found, Hides text.length s := by
    intro s hs
    exact (List.mem_append.mp hs).elim (htext s) (hall s)
  obtain ⟨horder, hholders, hwithin⟩ := mergeRanges_spec hboth
  refine ⟨_, ?_, horder, hholders, ?_, ?_⟩
  · rw [unionRanges]
    change (List.mapM (originalRange (kept category text))
      (maskedRanges (joined category text) (m.mask (joined category text)))).bind _ = _
    rw [hfound]
    rfl
  · exact fun s hs => hwithin s (List.mem_append_left _ hs)
  · intro r hr
    obtain ⟨s, hs, hrange⟩ := himage r hr
    exact ⟨s, hrange, hwithin s (List.mem_append_right _ hs)⟩

/-- The output is a redaction of the text: what is outside its ranges is emitted as it stands.
The ranges take in all that the mask replaces in the text, and all that it replaces in the
joined text with the invisible characters within a replaced run. -/
theorem masked_across_splits :
    ∃ out : Redaction placeholder, out.source = text ∧
      maskWithInvisibleSplits category m.mask text = some out.masked ∧
      (text.any (isFormat category) = true →
        unionRanges category m.mask text = some out.ranges) ∧
      (∀ p, Covers (m.replaced text) p → Covers out.ranges p) ∧
      ∀ i k a b, i ≤ k →
        (∀ j, i ≤ j → j ≤ k → Covers (m.replaced (joined category text)) j) →
        (kept category text)[i]? = some a → (kept category text)[k]? = some b →
        ∀ p, a ≤ p → p ≤ b → Covers out.ranges p := by
  cases hany : text.any (isFormat category) with
  | false =>
      obtain ⟨hjoined, hkept⟩ := joined_of_none hany
      refine ⟨m.redaction text, m.source_eq text, ?_, by simp, fun p hp => hp, ?_⟩
      · rw [maskWithInvisibleSplits, hany, Bool.not_false, Bool.or_true, if_pos rfl]
        rfl
      · intro i k a b hik hrun ha hb p hap hpb
        rw [hkept, List.getElem?_eq_some_iff] at ha hb
        obtain ⟨_, ha⟩ := ha
        obtain ⟨_, hb⟩ := hb
        rw [List.getElem_range] at ha hb
        rw [hjoined] at hrun
        exact hrun p (by omega) (by omega)
  | true =>
      obtain ⟨ranges, hunion, horder, hholders, htext, hsplit⟩ := unionRanges_spec category m text
      obtain ⟨out, hsource, hmasked, hout⟩ := exists_of_inOrder (M := placeholder) horder hholders
      have hne : text.isEmpty = false := by
        cases text with
        | nil => cases hany
        | cons ch text => rfl
      refine ⟨out, hsource, ?_, fun _ => by rw [hunion, hout], ?_, ?_⟩
      · rw [maskWithInvisibleSplits, hany, hne, Bool.not_true, Bool.or_false,
          if_neg Bool.false_ne_true, hunion, hmasked]
        rfl
      · intro p hp
        obtain ⟨s, hs, hstart, hstop⟩ := (masker_ranges m text).2 p p (Nat.le_refl p)
          fun j hpj hjp => Nat.le_antisymm hpj hjp ▸ hp
        obtain ⟨t, ht, hin⟩ := htext s hs
        rw [hout]
        exact ⟨t, ht, Nat.le_trans hin.1 hstart, Nat.lt_of_lt_of_le hstop hin.2⟩
      · intro i k a b hik hrun ha hb p hap hpb
        obtain ⟨r, hr, hstart, hstop⟩ := (masker_ranges m (joined category text)).2 i k hik hrun
        obtain ⟨s, hs, t, ht, hin⟩ := hsplit r hr
        obtain ⟨s', hs', -, hplaces⟩ :=
          originalRange_spec ((masker_ranges m (joined category text)).1 r hr)
        cases hs.symm.trans hs'
        have hfirst := hplaces i a hstart (by omega) ha
        have hlast := hplaces k b (by omega) hstop hb
        rw [hout]
        exact ⟨t, ht, Nat.le_trans hin.1 (Nat.le_trans hfirst.1 hap),
          Nat.lt_of_le_of_lt hpb (Nat.lt_of_lt_of_le hlast.2 hin.2)⟩

end Output

/-- The category of the zero-width space is `Cf`. -/
def zeroWidthCategory (ch : Char) : String := if ch = '\u200b' then "Cf" else "Ll"

/-- Two letters with a zero-width space between them. -/
def twoLetters : List Char := ['a', '\u200b', 'b']

/-- Masks the letters where they stand apart. -/
def apartMasker : Masker where
  redaction text :=
    if text = twoLetters then
      ⟨[], [⟨['a'], "<email>".toList, ['\u200b']⟩, ⟨['b'], "<email>".toList, []⟩], by decide⟩
    else ⟨text, [], by simp⟩
  source_eq := by
    intro text
    split
    · rename_i htext
      exact htext.symm
    · exact List.append_nil text

/-- Both letters are masked, and the invisible character between them is emitted. -/
theorem invisible_between_emitted :
    Covers (apartMasker.replaced twoLetters) 0 ∧ Covers (apartMasker.replaced twoLetters) 2 ∧
      twoLetters[1]?.map (isFormat zeroWidthCategory) = some true ∧
      maskWithInvisibleSplits zeroWidthCategory apartMasker.mask twoLetters =
        some ("<email>".toList ++ ['\u200b'] ++ "<email>".toList) ∧
      ∃ out, unionRanges zeroWidthCategory apartMasker.mask twoLetters = some out ∧
        ¬ Covers out 1 := by
  refine ⟨by decide +kernel, by decide +kernel, by decide +kernel, by decide +kernel,
    [⟨0, 1, "<email>".toList⟩, ⟨2, 3, "<email>".toList⟩], by decide +kernel, by decide +kernel⟩

end TrwMemory.Security.ScanNormalize

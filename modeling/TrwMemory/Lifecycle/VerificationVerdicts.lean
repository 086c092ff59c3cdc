import Mathlib.Tactic.NormNum
import TrwMemory.Lifecycle.VerificationRuns

/-!
The verdicts of whole runs: what a visit that leaves an entry stale or verified rests on, what
it leaves alone, and that `first_failed_at` follows the results written for each assertion.
-/
namespace TrwMemory.Lifecycle.Verification

section Visit

variable {settings : VerifySettings} {tree : Tree} {moment : Int} {read current : EntryRow}

/-- A visit writes its verdict on the row it has read, or touches the status at most. -/
theorem verifyEntry_cases (settings : VerifySettings) (tree : Tree) (moment : Int)
    (read current : EntryRow) :
    (current.checked = read.checked ∧
      verifyEntry settings tree moment read current =
        (current.update (runVerificationPass settings tree moment read), true)) ∨
    verifyEntry settings tree moment read current = (current, false) ∨
    (read.verificationStatus = some .verified ∧
      verifyEntry settings tree moment read current =
        ({ current with verificationStatus := none }, false)) := by
  unfold verifyEntry
  split
  · exact .inr (.inl rfl)
  · dsimp only
    split
    · rename_i hwithdraw
      refine .inr (.inr ⟨hwithdraw.2, ?_⟩)
      rw [persistVerificationOutcome, if_pos hwithdraw.1]
    · rw [persistVerificationOutcome]
      split
      · exact .inr (.inl rfl)
      · split
        · exact .inr (.inl rfl)
        · rename_i hchecked
          exact .inl ⟨not_not.mp hchecked, rfl⟩

/-- Nothing could be judged: at most a positive verdict is withdrawn. -/
theorem verifyEntry_unverifiable (current : EntryRow)
    (h : (runVerificationPass settings tree moment read).verifiable = false)
    (hread : read.assertions ≠ []) :
    verifyEntry settings tree moment read current =
      ({ current with
          verificationStatus := if read.verificationStatus = some .verified then none
            else current.verificationStatus }, false) := by
  have hsome : ¬ (read.assertions = [] ∧ read.anchors = []) := fun hnil => hread hnil.1
  rw [verifyEntry, if_neg hsome]
  simp only [h, true_and, persistVerificationOutcome, if_true]
  split <;> rfl

theorem judge_isHeld (assertions : List StoredAssertion) (evaluated : List AssertionResult) :
    ∀ j ∈ judge tree assertions evaluated, j.held = isHeld tree j.assertion := by
  induction assertions generalizing evaluated with
  | nil => exact fun j hj => nomatch hj
  | cons a assertions ih =>
      intro j hj
      simp only [judge] at hj
      split at hj
      · rename_i hheld
        rcases List.mem_cons.mp hj with rfl | hj
        · exact hheld.symm
        · exact ih evaluated j hj
      · rename_i hheld
        split at hj
        · cases hj
        · rcases List.mem_cons.mp hj with rfl | hj
          · exact ((Bool.not_eq_true _).mp hheld).symm
          · exact ih _ j hj

theorem any_isHeld (tree : Tree) (assertions : List StoredAssertion) :
    assertions.any (isHeld tree) = (judgeAll tree assertions).any Judged.held := by
  conv_lhs => rw [← judgeAll_assertions tree assertions]
  rw [List.any_map, Bool.eq_iff_iff, List.any_eq_true, List.any_eq_true]
  refine exists_congr fun j => and_congr_right fun hj => ?_
  rw [judge_isHeld _ _ j hj, Function.comp_apply]

theorem seen_held {judged : Judged} : judged.seen = .held ↔ judged.held = true := by
  cases hheld : judged.held with
  | true => simp [Judged.seen, hheld]
  | false =>
      simp only [Judged.seen, hheld, Bool.false_eq_true, if_false, iff_false]
      split <;> decide

theorem seen_unknown {judged : Judged} (h : judged.seen = .unknown) :
    judged.held = false ∧ judged.result.passed = none := by
  cases hheld : judged.held with
  | true =>
      rw [seen_held.mpr hheld] at h
      cases h
  | false =>
      refine ⟨rfl, ?_⟩
      simp only [Judged.seen, hheld, Bool.false_eq_true, if_false] at h
      split at h
      · assumption
      · cases h
      · cases h

theorem seen_failed {judged : Judged} (hheld : judged.held = true → judged.result.passed = none)
    (h : judged.isPassed (some false) = true) : judged.seen = .failed := by
  have hpassed : judged.result.passed = some false := beq_iff_eq.mp h
  have hlive : judged.held = false := by
    cases hcase : judged.held with
    | false => rfl
    | true => cases (hheld hcase).symm.trans hpassed
  simp [Judged.seen, hlive, hpassed]

/-- All results unknown and none held: nothing is verifiable. -/
theorem unverifiable_of_unknown (settings : VerifySettings) (moment : Int)
    (hread : read.assertions ≠ [])
    (h : ∀ j ∈ judgeAll tree read.assertions, j.seen = .unknown) :
    (runVerificationPass settings tree moment read).verifiable = false := by
  have hheld : read.assertions.any (isHeld tree) = false := by
    rw [any_isHeld, List.any_eq_false]
    exact fun j hj => by rw [(seen_unknown (h j hj)).1]; decide
  have hnone : ((judgeAll tree read.assertions).any fun j => j.result.passed.isSome) = false := by
    rw [List.any_eq_false]
    exact fun j hj => by rw [(seen_unknown (h j hj)).2]; decide
  rw [runVerificationPass, (applyVerdict_rest _).2, if_neg hread]
  simp only [assertionsOutcome, hheld, hnone, Bool.or_self]

/-- A stale verdict: every assertion failed, and has since before the threshold. -/
theorem persistent_of_stale
    (h : (runVerificationPass settings tree moment read).verificationStatus = some .stale) :
    judgeAll tree read.assertions ≠ [] ∧ ∀ j ∈ judgeAll tree read.assertions,
      j.seen = .failed ∧ ∃ failed, (j.fold moment).firstFailedAt = some failed ∧
        failed < settings.staleThreshold moment := by
  have hstale := applyVerdict_stale h
  split at hstale
  · cases hstale
  · have hpersistent : isPersistent settings moment (judgeAll tree read.assertions) = true := by
      simp only [assertionsOutcome] at hstale
      split at hstale
      · assumption
      · cases hstale
    simp only [isPersistent, Bool.and_eq_true, decide_eq_true_eq, List.all_eq_true,
      List.all_map] at hpersistent
    obtain ⟨⟨hnil, hfailing⟩, -, hbefore⟩ := hpersistent
    refine ⟨hnil, fun j hj => ⟨seen_failed (judge_held _ _ j hj) (hfailing j hj), ?_⟩⟩
    have hlate : failedBefore (settings.staleThreshold moment) (j.fold moment) = true :=
      hbefore j hj
    obtain ⟨failed, hfailed, hlt⟩ := (Option.any_eq_true _ _).mp hlate
    exact ⟨failed, hfailed, of_decide_eq_true hlt⟩

/-- A positive verdict: everything that was examined was found in order. -/
theorem passed_of_verified
    (h : (runVerificationPass settings tree moment read).verificationStatus = some .verified) :
    (∀ j ∈ judgeAll tree read.assertions, j.seen = .passed) ∧
      (read.assertions ≠ [] ∨ (reverifyAnchors tree read.anchors).isSome) ∧
      ∀ score, reverifyAnchors tree read.anchors = some score →
        settings.anchorValidityVerifiedFloor ≤ score := by
  rw [runVerificationPass] at h
  split at h
  · rename_i hnil
    obtain ⟨hexamined, -, -, hclean⟩ := applyVerdict_verified (by simp [anchorsOutcome]) h
    have hanchors : passAnchors tree read = reverifyAnchors tree read.anchors := by
      rw [passAnchors, hnil, List.any_nil, if_neg Bool.false_ne_true]
    simp only [anchorsOutcome, hanchors, anchorsClean] at hexamined hclean
    refine ⟨fun j hj => ?_, .inr ?_, fun score hscore => ?_⟩
    · rw [(judgeAll_eq_nil tree _).mpr hnil] at hj
      cases hj
    · exact Option.isSome_iff_ne_none.mpr fun hnone => hexamined ⟨by trivial, hnone⟩
    · rw [hscore] at hclean
      exact of_decide_eq_true hclean
  · rename_i hsome
    obtain ⟨-, hfailing, hstale, hclean⟩ := applyVerdict_verified
      (by simp only [assertionsOutcome]; split <;> decide) h
    simp only [assertionsOutcome] at hfailing hstale hclean
    have hall : ∀ j ∈ judgeAll tree read.assertions, j.seen = .passed := fun j hj =>
      seen_of_not_passed (judge_held _ _ j hj)
        ((Bool.not_eq_true _).mp (List.countP_eq_zero.mp hfailing j hj))
        ((Bool.not_eq_true _).mp (List.countP_eq_zero.mp hstale j hj))
    refine ⟨hall, .inl hsome, fun score hscore => ?_⟩
    have hheld : read.assertions.any (isHeld tree) = false := by
      rw [any_isHeld, List.any_eq_false]
      intro j hj hheld
      cases (hall j hj).symm.trans (seen_held.mpr hheld)
    rw [passAnchors, hheld, if_neg Bool.false_ne_true, hscore] at hclean
    exact of_decide_eq_true hclean

end Visit

namespace Ledger

theorem start_tracks (row : EntryRow) : (start row).Tracks :=
  List.forall₂_map_right_iff.mpr
    (List.forall₂_same.mpr fun a _ => (firstFailure_declared a).symm)

theorem edit_tracks {s : Ledger} (h : s.Tracks) (e : Edit) : (s.edit e).Tracks := by
  refine List.forall₂_map_left_iff.mpr (List.forall₂_map_right_iff.mpr
    (List.forall₂_same.mpr fun tracked htracked => ?_))
  obtain ⟨slot, -, hslot⟩ := List.mem_filterMap.mp htracked
  cases slot with
  | kept index => exact List.forall₂_zip h (List.mem_of_getElem? hslot)
  | written a =>
      obtain rfl := Option.some.inj hslot
      exact (firstFailure_declared a).symm

theorem found_tracks {s : Ledger} (h : s.Tracks) (v : Visit) : (s.found v).Tracks := by
  unfold found
  induction v.edits generalizing s with
  | nil => exact h
  | cons e edits ih => exact ih (edit_tracks h e)

/-- The results of a visit are written behind the histories of the assertions it judged. -/
theorem found_judged {s : Ledger} (h : s.Tracks) {v : Visit}
    (hchecked : (s.found v).row.checked = s.row.checked) :
    List.Forall₂ (fun j history => j.assertion.firstFailedAt = History.firstFailure history)
      (s.judged v) (s.found v).histories := by
  have hfound := found_tracks h v
  have hassertions : (s.found v).row.assertions = (s.judged v).map Judged.assertion := by
    rw [judged, judgeAll_assertions]
    exact congrArg Prod.fst hchecked
  rw [Tracks, hassertions] at hfound
  exact List.forall₂_map_left_iff.mp hfound

theorem forall₂_fold {moment : Int} {judged : List Judged} {histories : List History}
    (h : List.Forall₂ (fun j history => j.assertion.firstFailedAt =
      History.firstFailure history) judged histories) :
    List.Forall₂ (fun a history => a.firstFailedAt = History.firstFailure history)
      (judged.map (Judged.fold moment))
      (List.zipWith (fun j history => (moment, j.seen) :: history) judged histories) := by
  induction h with
  | nil => exact .nil
  | cons hj _ ih => exact .cons (fold_firstFailedAt moment _ hj) ih

theorem visit_tracks {s : Ledger} (h : s.Tracks) (v : Visit) : (s.visit v).Tracks := by
  unfold visit verdict
  rcases verifyEntry_cases v.settings v.tree v.moment s.row (s.found v).row with
    ⟨hchecked, hrow⟩ | hrow | ⟨-, hrow⟩
  · rw [hrow]
    dsimp only [Tracks, EntryRow.update]
    rw [if_pos rfl, runVerificationPass_updated]
    exact forall₂_fold (found_judged h hchecked)
  · rw [hrow]
    exact found_tracks h v
  · rw [hrow]
    exact found_tracks h v

theorem run_tracks {s : Ledger} (h : s.Tracks) (events : List Event) : (s.run events).Tracks := by
  unfold run
  induction events generalizing s with
  | nil => exact h
  | cons event events ih =>
      refine ih ?_
      cases event with
      | edit e => exact edit_tracks h e
      | visit v => exact visit_tracks h v

/-- What a visit of an entry in state `s` rests on and leaves alone. The second half of each
verdict's alternative is a verdict of an earlier visit or an edit, which this one has left. -/
structure VisitJustified (s : Ledger) (v : Visit) : Prop where
  stale : (s.visit v).row.verificationStatus = some .stale →
    ((s.visit v).histories ≠ [] ∧ ∀ history ∈ (s.visit v).histories,
      history.Persistent v.moment (v.settings.staleThreshold v.moment)) ∨
    (s.verdict v).2 = false ∧ (s.found v).row.verificationStatus = some .stale
  verified : (s.visit v).row.verificationStatus = some .verified →
    ((∀ j ∈ s.judged v, j.seen = .passed) ∧
      (s.row.assertions ≠ [] ∨ (reverifyAnchors v.tree s.row.anchors).isSome) ∧
      ∀ score, reverifyAnchors v.tree s.row.anchors = some score →
        v.settings.anchorValidityVerifiedFloor ≤ score) ∨
    (s.verdict v).2 = false ∧ (s.found v).row.verificationStatus = some .verified
  unknown : s.row.assertions ≠ [] → (∀ j ∈ s.judged v, j.seen = .unknown) →
    s.visit v = { s.found v with
      row := { (s.found v).row with
        verificationStatus := if s.row.verificationStatus = some .verified then none
          else (s.found v).row.verificationStatus } }
  overtaken : (s.found v).row.checked ≠ s.row.checked →
    (s.visit v).row.assertions = (s.found v).row.assertions
  anchors : (s.visit v).row.anchors = (s.found v).row.anchors

theorem mem_zipWith_forall₂ {α β γ : Type} {R : α → β → Prop} {f : α → β → γ} {as : List α}
    {bs : List β} (h : List.Forall₂ R as bs) :
    ∀ c ∈ List.zipWith f as bs, ∃ a ∈ as, ∃ b, R a b ∧ c = f a b := by
  induction h with
  | nil => exact fun c hc => nomatch hc
  | @cons a b as bs hab _ ih =>
      intro c hc
      rcases List.mem_cons.mp hc with rfl | hc
      · exact ⟨a, List.mem_cons_self, b, hab, rfl⟩
      · obtain ⟨a', ha', rest⟩ := ih c hc
        exact ⟨a', List.mem_cons_of_mem _ ha', rest⟩

/-- A failure that is written as persistent shows in the results written. -/
theorem persistent_of_fold {moment threshold failed : Int} {j : Judged} {history : History}
    (h : j.assertion.firstFailedAt = history.firstFailure) (hseen : j.seen = .failed)
    (hfailed : (j.fold moment).firstFailedAt = some failed) (hlt : failed < threshold) :
    History.Persistent moment threshold ((moment, j.seen) :: history) := by
  have hfirst := (fold_firstFailedAt moment j h).symm.trans hfailed
  obtain ⟨since, before, hsplit, hbreaks⟩ := History.firstFailure_split hfirst
  exact ⟨by rw [List.head?_cons, hseen], since, failed, before, hsplit, hlt, hbreaks⟩

theorem visit_justified {s : Ledger} (h : s.Tracks) (v : Visit) : s.VisitJustified v := by
  rcases verifyEntry_cases v.settings v.tree v.moment s.row (s.found v).row with
    ⟨hchecked, hrow⟩ | hrow | ⟨hread, hrow⟩
  · have hverdict : s.verdict v = _ := hrow
    refine ⟨fun hstale => .inl ?_, fun hverified => .inl ?_, fun hsome hunknown => ?_,
      fun hne => absurd hchecked hne, ?_⟩
    · simp only [visit, hverdict, EntryRow.update] at hstale ⊢
      obtain ⟨hnil, hall⟩ := persistent_of_stale hstale
      have hjudged := found_judged h hchecked
      refine ⟨fun hzip => ?_, fun history hhistory => ?_⟩
      · rcases List.zipWith_eq_nil_iff.mp hzip with hjudge | hhist
        · exact hnil hjudge
        · rw [hhist] at hjudged
          exact hnil (List.forall₂_nil_right_iff.mp hjudged)
      · obtain ⟨j, hj, old, hold, rfl⟩ := mem_zipWith_forall₂ hjudged history hhistory
        obtain ⟨hseen, failed, hfailed, hlt⟩ := hall j hj
        exact persistent_of_fold hold hseen hfailed hlt
    · simp only [visit, hverdict, EntryRow.update] at hverified
      exact passed_of_verified hverified
    · have hnot := verifyEntry_unverifiable (s.found v).row
        (unverifiable_of_unknown v.settings v.moment hsome hunknown) hsome
      rw [hrow] at hnot
      cases congrArg Prod.snd hnot
    · simp only [visit, hverdict, EntryRow.update]
  · have hverdict : s.verdict v = _ := hrow
    refine ⟨fun hstale => .inr ?_, fun hverified => .inr ?_, fun hsome hunknown => ?_,
      fun _ => ?_, ?_⟩
    · simpa only [visit, hverdict, true_and] using hstale
    · simpa only [visit, hverdict, true_and] using hverified
    · have hnot := verifyEntry_unverifiable (s.found v).row
        (unverifiable_of_unknown v.settings v.moment hsome hunknown) hsome
      rw [visit, verdict, hnot, if_neg Bool.false_ne_true]
    · simp only [visit, hverdict]
    · simp only [visit, hverdict]
  · have hverdict : s.verdict v = _ := hrow
    refine ⟨fun hstale => ?_, fun hverified => ?_, fun hsome _ => ?_, fun _ => ?_, ?_⟩
    · simp only [visit, hverdict] at hstale
      cases hstale
    · simp only [visit, hverdict] at hverified
      cases hverified
    · rw [visit, hverdict, if_neg Bool.false_ne_true, hread, if_pos rfl]
    · simp only [visit, hverdict]
    · simp only [visit, hverdict]

end Ledger

/-- In every state of every run each stored `first_failed_at` is the first failure of the
current streak of the results written for its assertion, and every visit is justified. -/
theorem verdicts_justified (row : EntryRow) (events : List Event) :
    ((Ledger.start row).run events).Tracks ∧
      ∀ v, ((Ledger.start row).run events).VisitJustified v := by
  have htracks := Ledger.run_tracks (Ledger.start_tracks row) events
  exact ⟨htracks, Ledger.visit_justified htracks⟩

/-- A checkout in which every assertion has the same result. -/
def uniformTree (passed : Option Bool) : Tree where
  rooted := true
  claimTree := none
  verify assertions := assertions.map fun a => result a passed ""
  verify_length assertions := List.length_map _
  score _ := none

def defaultSettings : VerifySettings where
  assertionFailurePenalty := 3 / 20
  assertionStaleThresholdDays := 30
  anchorValidityVerifiedFloor := 1
  penalty_range := by norm_num
  floor_range := by norm_num
  days_pos := by norm_num

/-- An unverified entry with one assertion. -/
def freshEntry : EntryRow where
  id := "e"
  owner := "default"
  assertions := [⟨⟨.grepAbsent, "x", "a"⟩, none, none, "", none, none, none, none⟩]
  anchors := []
  verificationStatus := none
  verificationCheckedAt := none
  anchorValidity := 1

/-- An edit that adds an anchor and leaves the assertions as they are. -/
def anchorEdit : Edit := ⟨[.kept 0], [⟨"a", "f", "function", "", none⟩], none, none, 1⟩

def visitOn (day : Int) (passed : Bool) (edits : List Edit) : Visit :=
  ⟨defaultSettings, uniformTree (some passed), day * 86400000000, edits⟩

/-- The assertion fails on day 1, passes on day 20 while an edit of the anchors overtakes the
visit, and fails on day 40: the entry goes stale, with day 1 as the first failure. -/
theorem overtaken_pass_goes_stale :
    let before := (Ledger.start freshEntry).run [.visit (visitOn 1 false [])]
    let last := before.run [.visit (visitOn 20 true [anchorEdit]), .visit (visitOn 40 false [])]
    (before.judged (visitOn 20 true [anchorEdit])).map Judged.seen = [.passed] ∧
      last.row.verificationStatus = some .stale ∧
      last.row.assertions.map StoredAssertion.firstFailedAt = [some 86400000000] := by
  decide

end TrwMemory.Lifecycle.Verification

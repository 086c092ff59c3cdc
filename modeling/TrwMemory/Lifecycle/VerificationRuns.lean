import Mathlib.Data.List.TakeWhile
import TrwMemory.Lifecycle.GrepVerdicts
import TrwMemory.Lifecycle.VerificationPass

/-!
Verification passes and edits of one entry over whole runs. Each stored assertion is followed
with the results that were written for it; the stored `first_failed_at` is the first failure
since the last pass or hold among them, and the verdicts rest on that. A visit whose verdict
an edit has overtaken writes nothing, and its results are not among them.
-/
namespace TrwMemory.Lifecycle.Verification

/-- What a visit sees of an assertion. -/
inductive Seen where
  | passed
  | failed
  | unknown
  | held
  deriving DecidableEq

/-- A pass or a hold ends a streak of failures. -/
def Seen.breaks : Seen → Bool
  | .passed | .held => true
  | .failed | .unknown => false

def Judged.seen (judged : Judged) : Seen :=
  if judged.held then .held
  else
    match judged.result.passed with
    | none => .unknown
    | some true => .passed
    | some false => .failed

/-- The results written for an assertion, the newest first. -/
abbrev History := List (Int × Seen)

namespace History

/-- The results since the last pass or hold. -/
def streak (history : History) : History := history.takeWhile fun event => !event.2.breaks

/-- The first failure of the current streak. -/
def firstFailure (history : History) : Option Int :=
  (history.streak.filter fun event => event.2 == .failed).getLast?.map Prod.fst

/-- The last visit failed, and so did one before the threshold, with no pass or hold since. -/
def Persistent (moment threshold : Int) (history : History) : Prop :=
  history.head? = some (moment, .failed) ∧
    ∃ since failed before, history = since ++ (failed, .failed) :: before ∧
      failed < threshold ∧ ∀ event ∈ since, event.2.breaks = false

theorem streak_cons_breaks {event : Int × Seen} (h : event.2.breaks = true)
    (history : History) : streak (event :: history) = [] := by
  simp [streak, h]

theorem streak_cons_goes_on {event : Int × Seen} (h : event.2.breaks = false)
    (history : History) : streak (event :: history) = event :: streak history := by
  simp [streak, h]

theorem firstFailure_breaks {event : Int × Seen} (h : event.2.breaks = true)
    (history : History) : firstFailure (event :: history) = none := by
  rw [firstFailure, streak_cons_breaks h]
  rfl

theorem firstFailure_unknown (moment : Int) (history : History) :
    firstFailure ((moment, .unknown) :: history) = firstFailure history := by
  rw [firstFailure, streak_cons_goes_on rfl]
  rfl

theorem firstFailure_failed (moment : Int) (history : History) :
    firstFailure ((moment, .failed) :: history) =
      some ((firstFailure history).getD moment) := by
  rw [firstFailure, streak_cons_goes_on rfl, firstFailure, List.filter_cons_of_pos rfl]
  cases hlast : (history.streak.filter fun event => event.2 == .failed).getLast? with
  | none => rw [List.getLast?_eq_none_iff.mp hlast]; rfl
  | some event => rw [List.getLast?_cons, hlast]; rfl

/-- The first failure of the current streak, with what came since. -/
theorem firstFailure_split {history : History} {failed : Int}
    (h : history.firstFailure = some failed) :
    ∃ since before, history = since ++ (failed, .failed) :: before ∧
      ∀ event ∈ since, event.2.breaks = false := by
  obtain ⟨⟨moment, seen⟩, hlast, rfl⟩ := Option.map_eq_some_iff.mp h
  obtain ⟨hstreak, hseen⟩ := List.mem_filter.mp (List.mem_of_getLast? hlast)
  obtain rfl : seen = .failed := beq_iff_eq.mp hseen
  obtain ⟨since, later, hsplit⟩ := List.append_of_mem hstreak
  refine ⟨since, later ++ history.dropWhile fun event => !event.2.breaks, ?_, ?_⟩
  · have hparts := List.takeWhile_append_dropWhile
      (p := fun event : Int × Seen => !event.2.breaks) (l := history)
    rw [← hparts]
    change history.streak ++ _ = _
    rw [hsplit]
    simp
  · intro event hevent
    have hmem : event ∈ history.streak := hsplit ▸ List.mem_append_left _ hevent
    simpa using List.mem_takeWhile_imp hmem

end History

/-- An assertion that an edit writes carries the failure it is written with. -/
def StoredAssertion.declared (a : StoredAssertion) : History :=
  match a.firstFailedAt with
  | none => []
  | some failed => [(failed, .failed)]

theorem firstFailure_declared (a : StoredAssertion) :
    a.declared.firstFailure = a.firstFailedAt := by
  unfold StoredAssertion.declared
  cases a.firstFailedAt with
  | none => rfl
  | some failed => rfl

/-- The fold keeps `first_failed_at` at the first failure of the streak. -/
theorem fold_firstFailedAt (moment : Int) (judged : Judged) {history : History}
    (h : judged.assertion.firstFailedAt = history.firstFailure) :
    (judged.fold moment).firstFailedAt =
      History.firstFailure ((moment, judged.seen) :: history) := by
  cases hheld : judged.held with
  | true =>
      simp only [Judged.fold, Judged.seen, hheld, if_true]
      exact (History.firstFailure_breaks rfl history).symm
  | false =>
      cases hpassed : judged.result.passed with
      | none =>
          simp only [Judged.fold, Judged.seen, hheld, hpassed, Bool.false_eq_true, if_false]
          rw [h, History.firstFailure_unknown]
      | some passed =>
          cases passed with
          | true =>
              simp only [Judged.fold, Judged.seen, hheld, hpassed, Bool.false_eq_true, if_false,
                if_true]
              exact (History.firstFailure_breaks rfl history).symm
          | false =>
              simp only [Judged.fold, Judged.seen, hheld, hpassed, Bool.false_eq_true, if_false]
              rw [h, History.firstFailure_failed]

/-- The entry's row, and for each of its assertions the results written for it. -/
structure Ledger where
  row : EntryRow
  histories : List History

/-- An assertion of an edited list: the one at a place of the list before, or a new one. -/
inductive Slot where
  | kept (index : Nat)
  | written (assertion : StoredAssertion)

/-- An edit of the entry. -/
structure Edit where
  assertions : List Slot
  anchors : List Anchor
  verificationStatus : Option VerificationStatus
  verificationCheckedAt : Option Int
  anchorValidity : Rat

/-- A visit of a sweep, with the edits between its read and its write. -/
structure Visit where
  settings : VerifySettings
  tree : Tree
  moment : Int
  edits : List Edit

inductive Event where
  | edit (edit : Edit)
  | visit (visit : Visit)

namespace Ledger

def start (row : EntryRow) : Ledger := ⟨row, row.assertions.map StoredAssertion.declared⟩

def slot (s : Ledger) : Slot → Option (StoredAssertion × History)
  | .kept index => (s.row.assertions.zip s.histories)[index]?
  | .written a => some (a, a.declared)

def edit (s : Ledger) (e : Edit) : Ledger :=
  let tracked := e.assertions.filterMap s.slot
  { row := { s.row with
      assertions := tracked.map Prod.fst
      anchors := e.anchors
      verificationStatus := e.verificationStatus
      verificationCheckedAt := e.verificationCheckedAt
      anchorValidity := e.anchorValidity }
    histories := tracked.map Prod.snd }

/-- The entry as a visit finds it when it writes. -/
def found (s : Ledger) (v : Visit) : Ledger := v.edits.foldl edit s

/-- The row after a visit that has read `s`, and whether its verdict was written. -/
def verdict (s : Ledger) (v : Visit) : EntryRow × Bool :=
  verifyEntry v.settings v.tree v.moment s.row (s.found v).row

/-- What the visit sees of the assertions it has read. -/
def judged (s : Ledger) (v : Visit) : List Judged := judgeAll v.tree s.row.assertions

def visit (s : Ledger) (v : Visit) : Ledger :=
  { row := (s.verdict v).1
    histories := if (s.verdict v).2 then
        List.zipWith (fun j history => (v.moment, j.seen) :: history) (s.judged v)
          (s.found v).histories
      else (s.found v).histories }

def step (s : Ledger) : Event → Ledger
  | .edit e => s.edit e
  | .visit v => s.visit v

def run (s : Ledger) (events : List Event) : Ledger := events.foldl step s

/-- Every stored `first_failed_at` is the first failure of its assertion's streak. -/
def Tracks (s : Ledger) : Prop :=
  List.Forall₂ (fun a history => a.firstFailedAt = History.firstFailure history)
    s.row.assertions s.histories

end Ledger

/-- What a pass sees of a project root. -/
def treeOf (package : RegexPackage) (digit : Char → Option Nat) (clock : Clock) (depth : Nat)
    (root : ProjectRoot) (claimTree : Option ClaimTree) (score : List Anchor → Option Rat) :
    Tree where
  rooted := true
  claimTree
  verify assertions := verifyAssertions package digit clock depth assertions root none
  verify_length assertions :=
    verifyAssertions_length package digit clock depth assertions root none
  score

section Pass

variable {settings : VerifySettings} {tree : Tree} {moment : Int} {row : EntryRow}

theorem judge_assertions (assertions : List StoredAssertion) (evaluated : List AssertionResult)
    (h : evaluated.length = (assertions.filter fun a => !isHeld tree a).length) :
    (judge tree assertions evaluated).map Judged.assertion = assertions := by
  induction assertions generalizing evaluated with
  | nil => rfl
  | cons a assertions ih =>
      cases hheld : isHeld tree a with
      | true =>
          simp only [hheld, Bool.not_true, Bool.false_eq_true, not_false_eq_true,
            List.filter_cons_of_neg] at h
          simp only [judge, hheld, if_true, List.map_cons]
          rw [ih evaluated h]
      | false =>
          simp only [hheld, Bool.not_false, List.filter_cons_of_pos, List.length_cons] at h
          cases evaluated with
          | nil => cases h
          | cons r evaluated =>
              simp only [judge, hheld, Bool.false_eq_true, if_false, List.map_cons]
              rw [ih evaluated (Nat.succ.inj h)]

/-- Every assertion is judged, in its place. -/
theorem judgeAll_assertions (tree : Tree) (assertions : List StoredAssertion) :
    (judgeAll tree assertions).map Judged.assertion = assertions :=
  judge_assertions assertions _ ((tree.verify_length _).trans (List.length_map _))

theorem judgeAll_eq_nil (tree : Tree) (assertions : List StoredAssertion) :
    judgeAll tree assertions = [] ↔ assertions = [] := by
  rw [← List.map_eq_nil_iff (f := Judged.assertion), judgeAll_assertions]

/-- Apart from the verdict and its moment an outcome stays as it was. -/
theorem applyVerdict_rest (outcome : VerificationOutcome) :
    (applyVerdict settings moment outcome).updatedAssertions = outcome.updatedAssertions ∧
      (applyVerdict settings moment outcome).verifiable = outcome.verifiable := by
  unfold applyVerdict
  split
  · exact ⟨rfl, rfl⟩
  · split
    · exact ⟨rfl, rfl⟩
    · split <;> exact ⟨rfl, rfl⟩

theorem runVerificationPass_updated :
    (runVerificationPass settings tree moment row).updatedAssertions =
      (judgeAll tree row.assertions).map (Judged.fold moment) := by
  rw [runVerificationPass, (applyVerdict_rest _).1]
  split
  · rename_i hnil
    rw [(judgeAll_eq_nil _ _).mpr hnil]
    rfl
  · rfl

/-- A stale verdict was computed before the anchors are looked at. -/
theorem applyVerdict_stale {outcome : VerificationOutcome}
    (h : (applyVerdict settings moment outcome).verificationStatus = some .stale) :
    outcome.verificationStatus = some .stale := by
  unfold applyVerdict at h
  split at h
  · exact h
  · split at h
    · assumption
    · split at h
      · cases h
      · exact h

theorem applyVerdict_verified {outcome : VerificationOutcome}
    (hnone : outcome.verificationStatus ≠ some .verified)
    (h : (applyVerdict settings moment outcome).verificationStatus = some .verified) :
    ¬ (outcome.passing + outcome.failing = 0 ∧ outcome.anchorValidity = none) ∧
      outcome.failing = 0 ∧ outcome.stale = 0 ∧
        anchorsClean settings outcome.anchorValidity = true := by
  unfold applyVerdict at h
  split at h
  · exact absurd h hnone
  · rename_i hexamined
    split at h
    · exact absurd h hnone
    · split at h
      · rename_i hclean
        exact ⟨hexamined, hclean⟩
      · exact absurd h hnone

theorem seen_of_not_passed {judged : Judged}
    (hheld : judged.held = true → judged.result.passed = none)
    (hfailed : judged.isPassed (some false) = false) (hnone : judged.isPassed none = false) :
    judged.seen = .passed := by
  have hlive : judged.held = false := by
    cases h : judged.held with
    | false => rfl
    | true =>
        rw [Judged.isPassed, hheld h] at hnone
        cases hnone
  cases hpassed : judged.result.passed with
  | none =>
      rw [Judged.isPassed, hpassed] at hnone
      cases hnone
  | some passed =>
      cases passed with
      | true => simp [Judged.seen, hlive, hpassed]
      | false =>
          rw [Judged.isPassed, hpassed] at hfailed
          cases hfailed

theorem judge_held (assertions : List StoredAssertion) (evaluated : List AssertionResult) :
    ∀ j ∈ judge tree assertions evaluated, j.held = true → j.result.passed = none := by
  induction assertions generalizing evaluated with
  | nil => exact fun j hj => nomatch hj
  | cons a assertions ih =>
      intro j hj hheld
      simp only [judge] at hj
      split at hj
      · rcases List.mem_cons.mp hj with rfl | hj
        · rfl
        · exact ih evaluated j hj hheld
      · split at hj
        · cases hj
        · rcases List.mem_cons.mp hj with rfl | hj
          · cases hheld
          · exact ih _ j hj hheld

end Pass

end TrwMemory.Lifecycle.Verification

import Mathlib.Algebra.Order.Ring.Rat
import TrwMemory.Lifecycle.Verification

/-!
The verification pass over one entry and the write of its verdict
(`lifecycle/verification_pass.py`). What a pass sees of the checkout is a parameter: the
results of the assertions, the commits the checkout is behind, and the recomputed anchor
score. Moments are whole microseconds, scores are exact. A write that raises, the drift check
after it and the counters of a sweep are not modelled.
-/
namespace TrwMemory.Lifecycle.Verification

/-- An assertion as an entry stores it. -/
structure StoredAssertion extends Assertion where
  lastResult : Option Bool
  lastVerifiedAt : Option Int
  lastEvidence : String
  firstFailedAt : Option Int
  commitHash : Option String
  lineRange : Option (Int × Int)
  gitUrl : Option String
  deriving DecidableEq

structure Anchor where
  file : String
  symbolName : String
  symbolType : String
  signature : String
  lineRange : Option (Int × Int)
  deriving DecidableEq

inductive VerificationStatus where
  | verified
  | stale
  deriving DecidableEq

/-- What the verification reads and writes of an entry's row. -/
structure EntryRow where
  id : String
  owner : String
  assertions : List StoredAssertion
  anchors : List Anchor
  verificationStatus : Option VerificationStatus
  verificationCheckedAt : Option Int
  anchorValidity : Rat

/-- `ClaimTree`: HEAD, and the commits the checkout is strictly behind. -/
structure ClaimTree where
  head : Option String
  behind : Option String → Bool

/-- What a pass sees: `verify_assertions` and `compute_anchor_validity` under the root, if there
is one. An anchor score that could not be computed is `none`. -/
structure Tree where
  rooted : Bool
  claimTree : Option ClaimTree
  verify : List Assertion → List AssertionResult
  verify_length : ∀ assertions, (verify assertions).length = assertions.length
  score : List Anchor → Option Rat

/-- `VerifySettings`, without the page size of a sweep. -/
structure VerifySettings where
  assertionFailurePenalty : Rat
  assertionStaleThresholdDays : Int
  anchorValidityVerifiedFloor : Rat
  penalty_range : 0 ≤ assertionFailurePenalty ∧ assertionFailurePenalty ≤ 1
  floor_range : 0 ≤ anchorValidityVerifiedFloor ∧ anchorValidityVerifiedFloor ≤ 1
  days_pos : 1 ≤ assertionStaleThresholdDays

/-- `moment - timedelta(days=assertion_stale_threshold_days)`. -/
def VerifySettings.staleThreshold (settings : VerifySettings) (moment : Int) : Int :=
  moment - settings.assertionStaleThresholdDays * 86400000000

/-- `VerificationOutcome`. -/
structure VerificationOutcome where
  entryId : String
  owner : String
  updatedAssertions : List StoredAssertion
  details : List (String × AssertionResult)
  passing : Nat
  failing : Nat
  stale : Nat
  penalty : Rat
  verificationStatus : Option VerificationStatus
  checkedAt : Option Int
  anchorValidity : Option Rat
  verifiable : Bool
  treeBehind : Bool

/-- An assertion with its result, and whether it was held. -/
structure Judged where
  assertion : StoredAssertion
  held : Bool
  result : AssertionResult

section Pass

variable (tree : Tree)

def isHeld (assertion : StoredAssertion) : Bool :=
  match tree.claimTree with
  | none => false
  | some claimTree => tree.rooted && claimTree.behind assertion.commitHash

def reverifyAnchors (anchors : List Anchor) : Option Rat :=
  if anchors = [] ∨ tree.rooted = false then none else tree.score anchors

def heldEvidence (commitHash : Option String) : String :=
  let head := (tree.claimTree.bind ClaimTree.head).getD ""
  let commit := commitHash.getD ""
  s!"checkout HEAD {head.take 12} is an ancestor of {commit.take 12}, " ++
    "the commit this assertion was written at; this tree cannot contain the claim's state"

/-- The held assertions get their own result, the others the next one evaluated. -/
def judge : List StoredAssertion → List AssertionResult → List Judged
  | [], _ => []
  | a :: rest, evaluated =>
      if isHeld tree a then
        ⟨a, true, result a.toAssertion none (heldEvidence tree a.commitHash)⟩ ::
          judge rest evaluated
      else
        match evaluated with
        | [] => []
        | r :: evaluated => ⟨a, false, r⟩ :: judge rest evaluated

def judgeAll (assertions : List StoredAssertion) : List Judged :=
  judge tree assertions (tree.verify
    ((assertions.filter fun a => !isHeld tree a).map StoredAssertion.toAssertion))

end Pass

/-- The result folded back into the stored assertion. -/
def Judged.fold (moment : Int) (judged : Judged) : StoredAssertion :=
  let a := judged.assertion
  if judged.held then
    { a with
      lastResult := none
      lastVerifiedAt := some moment
      lastEvidence := judged.result.evidence
      firstFailedAt := none }
  else
    match judged.result.passed with
    | none => a
    | some passed =>
        { a with
          lastResult := some passed
          lastVerifiedAt := some moment
          lastEvidence := judged.result.evidence
          firstFailedAt := if passed then none else some (a.firstFailedAt.getD moment) }

def Judged.isPassed (judged : Judged) (passed : Option Bool) : Bool :=
  judged.result.passed == passed

/-- Any anchor score that was recomputed meets the floor. -/
def anchorsClean (settings : VerifySettings) (anchorValidity : Option Rat) : Bool :=
  anchorValidity.all fun score => decide (settings.anchorValidityVerifiedFloor ≤ score)

/-- `_apply_verdict`. -/
def applyVerdict (settings : VerifySettings) (moment : Int) (outcome : VerificationOutcome) :
    VerificationOutcome :=
  if outcome.passing + outcome.failing = 0 ∧ outcome.anchorValidity = none then outcome
  else if outcome.verificationStatus = some .stale then
    { outcome with checkedAt := some moment }
  else if outcome.failing = 0 ∧ outcome.stale = 0 ∧
      anchorsClean settings outcome.anchorValidity then
    { outcome with checkedAt := some moment, verificationStatus := some .verified }
  else { outcome with checkedAt := some moment }

/-- `first_failed_at` is known and lies before the staleness threshold. -/
def failedBefore (threshold : Int) (a : StoredAssertion) : Bool :=
  a.firstFailedAt.any fun failed => decide (failed < threshold)

section Pass

variable (settings : VerifySettings) (tree : Tree) (moment : Int)

/-- The anchors are not scored by a tree that is behind a claim of the entry. -/
def passAnchors (row : EntryRow) : Option Rat :=
  if row.assertions.any (isHeld tree) then none else reverifyAnchors tree row.anchors

/-- An entry without assertions, before the verdict. -/
def anchorsOutcome (row : EntryRow) : VerificationOutcome :=
  { entryId := row.id
    owner := row.owner
    updatedAssertions := []
    details := []
    passing := 0
    failing := 0
    stale := 0
    penalty := 0
    verificationStatus := none
    checkedAt := none
    anchorValidity := passAnchors tree row
    verifiable := (passAnchors tree row).isSome
    treeBehind := row.assertions.any (isHeld tree) }

/-- Every assertion fails now, and has since before the threshold. -/
def isPersistent (judged : List Judged) : Bool :=
  let updated := judged.map (Judged.fold moment)
  decide (judged ≠ []) && judged.all (·.isPassed (some false)) &&
    (decide (updated ≠ []) && updated.all (failedBefore (settings.staleThreshold moment)))

/-- An entry with assertions, before the verdict. -/
def assertionsOutcome (row : EntryRow) : VerificationOutcome :=
  let judged := judgeAll tree row.assertions
  let failing := judged.countP (·.isPassed (some false))
  { entryId := row.id
    owner := row.owner
    updatedAssertions := judged.map (Judged.fold moment)
    details := judged.zipIdx.map fun (j, index) => (s!"{row.id}:{index + 1}", j.result)
    passing := judged.countP (·.isPassed (some true))
    failing
    stale := judged.countP (·.isPassed none)
    penalty := if 0 < failing then
        settings.assertionFailurePenalty * ((failing : Rat) / (judged.length : Rat))
      else 0
    verificationStatus := if isPersistent settings moment judged then some .stale else none
    checkedAt := none
    anchorValidity := passAnchors tree row
    verifiable := row.assertions.any (isHeld tree) ||
      judged.any fun j => j.result.passed.isSome
    treeBehind := row.assertions.any (isHeld tree) }

def runVerificationPass (row : EntryRow) : VerificationOutcome :=
  applyVerdict settings moment
    (if row.assertions = [] then anchorsOutcome tree row
      else assertionsOutcome settings tree moment row)

end Pass

/-- `backend.update(…, **outcome.update_fields())`. -/
def EntryRow.update (row : EntryRow) (outcome : VerificationOutcome) : EntryRow :=
  { row with
    assertions := outcome.updatedAssertions
    verificationStatus := outcome.verificationStatus
    anchorValidity := outcome.anchorValidity.getD row.anchorValidity
    verificationCheckedAt := outcome.checkedAt.or row.verificationCheckedAt }

/-- `_checked`. -/
def EntryRow.checked (row : EntryRow) : List StoredAssertion × List Anchor :=
  (row.assertions, row.anchors)

/-- `persist_verification_outcome` in its transaction: `read` is the row the outcome was
computed from, `current` the one found now. Whether the write landed comes with the row. -/
def persistVerificationOutcome (outcome : VerificationOutcome) (read current : EntryRow) :
    EntryRow × Bool :=
  if outcome.verifiable = false then (current, false)
  else if current.checked ≠ read.checked then (current, false)
  else (current.update outcome, true)

/-- `_verify_entry` on the row as it was read, with the row as it is found at the write. -/
def verifyEntry (settings : VerifySettings) (tree : Tree) (moment : Int)
    (read current : EntryRow) : EntryRow × Bool :=
  if read.assertions = [] ∧ read.anchors = [] then (current, false)
  else
    let outcome := runVerificationPass settings tree moment read
    let current :=
      if outcome.verifiable = false ∧ read.verificationStatus = some .verified then
        { current with verificationStatus := none }
      else current
    persistVerificationOutcome outcome read current

end TrwMemory.Lifecycle.Verification

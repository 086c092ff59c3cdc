import Mathlib.Algebra.Order.Ring.Rat
import TrwMemory.Library.OrderedDict
import TrwMemory.Library.PriorityFill
import TrwMemory.Library.StableSort
import TrwMemory.Retrieval.ValidityPrior

/-!
Source families and the policy over them (`retrieval/source_policy.py`): which results a recall
admits, in which bucket they rank, and the weight of distilled ones.

How a policy is resolved from the caller's options and the environment is left out.

One recall's policy and how it fills its pool (`RecallInvocation`,
`retrieval/recall_selection.py`). The pool is filled from four groups at most: the eligible entries
before the others, and in each the durable ones before the transient ones.

The query that an acquisition runs is a parameter. A recall's remote results are left out.
-/
namespace TrwMemory.Retrieval

open Library Storage

inductive SourceFamily where
  | gitDistilled | instructionRule | semanticMemory | lifecycle | episodic | unknown
  deriving DecidableEq, Repr

def SourceFamily.value : SourceFamily → String
  | .gitDistilled => "git_distilled"
  | .instructionRule => "instruction_rule"
  | .semanticMemory => "semantic_memory"
  | .lifecycle => "lifecycle"
  | .episodic => "episodic"
  | .unknown => "unknown"

/-- `_TRANSIENT_SOURCE_FAMILIES`. -/
def SourceFamily.isTransient (family : SourceFamily) : Bool :=
  family == .lifecycle || family == .episodic

/-- The family that a `source_kind` names. -/
def familyOfKind (kind : String) : Option SourceFamily :=
  if kind = "git" then some .gitDistilled
  else if kind = "instruction_rule" then some .instructionRule
  else if kind = "semantic_memory" then some .semanticMemory
  else if kind = "lifecycle" then some .lifecycle
  else if kind = "episodic" then some .episodic
  else none

/-- `text.startswith(part)`. -/
def startsWith (text part : String) : Bool := part.toList.isPrefixOf text.toList

def familyOfTag (tag : String) : Option SourceFamily :=
  let named :=
    if startsWith tag "source_kind:" then
      familyOfKind (String.ofList (tag.toList.drop "source_kind:".length))
    else none
  named.or <|
    if startsWith tag "distill:" || startsWith tag "distilled:" then some .gitDistilled
    else if tag = "change_bulletin" then some .lifecycle
    else none

def classifySourceFamily (metadata : Metadata) (tags : List String) : SourceFamily :=
  match familyOfKind (pyStrip ((metadata.lookup "source_kind").getD "")) with
  | some family => family
  | none =>
      let source := pyStrip ((metadata.lookup "source").getD "")
      if startsWith source "distilled:git:" then .gitDistilled
      else if startsWith source "distilled:bulletin:" then .lifecycle
      else (tags.findSome? familyOfTag).getD .unknown

/-- `entry_policy_fields`. -/
structure PolicyFields where
  metadata : Metadata
  tags : List String
  expires : String
  importance : Rat
  source : String
  score : Rat

def entryPolicyFields (entry : MemoryEntry) (source : String) (score : Rat) : PolicyFields where
  metadata := entry.metadata
  tags := entry.tags
  expires := entry.expires
  importance := entry.importance
  source
  score

def resolveExpiry (result : PolicyFields) : String :=
  if result.expires ≠ "" then result.expires else (result.metadata.lookup "expires").getD ""

structure SourcePolicy where
  includeDistilled : Bool
  includeKinds : List String
  excludeKinds : List String
  weights : List (String × Rat)
  explicitWeightOverrides : List String
  excludeExpired : Bool
  referenceTime : Datetime

namespace SourcePolicy

variable (policy : SourcePolicy) (result : PolicyFields)

/-- `weights.get(family, 1.0)`. -/
def weightOf (family : SourceFamily) : Rat := (Dict.get policy.weights family.value).getD 1

def allows (py : Python) (dateFromisoformat : String → Option Int) : Except PyError Bool :=
  let family := classifySourceFamily result.metadata result.tags
  if family = .gitDistilled ∧ ¬ policy.includeDistilled then .ok false
  else if policy.includeKinds ≠ [] ∧ family.value ∉ policy.includeKinds then .ok false
  else if family.value ∈ policy.excludeKinds then .ok false
  else if policy.excludeExpired ∧ family.isTransient then do
    match ← expiryHasPassed py dateFromisoformat (resolveExpiry result) policy.referenceTime with
    | true => .ok false
    | false => .ok !(decide (policy.weightOf family ≤ 0))
  else .ok !(decide (policy.weightOf family ≤ 0))

def bucket : Nat :=
  let family := classifySourceFamily result.metadata result.tags
  if family.isTransient ∧ family.value ∉ policy.explicitWeightOverrides then 2
  else if result.source = "org" ∨ result.source = "shared" then 1
  else 0

end SourcePolicy

def isDistilled (entry : MemoryEntry) : Bool :=
  classifySourceFamily entry.metadata entry.tags == .gitDistilled

/-- A row's score, multiplied where its entry is distilled, and whether it was. -/
def weightRow (weight : Rat) (row : MemoryEntry × Rat) : MemoryEntry × Rat × Bool :=
  if isDistilled row.1 then (row.1, row.2 * weight, true) else (row.1, row.2, false)

def weightDistilled (entries : List MemoryEntry) (scores : List Rat) (weight : Rat) :
    Except PyError (List (MemoryEntry × Rat × Bool)) :=
  if entries.length = scores.length then
    .ok (sortDesc (fun row => row.2.1) ((entries.zip scores).map (weightRow weight)))
  else .error .value

theorem weightRow_plain {weight : Rat} {row : MemoryEntry × Rat} (h : isDistilled row.1 = false) :
    weightRow weight row = (row.1, row.2, false) :=
  if_neg (by rw [h]; exact Bool.false_ne_true)

theorem weightRow_flag (weight : Rat) (row : MemoryEntry × Rat) :
    (weightRow weight row).2.2 = isDistilled row.1 := by
  rw [weightRow]
  split
  · rename_i h
    exact h.symm
  · rename_i h
    exact (Bool.eq_false_iff.mpr h).symm

theorem weightRow_entry (weight : Rat) (row : MemoryEntry × Rat) :
    (weightRow weight row).1 = row.1 := by
  rw [weightRow]
  split <;> rfl

/-- The rows that are not distilled, with the scores they were given. -/
def plainRows (entries : List MemoryEntry) (scores : List Rat) : List (MemoryEntry × Rat) :=
  (entries.zip scores).filter fun row => !isDistilled row.1

/-- The rows that are not distilled are sorted among themselves by the scores they were given. -/
theorem plain_weightDistilled {entries : List MemoryEntry} {scores : List Rat} {weight : Rat}
    {rows : List (MemoryEntry × Rat × Bool)}
    (h : weightDistilled entries scores weight = .ok rows) :
    rows.filter (fun row => !row.2.2) =
      sortDesc (fun row => row.2.1)
        ((plainRows entries scores).map fun row => (row.1, row.2, false)) := by
  rw [weightDistilled] at h
  split at h
  · cases h
    rw [filter_sortDesc, List.filter_map]
    have hflag : (fun row : MemoryEntry × Rat × Bool => !row.2.2) ∘ weightRow weight =
        fun row => !isDistilled row.1 := funext fun row => congrArg (!·) (weightRow_flag weight row)
    rw [hflag, plainRows]
    refine congrArg _ (List.map_congr_left fun row hrow => weightRow_plain ?_)
    simpa using (List.mem_filter.mp hrow).2
  · cases h

/-- Where their scores come in order, the rows that are not distilled keep it. -/
theorem weightDistilled_keeps_plain {entries : List MemoryEntry} {scores : List Rat} {weight : Rat}
    {rows : List (MemoryEntry × Rat × Bool)} (h : weightDistilled entries scores weight = .ok rows)
    (hsorted : (plainRows entries scores).Pairwise fun a b => b.2 ≤ a.2) :
    (rows.filter fun row => !row.2.2).map (fun row => (row.1, row.2.1)) =
      plainRows entries scores := by
  have hrows : ((plainRows entries scores).map fun row => (row.1, row.2, false)).Pairwise
      fun a b => b.2.1 ≤ a.2.1 := List.pairwise_map.mpr hsorted
  rw [plain_weightDistilled h, sortDesc_of_sorted hrows, List.map_map]
  exact List.map_id _

inductive RecallError where
  | outsideNamespace
  | raised (error : PyError)
  deriving DecidableEq, Repr

/-- `conf < confidence_floor`. -/
def belowFloor (floor : Rat) : PyFloat → Bool
  | .finite x => x < floor
  | .negInf => true
  | .inf | .nan => false

structure RecallInvocation where
  source : SourcePolicy
  temporal : TemporalSelection
  ns : String
  tags : List String
  types : List MemoryType
  confidenceFloor : Option Rat
  excludeHistoricalOnly : Bool

/-- A group of the acquisition. -/
structure AcquireGroup where
  eligible : Bool
  bucket : Nat
  deriving DecidableEq, Repr

namespace RecallInvocation

variable (py : Python) (dateFromisoformat : String → Option Int) (invocation : RecallInvocation)

/-- `apply_admission_filter` of one result keeps it. -/
def admits (fields : PolicyFields) : Bool :=
  if invocation.excludeHistoricalOnly &&
      fields.metadata.lookup "currentness_status" == some "historical_only" then false
  else
    match invocation.confidenceFloor with
    | none => true
    | some floor =>
        match fields.metadata.lookup "confidence" with
        | some raw => !belowFloor floor ((py.float raw).getD (.finite 0))
        | none => !belowFloor floor (.finite fields.importance)

/-- The checks of `allows_entry` before the source policy's. -/
def inScope (entry : MemoryEntry) : Bool :=
  entry.status == .active &&
    !(invocation.temporal.excludeSystemCanaries && isSystemCanary entry.metadata) &&
    invocation.tags.all (entry.tags.contains ·) &&
    (invocation.types.isEmpty || invocation.types.contains entry.type)

def allowsEntry (entry : MemoryEntry) : Except RecallError Bool :=
  if entry.ns ≠ invocation.ns then .error .outsideNamespace
  else if invocation.inScope entry then
    match invocation.source.allows (entryPolicyFields entry "local" 0) py dateFromisoformat with
    | .error error => .error (.raised error)
    | .ok allowed => .ok (allowed && invocation.admits py (entryPolicyFields entry "local" 0))
  else .ok false

def eligibleEntry (entry : MemoryEntry) : Except PyError Bool :=
  invocation.temporal.eligible py dateFromisoformat (windowOf entry)

def localBucket (entry : MemoryEntry) : Nat :=
  invocation.source.bucket (entryPolicyFields entry "local" 0)

/-- `accepts`. -/
def accepts (group : AcquireGroup) (entry : MemoryEntry) : Except RecallError Bool :=
  match invocation.allowsEntry py dateFromisoformat entry with
  | .error error => .error error
  | .ok false => .ok false
  | .ok true =>
      match invocation.eligibleEntry py dateFromisoformat entry with
      | .error error => .error (.raised error)
      | .ok eligible =>
          .ok (eligible == group.eligible && invocation.localBucket entry == group.bucket)

def groups : List AcquireGroup :=
  (if invocation.temporal.includeSuperseded then [true, false] else [true]).flatMap fun eligible =>
    [⟨eligible, 0⟩, ⟨eligible, 2⟩]

def acquire
    (fetch : (MemoryEntry → Except RecallError Bool) → Nat → Except RecallError (List MemoryEntry))
    (limit : Int) : Except RecallError (List MemoryEntry) :=
  if limit < 1 then .error (.raised .value)
  else
    fill (fun group => fetch (invocation.accepts py dateFromisoformat group)) limit.toNat
      invocation.groups []

variable {py dateFromisoformat invocation}

/-- An entry belongs to a group of the acquisition. -/
def Admits (py : Python) (dateFromisoformat : String → Option Int) (invocation : RecallInvocation)
    (group : AcquireGroup) (entry : MemoryEntry) : Prop :=
  invocation.accepts py dateFromisoformat group entry = .ok true

theorem admits_iff {group : AcquireGroup} {entry : MemoryEntry} :
    Admits py dateFromisoformat invocation group entry ↔
      invocation.allowsEntry py dateFromisoformat entry = .ok true ∧
        invocation.eligibleEntry py dateFromisoformat entry = .ok group.eligible ∧
        invocation.localBucket entry = group.bucket := by
  rw [Admits, accepts]
  cases hallows : invocation.allowsEntry py dateFromisoformat entry with
  | error error => simp
  | ok allowed =>
      cases allowed with
      | false => simp
      | true =>
          cases heligible : invocation.eligibleEntry py dateFromisoformat entry with
          | error error => simp
          | ok eligible => simp

theorem group_unique {g₁ g₂ : AcquireGroup} {entry : MemoryEntry}
    (h₁ : Admits py dateFromisoformat invocation g₁ entry)
    (h₂ : Admits py dateFromisoformat invocation g₂ entry) : g₁ = g₂ := by
  obtain ⟨-, heligible₁, hbucket₁⟩ := admits_iff.mp h₁
  obtain ⟨-, heligible₂, hbucket₂⟩ := admits_iff.mp h₂
  obtain ⟨eligible₁, bucket₁⟩ := g₁
  obtain ⟨eligible₂, bucket₂⟩ := g₂
  have heligible : eligible₁ = eligible₂ := Except.ok.inj (heligible₁.symm.trans heligible₂)
  have hbucket : bucket₁ = bucket₂ := hbucket₁.symm.trans hbucket₂
  rw [heligible, hbucket]

theorem nodup_groups : invocation.groups.Nodup := by
  rw [groups]
  split <;> decide

/-- A local entry is in the first or the last bucket. -/
theorem localBucket_cases (invocation : RecallInvocation) (entry : MemoryEntry) :
    invocation.localBucket entry = 0 ∨ invocation.localBucket entry = 2 := by
  rw [localBucket, SourcePolicy.bucket]
  split
  · exact .inr rfl
  · exact .inl (if_neg (by simp [entryPolicyFields]))

/-- No admissible entry is outside the groups. -/
theorem exists_group {entry : MemoryEntry} {eligible : Bool}
    (hallows : invocation.allowsEntry py dateFromisoformat entry = .ok true)
    (heligible : invocation.eligibleEntry py dateFromisoformat entry = .ok eligible)
    (hwanted : eligible = true ∨ invocation.temporal.includeSuperseded = true) :
    ∃ g ∈ invocation.groups, Admits py dateFromisoformat invocation g entry := by
  obtain ⟨g, hg⟩ : ∃ g : AcquireGroup, g = ⟨eligible, invocation.localBucket entry⟩ := ⟨_, rfl⟩
  have hadmits : Admits py dateFromisoformat invocation g entry := by
    refine admits_iff.mpr ⟨hallows, ?_, ?_⟩
    · rw [hg]
      exact heligible
    · rw [hg]
  refine ⟨g, ?_, hadmits⟩
  rw [groups, List.mem_flatMap, hg]
  refine ⟨eligible, ?_, ?_⟩
  · rcases hwanted with rfl | hincl
    · split <;> simp
    · rw [if_pos hincl]
      cases eligible <;> simp
  · rcases localBucket_cases invocation entry with h | h <;> rw [h] <;> simp

end RecallInvocation

end TrwMemory.Retrieval

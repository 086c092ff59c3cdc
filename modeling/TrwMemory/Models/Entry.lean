import Mathlib.Data.Finmap
import Mathlib.Data.Rat.Defs

/-!
The memory record (`models/memory.py`) with every column of `ENTRY_COLUMNS`.
Enumerations are the source's; a `float` is the rational it denotes; a `dict` is
a finite map, so that neither equality nor a digest sees insertion order.

A value of `MemoryEntry` is one its model accepts, as far as the development
needs it: the id is not empty. The other validators raise before a call reaches
the code modelled here.
-/
namespace TrwMemory

/-- Wall-clock microseconds and the offset from UTC, absent for a naive value.
`isoformat` is injective on these pairs, so a datetime stands for its text. -/
structure Datetime where
  wall : Int
  offset : Option Int
  deriving DecidableEq, Repr

namespace Datetime

/-- `parse_dt`: a naive value is taken as UTC, an aware one is moved to it. -/
def parseDt (d : Datetime) : Datetime := ⟨d.wall - d.offset.getD 0, some 0⟩

/-- The instant, on which aware values are compared. -/
def instant (d : Datetime) : Int := d.wall - d.offset.getD 0

@[simp]
theorem parseDt_parseDt (d : Datetime) : d.parseDt.parseDt = d.parseDt := by
  simp [parseDt]

@[simp]
theorem parseDt_instant (d : Datetime) : d.parseDt.instant = d.instant := by
  simp [parseDt, instant]

end Datetime

inductive MemoryStatus where
  | active | resolved | obsolete | obsoletePoisoned | archived
  deriving DecidableEq, Repr

inductive MemoryType where
  | incident | pattern | convention | hypothesis | workaround | decision
  deriving DecidableEq, Repr

inductive Confidence where
  | unverified | low | medium | high | verified
  deriving DecidableEq, Repr

inductive EvidenceLevel where
  | observed | verified | inferred | unknown
  deriving DecidableEq, Repr

inductive ProtectionTier where
  | critical | high | normal | low | «protected» | permanent
  deriving DecidableEq, Repr

inductive Source where
  | human | agent | tool | consolidated | distill | teamSync | companySync
  deriving DecidableEq, Repr

inductive AssertionType where
  | grepPresent | grepAbsent | globExists | globAbsent
  deriving DecidableEq, Repr

structure Assertion where
  type : AssertionType
  pattern : String
  target : String
  lastResult : Option Bool
  lastVerifiedAt : Option Datetime
  lastEvidence : String
  firstFailedAt : Option Datetime
  commitHash : Option String
  lineRange : Option (Int × Int)
  gitUrl : Option String
  deriving DecidableEq, Repr

inductive SymbolType where
  | function | method | «class» | const | type | impl
  deriving DecidableEq, Repr

structure Anchor where
  file : String
  symbolName : String
  symbolType : SymbolType
  signature : String
  lineRange : Option (Int × Int)
  deriving DecidableEq, Repr

inductive VerificationStatus where
  | verified | stale
  deriving DecidableEq, Repr

abbrev Metadata := Finmap fun _ : String => String
abbrev VectorClock := Finmap fun _ : String => Int

/-- The columns in the order of `ENTRY_COLUMNS`; `ns` is `namespace`. -/
structure MemoryEntry where
  id : String
  content : String
  detail : String
  tags : List String
  evidence : List String
  importance : Rat
  status : MemoryStatus
  recurrence : Nat
  ns : String
  createdAt : Datetime
  updatedAt : Datetime
  lastAccessedAt : Option Datetime
  validFrom : Datetime
  invalidFrom : Option Datetime
  invalidatedBy : Option String
  accessCount : Nat
  sessionCount : Nat
  source : Source
  sourceIdentity : String
  clientProfile : String
  modelId : String
  mergedFrom : List String
  consolidatedFrom : List String
  consolidatedInto : Option String
  metadata : Metadata
  vectorClock : VectorClock
  remoteId : Option String
  publishedToPlatform : Bool
  pendingDelete : Bool
  crossValidated : Bool
  outcomeHistory : List String
  assertions : List Assertion
  anchors : List Anchor
  anchorValidity : Option Rat
  type : MemoryType
  nudgeLine : String
  expires : String
  confidence : Confidence
  taskType : String
  domain : List String
  phaseOrigin : String
  phaseAffinity : List String
  teamOrigin : String
  protectionTier : ProtectionTier
  syncHash : String
  syncSeq : Int
  lastSyncedAt : Option Datetime
  recallCount : Nat
  verificationStatus : Option VerificationStatus
  verificationCheckedAt : String
  evidenceLevel : EvidenceLevel
  id_ne : id ≠ ""
  deriving DecidableEq

/-- An entry built from its required fields: the defaults of the model. -/
def MemoryEntry.ofDefaults (id content ns : String) (now : Datetime) (h : id ≠ "") :
    MemoryEntry where
  id
  content
  detail := ""
  tags := []
  evidence := []
  importance := 1 / 2
  status := .active
  recurrence := 1
  ns
  createdAt := now
  updatedAt := now
  lastAccessedAt := none
  validFrom := now
  invalidFrom := none
  invalidatedBy := none
  accessCount := 0
  sessionCount := 0
  source := .agent
  sourceIdentity := ""
  clientProfile := ""
  modelId := ""
  mergedFrom := []
  consolidatedFrom := []
  consolidatedInto := none
  metadata := ∅
  vectorClock := ∅
  remoteId := none
  publishedToPlatform := false
  pendingDelete := false
  crossValidated := false
  outcomeHistory := []
  assertions := []
  anchors := []
  anchorValidity := none
  type := .pattern
  nudgeLine := ""
  expires := ""
  confidence := .unverified
  taskType := ""
  domain := []
  phaseOrigin := ""
  phaseAffinity := []
  teamOrigin := ""
  protectionTier := .normal
  syncHash := ""
  syncSeq := 0
  lastSyncedAt := none
  recallCount := 0
  verificationStatus := none
  verificationCheckedAt := ""
  evidenceLevel := .unknown
  id_ne := h

section SampleIds

theorem a_ne_empty : "a" ≠ "" := by decide
theorem b_ne_empty : "b" ≠ "" := by decide
theorem m_ne_empty : "m" ≠ "" := by decide
theorem r_ne_empty : "r" ≠ "" := by decide
theorem x_ne_empty : "x" ≠ "" := by decide
theorem y_ne_empty : "y" ≠ "" := by decide
theorem L1_ne_empty : "L1" ≠ "" := by decide

end SampleIds

end TrwMemory

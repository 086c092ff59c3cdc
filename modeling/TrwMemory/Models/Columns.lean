import TrwMemory.Models.Entry

/-!
Partial updates. A patch gives a value, of the column's own type, to each field an
`update()` call names; the columns are those of `_VALID_UPDATE_COLUMNS`. `id` and
`created_at` are immutable, and `namespace` is the call's own argument.
-/
namespace TrwMemory

inductive Column where
  | content | detail | tags | evidence | importance | status | recurrence | updatedAt
  | lastAccessedAt | validFrom | invalidFrom | invalidatedBy | accessCount | sessionCount | source
  | sourceIdentity | clientProfile | modelId | mergedFrom | consolidatedFrom | consolidatedInto
  | metadata | vectorClock | remoteId | publishedToPlatform | pendingDelete | crossValidated
  | outcomeHistory | assertions | anchors | anchorValidity | type | nudgeLine | expires
  | confidence | taskType | domain | phaseOrigin | phaseAffinity | teamOrigin | protectionTier
  | syncHash | syncSeq | lastSyncedAt | recallCount | verificationStatus | verificationCheckedAt
  | evidenceLevel
  deriving DecidableEq, Repr

abbrev Column.Ty : Column → Type
  | .content | .detail | .sourceIdentity | .clientProfile | .modelId | .nudgeLine
  | .expires | .taskType | .phaseOrigin | .teamOrigin | .syncHash
  | .verificationCheckedAt => String
  | .tags | .evidence | .mergedFrom | .consolidatedFrom | .outcomeHistory | .domain
  | .phaseAffinity => List String
  | .importance => Rat
  | .status => MemoryStatus
  | .recurrence | .accessCount | .sessionCount | .recallCount => Nat
  | .updatedAt | .validFrom => Datetime
  | .lastAccessedAt | .invalidFrom | .lastSyncedAt => Option Datetime
  | .invalidatedBy | .consolidatedInto | .remoteId => Option String
  | .source => Source
  | .metadata => Metadata
  | .vectorClock => VectorClock
  | .publishedToPlatform | .pendingDelete | .crossValidated => Bool
  | .assertions => List Assertion
  | .anchors => List Anchor
  | .anchorValidity => Option Rat
  | .type => MemoryType
  | .confidence => Confidence
  | .protectionTier => ProtectionTier
  | .syncSeq => Int
  | .verificationStatus => Option VerificationStatus
  | .evidenceLevel => EvidenceLevel

def Column.all : List Column :=
  [.content, .detail, .tags, .evidence, .importance, .status, .recurrence, .updatedAt,
    .lastAccessedAt, .validFrom, .invalidFrom, .invalidatedBy, .accessCount, .sessionCount,
    .source, .sourceIdentity, .clientProfile, .modelId, .mergedFrom, .consolidatedFrom,
    .consolidatedInto, .metadata, .vectorClock, .remoteId, .publishedToPlatform, .pendingDelete,
    .crossValidated, .outcomeHistory, .assertions, .anchors, .anchorValidity, .type, .nudgeLine,
    .expires, .confidence, .taskType, .domain, .phaseOrigin, .phaseAffinity, .teamOrigin,
    .protectionTier, .syncHash, .syncSeq, .lastSyncedAt, .recallCount, .verificationStatus,
    .verificationCheckedAt, .evidenceLevel]

theorem Column.mem_all (c : Column) : c ∈ Column.all := by
  cases c <;> decide

/-- `_BOOKKEEPING_FIELDS`: an update of these alone does not move `updated_at`. -/
def BOOKKEEPING_FIELDS : List Column :=
  [.accessCount, .lastAccessedAt, .lastSyncedAt, .recallCount, .sessionCount, .syncHash, .syncSeq]

/-- The fields an `update()` call names, with their values. -/
abbrev Patch := (c : Column) → Option c.Ty

namespace Patch

def none : Patch := fun _ => Option.none

def set (p : Patch) (c : Column) (v : c.Ty) : Patch := fun d =>
  if h : c = d then some (h ▸ v) else p d

def names (p : Patch) (c : Column) : Bool := (p c).isSome

/-- The fields of the call, in column order. -/
def fields (p : Patch) : List Column := Column.all.filter p.names

theorem mem_fields {p : Patch} {c : Column} : c ∈ p.fields ↔ p.names c = true := by
  simp [fields, Column.mem_all]

@[simp]
theorem set_self (p : Patch) (c : Column) (v : c.Ty) : p.set c v c = some v := by
  simp [set]

theorem set_other (p : Patch) {c d : Column} (v : c.Ty) (h : c ≠ d) : p.set c v d = p d := by
  simp [set, h]

end Patch

/-- `setattr` for every named field. -/
def MemoryEntry.patched (e : MemoryEntry) (p : Patch) : MemoryEntry :=
  { e with
    content := (p .content).getD e.content
    detail := (p .detail).getD e.detail
    tags := (p .tags).getD e.tags
    evidence := (p .evidence).getD e.evidence
    importance := (p .importance).getD e.importance
    status := (p .status).getD e.status
    recurrence := (p .recurrence).getD e.recurrence
    updatedAt := (p .updatedAt).getD e.updatedAt
    lastAccessedAt := (p .lastAccessedAt).getD e.lastAccessedAt
    validFrom := (p .validFrom).getD e.validFrom
    invalidFrom := (p .invalidFrom).getD e.invalidFrom
    invalidatedBy := (p .invalidatedBy).getD e.invalidatedBy
    accessCount := (p .accessCount).getD e.accessCount
    sessionCount := (p .sessionCount).getD e.sessionCount
    source := (p .source).getD e.source
    sourceIdentity := (p .sourceIdentity).getD e.sourceIdentity
    clientProfile := (p .clientProfile).getD e.clientProfile
    modelId := (p .modelId).getD e.modelId
    mergedFrom := (p .mergedFrom).getD e.mergedFrom
    consolidatedFrom := (p .consolidatedFrom).getD e.consolidatedFrom
    consolidatedInto := (p .consolidatedInto).getD e.consolidatedInto
    metadata := (p .metadata).getD e.metadata
    vectorClock := (p .vectorClock).getD e.vectorClock
    remoteId := (p .remoteId).getD e.remoteId
    publishedToPlatform := (p .publishedToPlatform).getD e.publishedToPlatform
    pendingDelete := (p .pendingDelete).getD e.pendingDelete
    crossValidated := (p .crossValidated).getD e.crossValidated
    outcomeHistory := (p .outcomeHistory).getD e.outcomeHistory
    assertions := (p .assertions).getD e.assertions
    anchors := (p .anchors).getD e.anchors
    anchorValidity := (p .anchorValidity).getD e.anchorValidity
    type := (p .type).getD e.type
    nudgeLine := (p .nudgeLine).getD e.nudgeLine
    expires := (p .expires).getD e.expires
    confidence := (p .confidence).getD e.confidence
    taskType := (p .taskType).getD e.taskType
    domain := (p .domain).getD e.domain
    phaseOrigin := (p .phaseOrigin).getD e.phaseOrigin
    phaseAffinity := (p .phaseAffinity).getD e.phaseAffinity
    teamOrigin := (p .teamOrigin).getD e.teamOrigin
    protectionTier := (p .protectionTier).getD e.protectionTier
    syncHash := (p .syncHash).getD e.syncHash
    syncSeq := (p .syncSeq).getD e.syncSeq
    lastSyncedAt := (p .lastSyncedAt).getD e.lastSyncedAt
    recallCount := (p .recallCount).getD e.recallCount
    verificationStatus := (p .verificationStatus).getD e.verificationStatus
    verificationCheckedAt := (p .verificationCheckedAt).getD e.verificationCheckedAt
    evidenceLevel := (p .evidenceLevel).getD e.evidenceLevel }

end TrwMemory

import TrwMemory.Library.Verdicts
import TrwMemory.Storage.YamlCodec

/-!
What the two mappers read under one name (`storage/_row_mapper.py`,
`storage/_yaml_row_mapper.py`), and that a row or a document which is read as an entry is read so
name by name. A field is read of its own column. Beside it, the opening time asks for the
creation, and the metadata of a row takes in the texts of three columns that are no member's.
-/
namespace TrwMemory.Codec

open Library Storage

abbrev EntryColumn.Ty : EntryColumn → Type
  | .id | .ns => String
  | .createdAt => Datetime
  | .of c => c.Ty

/-- The field under a name. -/
def fieldOf (e : MemoryEntry) : (k : EntryColumn) → k.Ty
  | .id => e.id
  | .ns => e.ns
  | .createdAt => e.createdAt
  | .of .content => e.content
  | .of .detail => e.detail
  | .of .tags => e.tags
  | .of .evidence => e.evidence
  | .of .importance => e.importance
  | .of .status => e.status
  | .of .recurrence => e.recurrence
  | .of .updatedAt => e.updatedAt
  | .of .lastAccessedAt => e.lastAccessedAt
  | .of .validFrom => e.validFrom
  | .of .invalidFrom => e.invalidFrom
  | .of .invalidatedBy => e.invalidatedBy
  | .of .accessCount => e.accessCount
  | .of .sessionCount => e.sessionCount
  | .of .source => e.source
  | .of .sourceIdentity => e.sourceIdentity
  | .of .clientProfile => e.clientProfile
  | .of .modelId => e.modelId
  | .of .mergedFrom => e.mergedFrom
  | .of .consolidatedFrom => e.consolidatedFrom
  | .of .consolidatedInto => e.consolidatedInto
  | .of .metadata => e.metadata
  | .of .vectorClock => e.vectorClock
  | .of .remoteId => e.remoteId
  | .of .publishedToPlatform => e.publishedToPlatform
  | .of .pendingDelete => e.pendingDelete
  | .of .crossValidated => e.crossValidated
  | .of .outcomeHistory => e.outcomeHistory
  | .of .assertions => e.assertions
  | .of .anchors => e.anchors
  | .of .anchorValidity => e.anchorValidity
  | .of .type => e.type
  | .of .nudgeLine => e.nudgeLine
  | .of .expires => e.expires
  | .of .confidence => e.confidence
  | .of .taskType => e.taskType
  | .of .domain => e.domain
  | .of .phaseOrigin => e.phaseOrigin
  | .of .phaseAffinity => e.phaseAffinity
  | .of .teamOrigin => e.teamOrigin
  | .of .protectionTier => e.protectionTier
  | .of .syncHash => e.syncHash
  | .of .syncSeq => e.syncSeq
  | .of .lastSyncedAt => e.lastSyncedAt
  | .of .recallCount => e.recallCount
  | .of .verificationStatus => e.verificationStatus
  | .of .verificationCheckedAt => e.verificationCheckedAt
  | .of .evidenceLevel => e.evidenceLevel

/-- A check of the model. -/
def orRefused {α : Type} (o : Option α) : Except PyError α := o.elim (.error .value) .ok

/-- The number of a column that may be absent. -/
def optionalRat : Option PyFloat → Option (Option Rat)
  | none => some none
  | some x => (toRat x).map some

def memberOr {α : Type} (ofText : String → Option α) (fallback : α) (text : String) : α :=
  (ofText text).getD fallback

section Rows

variable (py : Python) (pydantic : Pydantic) (now : Datetime) (row : Row)

/-- The metadata of a row, with the texts that are no member's. -/
def rowMetadata : Except PyError Metadata := do
  let metadata ← parseJsonDictStr py (row (.of .metadata))
  let typeText ← textOf py (row (.of .type))
  let confidenceText ← textOf py (row (.of .confidence))
  let evidenceText ← textOf py (row (.of .evidenceLevel))
  let typeText := pyStrip typeText
  let (_, metadata) := canonical MemoryType.ofText
    (if typeText = "gotcha" then .incident else .pattern) "legacy_memory_type" typeText metadata
  let (_, metadata) := canonical Confidence.ofText .unverified "legacy_confidence"
    (pyStrip confidenceText) metadata
  let (_, metadata) :=
    if pyStrip evidenceText = "" then (EvidenceLevel.unknown, metadata)
    else canonical EvidenceLevel.ofText .unknown "legacy_evidence_level"
      (pyStrip evidenceText) metadata
  return ofItems metadata

/-- What `row_to_entry` reads of a column. -/
def rowReading : (k : EntryColumn) → Except PyError k.Ty
  | .id => py.strOf (row .id)
  | .ns => py.strOf (row .ns)
  | .createdAt => parseDtSafe py (row .createdAt) now id
  | .of .content => py.strOf (row (.of .content))
  | .of .detail => textOf py (row (.of .detail))
  | .of .tags => parseJsonList py (row (.of .tags))
  | .of .evidence => parseJsonList py (row (.of .evidence))
  | .of .importance => (py.floatOf (row (.of .importance))) >>= fun x => orRefused (toRat x)
  | .of .status => memberOf MemoryStatus.ofText (row (.of .status))
  | .of .recurrence => (py.intOf (row (.of .recurrence))) >>= fun n => orRefused (toCount n)
  | .of .updatedAt => parseDtSafe py (row (.of .updatedAt)) now id
  | .of .lastAccessedAt => timeOrAbsent py (row (.of .lastAccessedAt))
  | .of .validFrom =>
      parseDtSafe py (row .createdAt) now id >>= fun createdAt =>
      timeOr py (row (.of .validFrom)) createdAt
  | .of .invalidFrom => timeOrAbsent py (row (.of .invalidFrom))
  | .of .invalidatedBy => textOrAbsent py (row (.of .invalidatedBy))
  | .of .accessCount => (py.intOf (row (.of .accessCount))) >>= fun n => orRefused (toCount n)
  | .of .sessionCount =>
      (countOf py (row (.of .sessionCount))) >>= fun n => orRefused (toCount n)
  | .of .source => (py.strOf (row (.of .source))).map Source.ofText
  | .of .sourceIdentity => textOf py (row (.of .sourceIdentity))
  | .of .clientProfile => textOf py (row (.of .clientProfile))
  | .of .modelId => textOf py (row (.of .modelId))
  | .of .mergedFrom => parseJsonList py (row (.of .mergedFrom))
  | .of .consolidatedFrom => parseJsonList py (row (.of .consolidatedFrom))
  | .of .consolidatedInto => textOrAbsent py (row (.of .consolidatedInto))
  | .of .metadata => rowMetadata py row
  | .of .vectorClock => (parseJsonDictInt py (row (.of .vectorClock))).map ofItems
  | .of .remoteId => textOrAbsent py (row (.of .remoteId))
  | .of .publishedToPlatform => .ok (row (.of .publishedToPlatform)).truthy
  | .of .pendingDelete => .ok (row (.of .pendingDelete)).truthy
  | .of .crossValidated => .ok (row (.of .crossValidated)).truthy
  | .of .outcomeHistory => parseJsonList py (row (.of .outcomeHistory))
  | .of .assertions => parseModelList py (validateAssertion pydantic) (row (.of .assertions))
  | .of .anchors => parseModelList py (Anchor.validate py) (row (.of .anchors))
  | .of .anchorValidity =>
      parseOptionalFloat py (row (.of .anchorValidity)) >>= fun x => orRefused (optionalRat x)
  | .of .type =>
      (textOf py (row (.of .type))).map fun text =>
      memberOr MemoryType.ofText (if pyStrip text = "gotcha" then .incident else .pattern)
        (pyStrip text)
  | .of .nudgeLine => (textOf py (row (.of .nudgeLine))).map truncateNudgeLine
  | .of .expires => textOf py (row (.of .expires))
  | .of .confidence =>
      (textOf py (row (.of .confidence))).map fun text =>
      memberOr Confidence.ofText .unverified (pyStrip text)
  | .of .taskType => textOf py (row (.of .taskType))
  | .of .domain => parseJsonList py (row (.of .domain))
  | .of .phaseOrigin => textOf py (row (.of .phaseOrigin))
  | .of .phaseAffinity => parseJsonList py (row (.of .phaseAffinity))
  | .of .teamOrigin => textOf py (row (.of .teamOrigin))
  | .of .protectionTier => memberOf ProtectionTier.ofText (row (.of .protectionTier))
  | .of .syncHash => textOf py (row (.of .syncHash))
  | .of .syncSeq => countOf py (row (.of .syncSeq))
  | .of .lastSyncedAt => timeOrAbsent py (row (.of .lastSyncedAt))
  | .of .recallCount =>
      (countOf py (row (.of .recallCount))) >>= fun n => orRefused (toCount n)
  | .of .verificationStatus => .ok (parseVerificationStatus (row (.of .verificationStatus)))
  | .of .verificationCheckedAt => textOf py (row (.of .verificationCheckedAt))
  | .of .evidenceLevel =>
      (textOf py (row (.of .evidenceLevel))).map fun text =>
      if pyStrip text = "" then .unknown
      else memberOr EvidenceLevel.ofText .unknown (pyStrip text)

end Rows

section Documents

variable (py : Python) (pydantic : Pydantic) (now : Datetime) (data : Document)

/-- What `dict_to_entry` reads under a name. -/
def documentReading : (k : EntryColumn) → Except PyError k.Ty
  | .id => strUnder py data .id ""
  | .ns => strUnder py data .ns "default"
  | .createdAt => timeOr py (data.get .createdAt) now
  | .of .content => strUnder py data (.of .content) ""
  | .of .detail => strUnder py data (.of .detail) ""
  | .of .tags => parseJsonList py (data.get (.of .tags))
  | .of .evidence => parseJsonList py (data.get (.of .evidence))
  | .of .importance =>
      floatUnder py data (.of .importance) (1 / 2) >>= fun x => orRefused (toRat x)
  | .of .status =>
      (strUnder py data (.of .status) "active").map (memberOr MemoryStatus.ofText .active)
  | .of .recurrence => intUnder py data (.of .recurrence) 1 >>= fun n => orRefused (toCount n)
  | .of .updatedAt => timeOr py (data.get (.of .updatedAt)) now
  | .of .lastAccessedAt => timeOrAbsent py (data.get (.of .lastAccessedAt))
  | .of .validFrom =>
      timeOr py (data.get .createdAt) now >>= fun createdAt =>
      parseDtSafe py (data.get (.of .validFrom)) createdAt fun d => d
  | .of .invalidFrom => timeOrAbsent py (data.get (.of .invalidFrom))
  | .of .invalidatedBy => textOrAbsent py (data.get (.of .invalidatedBy))
  | .of .accessCount =>
      intUnder py data (.of .accessCount) 0 >>= fun n => orRefused (toCount n)
  | .of .sessionCount =>
      intUnder py data (.of .sessionCount) 0 >>= fun n => orRefused (toCount n)
  | .of .source => (strUnder py data (.of .source) "agent").map Source.ofText
  | .of .sourceIdentity => strUnder py data (.of .sourceIdentity) ""
  | .of .clientProfile => strUnder py data (.of .clientProfile) ""
  | .of .modelId => strUnder py data (.of .modelId) ""
  | .of .mergedFrom => parseJsonList py (data.get (.of .mergedFrom))
  | .of .consolidatedFrom => parseJsonList py (data.get (.of .consolidatedFrom))
  | .of .consolidatedInto => textOrAbsent py (data.get (.of .consolidatedInto))
  | .of .metadata => (parseJsonDictStr py (data.get (.of .metadata))).map ofItems
  | .of .vectorClock => (parseJsonDictInt py (data.get (.of .vectorClock))).map ofItems
  | .of .remoteId => textOrAbsent py (data.get (.of .remoteId))
  | .of .publishedToPlatform => .ok (data.get (.of .publishedToPlatform)).truthy
  | .of .pendingDelete => .ok (data.get (.of .pendingDelete)).truthy
  | .of .crossValidated => .ok (data.get (.of .crossValidated)).truthy
  | .of .outcomeHistory => parseJsonList py (data.get (.of .outcomeHistory))
  | .of .assertions => (parseAssertions pydantic (data.get (.of .assertions))).map Prod.fst
  | .of .anchors => (parseAnchors py (data.get (.of .anchors))).map Prod.fst
  | .of .anchorValidity =>
      parseOptionalFloat py (data.get (.of .anchorValidity)) >>= fun x => orRefused (optionalRat x)
  | .of .type =>
      strUnder py data (.of .type) "pattern" >>= fun text =>
      orRefused (coerceStrEnum MemoryType.ofText .pattern text)
  | .of .nudgeLine => (strUnder py data (.of .nudgeLine) "").map truncateNudgeLine
  | .of .expires => strUnder py data (.of .expires) ""
  | .of .confidence =>
      strUnder py data (.of .confidence) "unverified" >>= fun text =>
      orRefused (coerceStrEnum Confidence.ofText .unverified text)
  | .of .taskType => strUnder py data (.of .taskType) ""
  | .of .domain => parseJsonList py (data.get (.of .domain))
  | .of .phaseOrigin => strUnder py data (.of .phaseOrigin) ""
  | .of .phaseAffinity => parseJsonList py (data.get (.of .phaseAffinity))
  | .of .teamOrigin => strUnder py data (.of .teamOrigin) ""
  | .of .protectionTier =>
      strUnder py data (.of .protectionTier) "normal" >>= fun text =>
      orRefused (coerceStrEnum ProtectionTier.ofText .normal text)
  | .of .syncHash => strUnder py data (.of .syncHash) ""
  | .of .syncSeq => intUnder py data (.of .syncSeq) 0
  | .of .lastSyncedAt => timeOrAbsent py (data.get (.of .lastSyncedAt))
  | .of .recallCount => .ok 0
  | .of .verificationStatus =>
      .ok (parseVerificationStatus (data.get (.of .verificationStatus)))
  | .of .verificationCheckedAt => textOf py (data.get (.of .verificationCheckedAt))
  | .of .evidenceLevel =>
      strUnder py data (.of .evidenceLevel) "unknown" >>= fun text =>
      orRefused (coerceStrEnum EvidenceLevel.ofText .unknown text)

end Documents

theorem construct_numbers {id : String} {numbers : Numbers} {fields : MemoryEntry → MemoryEntry}
    {e : MemoryEntry} (h : construct id numbers fields = some e) :
    ∃ base, e = fields base ∧ base.id = id ∧
      toRat numbers.importance = some base.importance ∧
      toCount numbers.recurrence = some base.recurrence ∧
      toCount numbers.accessCount = some base.accessCount ∧
      toCount numbers.sessionCount = some base.sessionCount ∧
      toCount numbers.recallCount = some base.recallCount ∧
      optionalRat numbers.anchorValidity = some base.anchorValidity := by
  rw [construct] at h
  split at h
  · cases h
  · simp only [Option.bind_eq_bind, Option.bind_eq_some_iff] at h
    obtain ⟨importance, himportance, recurrence, hrecurrence, accessCount, haccess, sessionCount,
      hsession, recallCount, hrecall, h⟩ := h
    split at h
    · rename_i hvalidity
      rw [Option.bind_some, Option.ite_none_right_eq_some] at h
      exact ⟨_, (Option.some.inj h.2).symm, rfl, himportance, hrecurrence, haccess, hsession,
        hrecall, by rw [hvalidity]; rfl⟩
    · rename_i x hvalidity
      rw [Option.bind_eq_some_iff] at h
      obtain ⟨validity, hx, h⟩ := h
      rw [Option.ite_none_right_eq_some] at h
      exact ⟨_, (Option.some.inj h.2).symm, rfl, himportance, hrecurrence, haccess, hsession,
        hrecall, by rw [hvalidity]; exact hx⟩

theorem bind_orRefused {α β : Type} {x : Except PyError α} {a : α} {check : α → Option β} {b : β}
    (hx : x = .ok a) (hb : check a = some b) : (x >>= fun a => orRefused (check a)) = .ok b := by
  rw [hx]
  change orRefused (check a) = _
  rw [hb]
  rfl

theorem map_ok {α β : Type} {x : Except PyError α} {a : α} (f : α → β) (hx : x = .ok a) :
    x.map f = .ok (f a) := by
  rw [hx]
  rfl

/-- A document that is read as an entry is read so under each name. -/
theorem dictToEntry_reads (py : Python) (pydantic : Pydantic) (now : Datetime) (data : Document) :
    Yields (dictToEntry py data pydantic now) fun row =>
      (∀ k, documentReading py pydantic now data k = .ok (fieldOf row.entry k)) ∧
        parseAssertions pydantic (data.get (.of .assertions)) =
          .ok (row.entry.assertions, row.droppedAssertions) ∧
        parseAnchors py (data.get (.of .anchors)) =
          .ok (row.entry.anchors, row.droppedAnchors) := by
  refine .bind fun createdAt hcreatedAt => ?_
  refine .bind fun updatedAt hupdatedAt => ?_
  refine .bind fun lastAccessedAt hlastAccessedAt => ?_
  refine .bind fun statusText hstatus => ?_
  refine .bind fun consolidatedInto hconsolidatedInto => ?_
  refine .bind fun anchors hanchors => ?_
  refine .bind fun assertions hassertions => ?_
  refine .bind fun id hid => ?_
  refine .bind fun content hcontent => ?_
  refine .bind fun detail hdetail => ?_
  refine .bind fun tags htags => ?_
  refine .bind fun evidence hevidence => ?_
  refine .bind fun importance himportance => ?_
  refine .bind fun recurrence hrecurrence => ?_
  refine .bind fun ns hns => ?_
  refine .bind fun accessCount haccessCount => ?_
  refine .bind fun sessionCount hsessionCount => ?_
  refine .bind fun source hsource => ?_
  refine .bind fun sourceIdentity hsourceIdentity => ?_
  refine .bind fun clientProfile hclientProfile => ?_
  refine .bind fun modelId hmodelId => ?_
  refine .bind fun mergedFrom hmergedFrom => ?_
  refine .bind fun consolidatedFrom hconsolidatedFrom => ?_
  refine .bind fun metadata hmetadata => ?_
  refine .bind fun vectorClock hvectorClock => ?_
  refine .bind fun remoteId hremoteId => ?_
  refine .bind fun outcomeHistory houtcomeHistory => ?_
  refine .bind fun validFrom hvalidFrom => ?_
  refine .bind fun invalidFrom hinvalidFrom => ?_
  refine .bind fun invalidatedBy hinvalidatedBy => ?_
  refine .bind fun anchorValidity hanchorValidity => ?_
  refine .bind fun verificationCheckedAt hverificationCheckedAt => ?_
  refine .bind fun typeText htype => ?_
  refine .bind fun nudgeLine hnudgeLine => ?_
  refine .bind fun expires hexpires => ?_
  refine .bind fun confidenceText hconfidence => ?_
  refine .bind fun evidenceText hevidenceLevel => ?_
  refine .bind fun taskType htaskType => ?_
  refine .bind fun domain hdomain => ?_
  refine .bind fun phaseOrigin hphaseOrigin => ?_
  refine .bind fun phaseAffinity hphaseAffinity => ?_
  refine .bind fun teamOrigin hteamOrigin => ?_
  refine .bind fun tierText hprotectionTier => ?_
  refine .bind fun syncHash hsyncHash => ?_
  refine .bind fun syncSeq hsyncSeq => ?_
  refine .bind fun lastSyncedAt hlastSyncedAt => ?_
  refine .bind fun entry hentry => ?_
  intro row hrow
  obtain rfl := Except.ok.inj hrow
  have hbuilt := elim_eq_ok hentry
  simp only [Option.bind_eq_bind, Option.bind_eq_some_iff] at hbuilt
  obtain ⟨type, htypeOf, confidence, hconfidenceOf, evidenceLevel, hevidenceOf, protectionTier,
    htierOf, hbuilt⟩ := hbuilt
  obtain ⟨base, rfl, hbase, himportanceOf, hrecurrenceOf, haccessOf, hsessionOf, hrecallOf,
    hvalidityOf⟩ := construct_numbers hbuilt
  refine ⟨fun k => ?_, hassertions, hanchors⟩
  cases k with
  | id => exact hid.trans (congrArg _ hbase.symm)
  | ns => exact hns
  | createdAt => exact hcreatedAt
  | of c =>
      cases c with
      | content => exact hcontent
      | detail => exact hdetail
      | tags => exact htags
      | evidence => exact hevidence
      | importance => exact bind_orRefused himportance himportanceOf
      | status => exact map_ok _ hstatus
      | recurrence => exact bind_orRefused hrecurrence hrecurrenceOf
      | updatedAt => exact hupdatedAt
      | lastAccessedAt => exact hlastAccessedAt
      | validFrom =>
          change (timeOr py _ now >>= _) = _
          rw [hcreatedAt]
          exact hvalidFrom
      | invalidFrom => exact hinvalidFrom
      | invalidatedBy => exact hinvalidatedBy
      | accessCount => exact bind_orRefused haccessCount haccessOf
      | sessionCount => exact bind_orRefused hsessionCount hsessionOf
      | source => exact map_ok _ hsource
      | sourceIdentity => exact hsourceIdentity
      | clientProfile => exact hclientProfile
      | modelId => exact hmodelId
      | mergedFrom => exact hmergedFrom
      | consolidatedFrom => exact hconsolidatedFrom
      | consolidatedInto => exact hconsolidatedInto
      | metadata => exact map_ok _ hmetadata
      | vectorClock => exact map_ok _ hvectorClock
      | remoteId => exact hremoteId
      | publishedToPlatform => rfl
      | pendingDelete => rfl
      | crossValidated => rfl
      | outcomeHistory => exact houtcomeHistory
      | assertions => exact map_ok _ hassertions
      | anchors => exact map_ok _ hanchors
      | anchorValidity => exact bind_orRefused hanchorValidity hvalidityOf
      | type => exact bind_orRefused htype htypeOf
      | nudgeLine => exact map_ok _ hnudgeLine
      | expires => exact hexpires
      | confidence => exact bind_orRefused hconfidence hconfidenceOf
      | taskType => exact htaskType
      | domain => exact hdomain
      | phaseOrigin => exact hphaseOrigin
      | phaseAffinity => exact hphaseAffinity
      | teamOrigin => exact hteamOrigin
      | protectionTier => exact bind_orRefused hprotectionTier htierOf
      | syncHash => exact hsyncHash
      | syncSeq => exact hsyncSeq
      | lastSyncedAt => exact hlastSyncedAt
      | recallCount => exact congrArg Except.ok (Option.some.inj hrecallOf)
      | verificationStatus => rfl
      | verificationCheckedAt => exact hverificationCheckedAt
      | evidenceLevel => exact bind_orRefused hevidenceLevel hevidenceOf

end TrwMemory.Codec

import TrwMemory.Storage.RowCodec
import TrwMemory.Storage.RowRoundTrip

/-!
Documents of the YAML store and entries (`storage/_yaml_row_mapper.py`,
`models/_memory_entry_serialization.py`), and a document that was written of an entry, read back.
A document holds a value under each of the names it has; names that are no field's are left out.
Evidence is read item by item, and what cannot be read is counted. The equation of the round trip
differs from that of the rows in two places: the count of recalls is not read, and assertions are
lost one by one.

How a document becomes a file, and is read from one, is not modelled here.
-/
namespace TrwMemory.Codec

open Library Storage

/-- The dictionary of a file: a name is absent, or has a value that may be null. -/
abbrev Document := EntryColumn → Option PyValue

/-- `data.get(key)`. -/
def Document.get (data : Document) (key : EntryColumn) : PyValue := (data key).getD .none

def plainList (values : List String) : PyValue := .list (values.map .str)

def plainDict {α : Type} (json : α → Json) (m : Finmap fun _ : String => α) : PyValue :=
  .dict ((dictItems m).map fun item => (item.1, json item.2))

/-- `memory_entry_to_dict`. -/
def memoryEntryToDict (pydantic : Pydantic) (e : MemoryEntry) : EntryColumn → PyValue
  | .id => .str e.id
  | .ns => .str e.ns
  | .createdAt => .str e.createdAt.isoformat
  | .of .content => .str e.content
  | .of .detail => .str e.detail
  | .of .tags => plainList e.tags
  | .of .evidence => plainList e.evidence
  | .of .importance => .float (.finite e.importance)
  | .of .status => .str e.status.text
  | .of .recurrence => .int e.recurrence
  | .of .updatedAt => .str e.updatedAt.isoformat
  | .of .lastAccessedAt => timeColumn e.lastAccessedAt
  | .of .validFrom => .str e.validFrom.isoformat
  | .of .invalidFrom => timeColumn e.invalidFrom
  | .of .invalidatedBy => textColumn e.invalidatedBy
  | .of .accessCount => .int e.accessCount
  | .of .sessionCount => .int e.sessionCount
  | .of .source => .str e.source.text
  | .of .sourceIdentity => .str e.sourceIdentity
  | .of .clientProfile => .str e.clientProfile
  | .of .modelId => .str e.modelId
  | .of .mergedFrom => plainList e.mergedFrom
  | .of .consolidatedFrom => plainList e.consolidatedFrom
  | .of .consolidatedInto => textColumn e.consolidatedInto
  | .of .metadata => plainDict .str e.metadata
  | .of .vectorClock => plainDict .int e.vectorClock
  | .of .remoteId => textColumn e.remoteId
  | .of .publishedToPlatform => .bool e.publishedToPlatform
  | .of .pendingDelete => .bool e.pendingDelete
  | .of .crossValidated => .bool e.crossValidated
  | .of .outcomeHistory => plainList e.outcomeHistory
  | .of .assertions => .list (e.assertions.map (Assertion.dump pydantic))
  | .of .anchors => .list (e.anchors.map Anchor.dump)
  | .of .anchorValidity => e.anchorValidity.elim .none fun x => .float (.finite x)
  | .of .type => .str e.type.text
  | .of .nudgeLine => .str e.nudgeLine
  | .of .expires => .str e.expires
  | .of .confidence => .str e.confidence.text
  | .of .taskType => .str e.taskType
  | .of .domain => plainList e.domain
  | .of .phaseOrigin => .str e.phaseOrigin
  | .of .phaseAffinity => plainList e.phaseAffinity
  | .of .teamOrigin => .str e.teamOrigin
  | .of .protectionTier => .str e.protectionTier.text
  | .of .syncHash => .str e.syncHash
  | .of .syncSeq => .int e.syncSeq
  | .of .lastSyncedAt => timeColumn e.lastSyncedAt
  | .of .recallCount => .int e.recallCount
  | .of .verificationStatus => textColumn (e.verificationStatus.map VerificationStatus.text)
  | .of .verificationCheckedAt => .str e.verificationCheckedAt
  | .of .evidenceLevel => .str e.evidenceLevel.text

/-- `entry_to_dict`: every name is there. -/
def entryToDict (pydantic : Pydantic) (e : MemoryEntry) : Document :=
  fun key => some (memoryEntryToDict pydantic e key)

/-- `ParsedRow`. -/
structure ParsedRow where
  entry : MemoryEntry
  droppedAssertions : Nat
  droppedAnchors : Nat

/-- `ParsedRow.partial`. -/
def ParsedRow.isPartial (row : ParsedRow) : Bool :=
  row.droppedAssertions != 0 || row.droppedAnchors != 0

/-- `except (ValueError, KeyError)`. -/
def isValueOrKey : PyError → Bool
  | .decode | .value | .key => true
  | .type | .overflow | .recursion => false

/-- What is read of a list item by item, and how many were dropped. -/
def parseItems {α : Type} (validate : Json → Except PyError α) :
    List Json → Except PyError (List α × Nat)
  | [] => .ok ([], 0)
  | item :: items => do
      let parsed ← orElse isValueOrKey none ((validate item).map some)
      let (rest, dropped) ← parseItems validate items
      return match parsed with
        | some a => (a :: rest, dropped)
        | none => (rest, dropped + 1)

/-- `_parse_assertions`. -/
def parseAssertions (pydantic : Pydantic) : PyValue → Except PyError (List Assertion × Nat)
  | .list items => parseItems (validateAssertion pydantic) items
  | _ => .ok ([], 0)

/-- `_parse_anchors`: what is not empty and no list counts as one. -/
def parseAnchors (py : Python) : PyValue → Except PyError (List Anchor × Nat)
  | .list items => parseItems (Anchor.validate py) items
  | raw => .ok ([], if raw.truthy then 1 else 0)

/-- `_coerce_str_enum`, of a text. -/
def coerceStrEnum {α : Type} (ofText : String → Option α) (default : α) (v : String) : Option α :=
  if v = "" then some default else ofText v

section Mapper

variable (py : Python) (data : Document)

/-- `_str`. -/
def strUnder (key : EntryColumn) (default : String) : Except PyError String :=
  match (data key).getD (.str default) with
  | .none => .ok default
  | val => py.strOf val

/-- `_int`. -/
def intUnder (key : EntryColumn) (default : Int) : Except PyError Int :=
  orElse PyError.isValueOrType default (py.intOf ((data key).getD (.int default)))

/-- `_float`. -/
def floatUnder (key : EntryColumn) (default : Rat) : Except PyError PyFloat :=
  orElse PyError.isValueOrType (.finite default)
    (py.floatOf ((data key).getD (.float (.finite default))))

/-- `dict_to_entry`. The count of recalls is not read. -/
def dictToEntry (pydantic : Pydantic) (now : Datetime) : Except PyError ParsedRow := do
  let createdAt ← timeOr py (data.get .createdAt) now
  let updatedAt ← timeOr py (data.get (.of .updatedAt)) now
  let lastAccessedAt ← timeOrAbsent py (data.get (.of .lastAccessedAt))
  let status := (MemoryStatus.ofText (← strUnder py data (.of .status) "active")).getD .active
  let consolidatedInto ← textOrAbsent py (data.get (.of .consolidatedInto))
  let (anchors, droppedAnchors) ← parseAnchors py (data.get (.of .anchors))
  let (assertions, droppedAssertions) ← parseAssertions pydantic (data.get (.of .assertions))
  let id ← strUnder py data .id ""
  let content ← strUnder py data (.of .content) ""
  let detail ← strUnder py data (.of .detail) ""
  let tags ← parseJsonList py (data.get (.of .tags))
  let evidence ← parseJsonList py (data.get (.of .evidence))
  let importance ← floatUnder py data (.of .importance) (1 / 2)
  let recurrence ← intUnder py data (.of .recurrence) 1
  let ns ← strUnder py data .ns "default"
  let accessCount ← intUnder py data (.of .accessCount) 0
  let sessionCount ← intUnder py data (.of .sessionCount) 0
  let source ← strUnder py data (.of .source) "agent"
  let sourceIdentity ← strUnder py data (.of .sourceIdentity) ""
  let clientProfile ← strUnder py data (.of .clientProfile) ""
  let modelId ← strUnder py data (.of .modelId) ""
  let mergedFrom ← parseJsonList py (data.get (.of .mergedFrom))
  let consolidatedFrom ← parseJsonList py (data.get (.of .consolidatedFrom))
  let metadata ← parseJsonDictStr py (data.get (.of .metadata))
  let vectorClock ← parseJsonDictInt py (data.get (.of .vectorClock))
  let remoteId ← textOrAbsent py (data.get (.of .remoteId))
  let outcomeHistory ← parseJsonList py (data.get (.of .outcomeHistory))
  let validFrom ← parseDtSafe py (data.get (.of .validFrom)) createdAt fun d => d
  let invalidFrom ← timeOrAbsent py (data.get (.of .invalidFrom))
  let invalidatedBy ← textOrAbsent py (data.get (.of .invalidatedBy))
  let anchorValidity ← parseOptionalFloat py (data.get (.of .anchorValidity))
  let verificationCheckedAt ← textOf py (data.get (.of .verificationCheckedAt))
  let typeText ← strUnder py data (.of .type) "pattern"
  let nudgeLine ← strUnder py data (.of .nudgeLine) ""
  let expires ← strUnder py data (.of .expires) ""
  let confidenceText ← strUnder py data (.of .confidence) "unverified"
  let evidenceText ← strUnder py data (.of .evidenceLevel) "unknown"
  let taskType ← strUnder py data (.of .taskType) ""
  let domain ← parseJsonList py (data.get (.of .domain))
  let phaseOrigin ← strUnder py data (.of .phaseOrigin) ""
  let phaseAffinity ← parseJsonList py (data.get (.of .phaseAffinity))
  let teamOrigin ← strUnder py data (.of .teamOrigin) ""
  let tierText ← strUnder py data (.of .protectionTier) "normal"
  let syncHash ← strUnder py data (.of .syncHash) ""
  let syncSeq ← intUnder py data (.of .syncSeq) 0
  let lastSyncedAt ← timeOrAbsent py (data.get (.of .lastSyncedAt))
  let numbers : Numbers := ⟨importance, recurrence, accessCount, sessionCount, 0, anchorValidity⟩
  let built : Option MemoryEntry := do
    let type ← coerceStrEnum MemoryType.ofText .pattern typeText
    let confidence ← coerceStrEnum Confidence.ofText .unverified confidenceText
    let evidenceLevel ← coerceStrEnum EvidenceLevel.ofText .unknown evidenceText
    let protectionTier ← coerceStrEnum ProtectionTier.ofText .normal tierText
    construct id numbers fun e =>
      { e with
        content, detail, tags, evidence, status, ns, createdAt, updatedAt, lastAccessedAt
        source := Source.ofText source
        sourceIdentity, clientProfile, modelId, mergedFrom, consolidatedFrom, consolidatedInto
        metadata := ofItems metadata
        vectorClock := ofItems vectorClock
        remoteId
        publishedToPlatform := (data.get (.of .publishedToPlatform)).truthy
        pendingDelete := (data.get (.of .pendingDelete)).truthy
        crossValidated := (data.get (.of .crossValidated)).truthy
        outcomeHistory, assertions, anchors, validFrom, invalidFrom, invalidatedBy
        verificationStatus :=
          parseVerificationStatus (data.get (.of .verificationStatus))
        verificationCheckedAt, type
        nudgeLine := truncateNudgeLine nudgeLine
        expires, confidence, evidenceLevel, taskType, domain, phaseOrigin, phaseAffinity
        teamOrigin, protectionTier, syncHash, syncSeq, lastSyncedAt }
  let entry ← built.elim (.error .value) .ok
  return ⟨entry, droppedAssertions, droppedAnchors⟩

end Mapper

variable (py : Python) (pydantic : Pydantic)

theorem parseJsonList_plainList (values : List String) :
    parseJsonList py (plainList values) = .ok values := by
  cases values with
  | nil => rfl
  | cons s values => exact mapM_strOfJson py (s :: values)

theorem parseJsonDictStr_plainDict (m : Metadata) :
    parseJsonDictStr py (plainDict .str m) = .ok (dictItems m) := by
  have hread : ∀ s, py.strOfJson (.str s) = .ok s := fun _ => rfl
  unfold plainDict
  cases dictItems m with
  | nil => rfl
  | cons item items => exact comprehend_items hread (item :: items)

theorem parseJsonDictInt_plainDict (m : VectorClock) :
    parseJsonDictInt py (plainDict .int m) = .ok (dictItems m) := by
  have hread : ∀ n, py.intOfJson (.int n) = .ok n := fun _ => rfl
  unfold plainDict
  cases dictItems m with
  | nil => rfl
  | cons item items =>
      change orElse _ _ (comprehend py.intOfJson _) = _
      rw [comprehend_items hread (item :: items)]
      rfl

theorem coerceStrEnum_member {α : Type} {ofText : String → Option α} {default member : α}
    {v : String} (hempty : ofText "" = none) (hv : ofText v = some member) :
    coerceStrEnum ofText default v = some member := by
  unfold coerceStrEnum
  split
  · rename_i h
    rw [h, hempty] at hv
    cases hv
  · exact hv

/-- The assertions that are read back, each on its own. -/
def kept (assertions : List Assertion) : List Assertion :=
  assertions.filterMap (Assertion.redated pydantic)

theorem parseAssertions_plain {assertions : List Assertion} (h : ∀ a ∈ assertions, a.Valid) :
    parseAssertions pydantic (.list (assertions.map (Assertion.dump pydantic))) =
      .ok (kept pydantic assertions,
        assertions.countP fun a => (Assertion.redated pydantic a).isNone) := by
  rw [parseAssertions, kept]
  induction assertions with
  | nil => rfl
  | cons a assertions ih =>
      rw [List.forall_mem_cons] at h
      rw [List.map_cons, parseItems, ih h.2, validateAssertion,
        Assertion.validate_dump pydantic h.1]
      cases hread : Assertion.redated pydantic a with
      | none =>
          rw [List.filterMap_cons_none hread, List.countP_cons_of_pos (by rw [hread]; rfl)]
          rfl
      | some read =>
          rw [List.filterMap_cons_some hread, List.countP_cons_of_neg (by rw [hread]; simp)]
          rfl

theorem parseAnchors_plain {anchors : List Anchor} (h : ∀ a ∈ anchors, a.Valid) :
    parseAnchors py (.list (anchors.map Anchor.dump)) = .ok (anchors, 0) := by
  rw [parseAnchors]
  induction anchors with
  | nil => rfl
  | cons a anchors ih =>
      rw [List.forall_mem_cons] at h
      rw [List.map_cons, parseItems, ih h.2, Anchor.validate_dump py h.1]
      rfl

theorem shiftToUtc_error {d : Datetime} {error : PyError} (h : shiftToUtc d = .error error) :
    d.toUtc.isSome = false ∧ error = .overflow := by
  rw [shiftToUtc_eq] at h
  cases hutc : d.toUtc.isSome with
  | false =>
      rw [hutc] at h
      exact ⟨rfl, (Except.error.inj h).symm⟩
  | true =>
      rw [hutc] at h
      cases h

theorem shiftOption_error {o : Option Datetime} {error : PyError}
    (h : shiftOption o = .error error) : ∃ d ∈ o, shiftToUtc d = .error error := by
  cases o with
  | none => cases h
  | some d =>
      refine ⟨d, rfl, ?_⟩
      change (shiftToUtc d).map some = _ at h
      cases hshift : shiftToUtc d with
      | error other =>
          rw [hshift] at h
          rw [Except.error.inj h]
      | ok utc =>
          rw [hshift] at h
          cases h

/-- All shifts overflow alike, so their order does not show. -/
theorem shifted_error {e : MemoryEntry} {d : Datetime} {error : PyError} (hd : d ∈ datetimes e)
    (h : shiftToUtc d = .error error) : shifted e = .error error := by
  obtain ⟨hutc, rfl⟩ := shiftToUtc_error h
  refine (shifted_eq e).trans (if_neg fun hall => ?_)
  rw [List.all_eq_true.mp hall d hd] at hutc
  cases hutc

theorem shifted_errorOption {e : MemoryEntry} {o : Option Datetime} {error : PyError}
    (ho : ∀ d ∈ o, d ∈ datetimes e) (h : shiftOption o = .error error) :
    shifted e = .error error := by
  obtain ⟨d, hd, hshift⟩ := shiftOption_error h
  exact shifted_error (ho d hd) hshift

theorem dictToEntry_entryToDict {e : MemoryEntry} (h : Written e) (now : Datetime) :
    dictToEntry (reading py) (entryToDict pydantic e) pydantic now =
      ((mapRow { e with recallCount := 0, assertions := kept pydantic e.assertions }).mapError
        MapError.toPyError).map fun entry =>
          ⟨entry, e.assertions.countP fun a => (Assertion.redated pydantic a).isNone, 0⟩ := by
  have hsame : ∀ d, (shiftToUtc d).map (fun d => d) = shiftToUtc d :=
    fun d => by cases shiftToUtc d <;> rfl
  rw [mapRow_eq { e with recallCount := 0, assertions := kept pydantic e.assertions } h.nudge]
  simp only [dictToEntry, entryToDict, memoryEntryToDict, Document.get, strUnder, intUnder,
    floatUnder, Option.getD_some, timeOr_isoformat py h.createdAt,
    timeOr_isoformat py h.updatedAt, parseDtSafe_isoformat py h.validFrom, hsame,
    timeOrAbsent_timeColumn py h.lastAccessedAt, timeOrAbsent_timeColumn py h.invalidFrom,
    timeOrAbsent_timeColumn py h.lastSyncedAt, textOrAbsent_textColumn, Python.strOf,
    Python.intOf, Python.floatOf, orElse, parseAnchors_plain (reading py) h.anchors,
    parseAssertions_plain pydantic h.assertions, parseJsonList_plainList,
    parseJsonDictStr_plainDict, parseJsonDictInt_plainDict, parseOptionalFloat_column, textOf_str,
    parseVerificationStatus_column, PyValue.truthy]
  simp only [bind, Except.bind, pure, Except.pure, MemoryStatus.ofText_text, Option.getD_some,
    coerceStrEnum_member rfl (MemoryType.ofText_text e.type),
    coerceStrEnum_member rfl (Confidence.ofText_text e.confidence),
    coerceStrEnum_member rfl (EvidenceLevel.ofText_text e.evidenceLevel),
    coerceStrEnum_member rfl (ProtectionTier.ofText_text e.protectionTier), Option.bind_some,
    ofItems_dictItems, Source.ofText_text, truncateNudgeLine_short h.nudge]
  cases hcreated : shiftToUtc e.createdAt with
  | error _ =>
    rw [shifted_error (by simp [datetimes, withoutEmpty]) hcreated]
    rfl
  | ok createdAt =>
  cases hupdated : shiftToUtc e.updatedAt with
  | error _ =>
    rw [shifted_error (by simp [datetimes, withoutEmpty]) hupdated]
    rfl
  | ok updatedAt =>
  cases haccessed : shiftOption e.lastAccessedAt with
  | error _ =>
    rw [shifted_errorOption (fun d hd => by simp [datetimes, withoutEmpty, Option.mem_def.mp hd])
      haccessed]
    rfl
  | ok lastAccessedAt =>
  cases hvalid : shiftToUtc e.validFrom with
  | error _ =>
    rw [shifted_error (by simp [datetimes, withoutEmpty]) hvalid]
    rfl
  | ok validFrom =>
  cases hinvalid : shiftOption e.invalidFrom with
  | error _ =>
    rw [shifted_errorOption (fun d hd => by simp [datetimes, withoutEmpty, Option.mem_def.mp hd])
      hinvalid]
    rfl
  | ok invalidFrom =>
  cases hsynced : shiftOption e.lastSyncedAt with
  | error _ =>
    rw [shifted_errorOption (fun d hd => by simp [datetimes, withoutEmpty, Option.mem_def.mp hd])
      hsynced]
    rfl
  | ok lastSyncedAt =>
  simp only [shifted, withoutEmpty, hcreated, hupdated, haccessed, hvalid, hinvalid, hsynced, bind,
    Except.bind, pure, Except.pure]
  exact congrArg (Except.map _) (construct_numbersOf { e with recallCount := 0 } _)

end TrwMemory.Codec

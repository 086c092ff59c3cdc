import Mathlib.Data.Finset.Sort
import Mathlib.Data.String.Basic
import TrwMemory.Models.Columns
import TrwMemory.Storage.EvidenceCodec
import TrwMemory.Storage.RowWrites

/-!
Rows of SQLite and entries (`storage/_row_mapper.py`). A row gives a value to each column
of `ENTRY_COLUMNS`; of an entry it is the one that SQLite hands back, where a member of an
enumeration is its text. The columns are read in the order of the source, so that the first
one that fails decides the error.

The interpreter's limit on the digits of an integer is left out.
-/
namespace TrwMemory.Codec

open Library Storage

inductive EntryColumn where
  | id | ns | createdAt
  | of (c : Column)

abbrev Row := EntryColumn → PyValue

theorem key_le_trans : IsTrans String (· ≤ ·) := inferInstance

theorem key_le_antisymm : @Std.Antisymm String (· ≤ ·) := inferInstance

/-- The items of a dictionary; its order is not kept, so they come in the order of keys. -/
def dictItems {α : Type} (m : Finmap fun _ : String => α) : List (String × α) :=
  (@Finset.sort String m.keys (· ≤ ·) _ key_le_trans key_le_antisymm _).filterMap fun key =>
    (m.lookup key).map fun v => (key, v)

def ofItems {α : Type} (items : List (String × α)) : Finmap fun _ : String => α :=
  items.foldl (fun m item => m.insert item.1 item.2) ∅

/-- `metadata.setdefault`. -/
def setDefault (metadata : List (String × String)) (key value : String) :
    List (String × String) :=
  if metadata.any fun item => item.1 == key then metadata else metadata ++ [(key, value)]

def textColumn (o : Option String) : PyValue := o.elim .none .str

def timeColumn (o : Option Datetime) : PyValue := o.elim .none fun d => .str d.isoformat

def flagColumn (b : Bool) : PyValue := .int (if b then 1 else 0)

def listColumn (values : List String) : PyValue := .str (Json.dumps (.arr (values.map .str)))

def dictColumn {α : Type} (json : α → Json) (m : Finmap fun _ : String => α) : PyValue :=
  .str (Json.dumps (.obj ((dictItems m).map fun item => (item.1, json item.2))))

/-- `entry_to_row`. -/
def entryToRow (pydantic : Pydantic) (e : MemoryEntry) : Row
  | .id => .str e.id
  | .ns => .str e.ns
  | .createdAt => .str e.createdAt.isoformat
  | .of .content => .str e.content
  | .of .detail => .str e.detail
  | .of .tags => listColumn e.tags
  | .of .evidence => listColumn e.evidence
  | .of .importance => .float (.finite e.importance)
  | .of .status => .str e.status.text
  | .of .recurrence => .int e.recurrence
  | .of .updatedAt => .str e.updatedAt.isoformat
  | .of .lastAccessedAt => timeColumn e.lastAccessedAt
  | .of .validFrom => .str e.validFrom.isoformat
  | .of .invalidFrom => timeColumn e.invalidFrom
  | .of .invalidatedBy => textColumn e.invalidatedBy
  | .of .accessCount => .int e.accessCount
  | .of .sessionCount => .int e.sessionCount
  | .of .source => .str e.source.text
  | .of .sourceIdentity => .str e.sourceIdentity
  | .of .clientProfile => .str e.clientProfile
  | .of .modelId => .str e.modelId
  | .of .mergedFrom => listColumn e.mergedFrom
  | .of .consolidatedFrom => listColumn e.consolidatedFrom
  | .of .consolidatedInto => textColumn e.consolidatedInto
  | .of .metadata => dictColumn .str e.metadata
  | .of .vectorClock => dictColumn .int e.vectorClock
  | .of .remoteId => textColumn e.remoteId
  | .of .publishedToPlatform => flagColumn e.publishedToPlatform
  | .of .pendingDelete => flagColumn e.pendingDelete
  | .of .crossValidated => flagColumn e.crossValidated
  | .of .outcomeHistory => listColumn e.outcomeHistory
  | .of .assertions => .str (Json.dumps (.arr (e.assertions.map (Assertion.dump pydantic))))
  | .of .anchors => .str (Json.dumps (.arr (e.anchors.map Anchor.dump)))
  | .of .anchorValidity => e.anchorValidity.elim .none fun x => .float (.finite x)
  | .of .type => .str e.type.text
  | .of .nudgeLine => .str e.nudgeLine
  | .of .expires => .str e.expires
  | .of .confidence => .str e.confidence.text
  | .of .taskType => .str e.taskType
  | .of .domain => listColumn e.domain
  | .of .phaseOrigin => .str e.phaseOrigin
  | .of .phaseAffinity => listColumn e.phaseAffinity
  | .of .teamOrigin => .str e.teamOrigin
  | .of .protectionTier => .str e.protectionTier.text
  | .of .syncHash => .str e.syncHash
  | .of .syncSeq => .int e.syncSeq
  | .of .lastSyncedAt => timeColumn e.lastSyncedAt
  | .of .recallCount => .int e.recallCount
  | .of .verificationStatus => textColumn (e.verificationStatus.map VerificationStatus.text)
  | .of .verificationCheckedAt => .str e.verificationCheckedAt
  | .of .evidenceLevel => .str e.evidenceLevel.text

section Mapper

variable (py : Python)

/-- `str(raw) if raw else ""`. -/
def textOf (raw : PyValue) : Except PyError String :=
  if raw.truthy then py.strOf raw else .ok ""

/-- `str(raw) if raw else None`. -/
def textOrAbsent (raw : PyValue) : Except PyError (Option String) :=
  if raw.truthy then (py.strOf raw).map some else .ok none

/-- `int(str(raw)) if raw else 0`. -/
def countOf (raw : PyValue) : Except PyError Int :=
  if raw.truthy then py.intOf raw else .ok 0

/-- The constructor of an enumeration: no other value is a member's. -/
def memberOf {α : Type} (ofText : String → Option α) : PyValue → Except PyError α
  | .str v => (ofText v).elim (.error .value) .ok
  | _ => .error .value

/-- `parse_verification_status`. -/
def parseVerificationStatus : PyValue → Option VerificationStatus
  | .str v => VerificationStatus.ofText (pyStrip v)
  | _ => none

def isEmptyArray : PyValue → Bool
  | .str v => v == "[]"
  | _ => false

/-- `parse_model_list`. What is no list has no items, or items that are no models. -/
def parseModelList {α : Type} (validate : Json → Except PyError α) (raw : PyValue) :
    Except PyError (List α) :=
  if !raw.truthy || isEmptyArray raw then .ok []
  else
    orElse PyError.isValueOrType [] do
      match ← py.loadsText (← py.strOf raw) with
      | .arr items => items.mapM validate
      | _ => .ok []

def validateAssertion (pydantic : Pydantic) (item : Json) : Except PyError Assertion :=
  (Assertion.validate pydantic item).elim (.error .value) .ok

/-- A stored text that is no member's goes to `key` of the metadata. -/
def canonical {α : Type} (ofText : String → Option α) (fallback : α) (key v : String)
    (metadata : List (String × String)) : α × List (String × String) :=
  match ofText v with
  | some member => (member, metadata)
  | none => (fallback, setDefault metadata key v)

end Mapper

def toRat : PyFloat → Option Rat
  | .finite x => some x
  | .inf | .negInf | .nan => none

/-- `Field(ge=0)`. -/
def toCount (n : Int) : Option Nat := if 0 ≤ n then some n.toNat else none

/-- The numbers of an entry, as a mapper reads them. -/
structure Numbers where
  importance : PyFloat
  recurrence : Int
  accessCount : Int
  sessionCount : Int
  recallCount : Int
  anchorValidity : Option PyFloat

/-- `MemoryEntry(...)`: `fields` sets the rest; `none` is a `ValidationError`. -/
def construct (id : String) (numbers : Numbers) (fields : MemoryEntry → MemoryEntry) :
    Option MemoryEntry :=
  if hid : id = "" then none
  else do
    let importance ← toRat numbers.importance
    let recurrence ← toCount numbers.recurrence
    let accessCount ← toCount numbers.accessCount
    let sessionCount ← toCount numbers.sessionCount
    let recallCount ← toCount numbers.recallCount
    let anchorValidity ←
      match numbers.anchorValidity with
      | none => some none
      | some x => (toRat x).map some
    let e := fields { MemoryEntry.ofDefaults id "" "" ⟨0, none⟩ hid with
      importance, recurrence, accessCount, sessionCount, recallCount, anchorValidity }
    if validEntry e then some e else none

theorem construct_eq_some {id : String} {numbers : Numbers} {fields : MemoryEntry → MemoryEntry}
    {e : MemoryEntry} (h : construct id numbers fields = some e) : ∃ base, e = fields base := by
  rw [construct] at h
  split at h
  · cases h
  · simp only [Option.bind_eq_bind, Option.bind_eq_some_iff] at h
    obtain ⟨_, -, _, -, _, -, _, -, _, -, h⟩ := h
    split at h
    · rw [Option.bind_some, Option.ite_none_right_eq_some] at h
      exact ⟨_, (Option.some.inj h.2).symm⟩
    · rw [Option.bind_eq_some_iff] at h
      obtain ⟨_, -, h⟩ := h
      rw [Option.ite_none_right_eq_some] at h
      exact ⟨_, (Option.some.inj h.2).symm⟩

theorem elim_eq_ok {α : Type} {o : Option α} {a : α}
    (h : o.elim (Except.error PyError.value) Except.ok = .ok a) : o = some a := by
  cases o with
  | none => cases h
  | some b => rw [Except.ok.inj h]

/-- `row_to_entry`. -/
def rowToEntry (py : Python) (pydantic : Pydantic) (now : Datetime) (row : Row) :
    Except PyError MemoryEntry := do
  let assertions ← parseModelList py (validateAssertion pydantic) (row (.of .assertions))
  let (createdAt, validFrom, invalidFrom) ← parseValidityFields py (row .createdAt)
    (row (.of .validFrom)) (row (.of .invalidFrom)) now
  let updatedAt ← parseDtSafe py (row (.of .updatedAt)) now id
  let metadata ← parseJsonDictStr py (row (.of .metadata))
  let typeText ← textOf py (row (.of .type))
  let confidenceText ← textOf py (row (.of .confidence))
  let evidenceText ← textOf py (row (.of .evidenceLevel))
  let typeText := pyStrip typeText
  let (type, metadata) := canonical MemoryType.ofText
    (if typeText = "gotcha" then .incident else .pattern) "legacy_memory_type" typeText metadata
  let (confidence, metadata) := canonical Confidence.ofText .unverified "legacy_confidence"
    (pyStrip confidenceText) metadata
  let (evidenceLevel, metadata) :=
    if pyStrip evidenceText = "" then (.unknown, metadata)
    else canonical EvidenceLevel.ofText .unknown "legacy_evidence_level"
      (pyStrip evidenceText) metadata
  let id ← py.strOf (row .id)
  let content ← py.strOf (row (.of .content))
  let detail ← textOf py (row (.of .detail))
  let tags ← parseJsonList py (row (.of .tags))
  let evidence ← parseJsonList py (row (.of .evidence))
  let importance ← py.floatOf (row (.of .importance))
  let status ← memberOf MemoryStatus.ofText (row (.of .status))
  let recurrence ← py.intOf (row (.of .recurrence))
  let ns ← py.strOf (row .ns)
  let lastAccessedAt ← timeOrAbsent py (row (.of .lastAccessedAt))
  let invalidatedBy ← textOrAbsent py (row (.of .invalidatedBy))
  let accessCount ← py.intOf (row (.of .accessCount))
  let sessionCount ← countOf py (row (.of .sessionCount))
  let source ← py.strOf (row (.of .source))
  let sourceIdentity ← textOf py (row (.of .sourceIdentity))
  let clientProfile ← textOf py (row (.of .clientProfile))
  let modelId ← textOf py (row (.of .modelId))
  let mergedFrom ← parseJsonList py (row (.of .mergedFrom))
  let consolidatedFrom ← parseJsonList py (row (.of .consolidatedFrom))
  let consolidatedInto ← textOrAbsent py (row (.of .consolidatedInto))
  let vectorClock ← parseJsonDictInt py (row (.of .vectorClock))
  let remoteId ← textOrAbsent py (row (.of .remoteId))
  let outcomeHistory ← parseJsonList py (row (.of .outcomeHistory))
  let anchors ← parseModelList py (Anchor.validate py) (row (.of .anchors))
  let anchorValidity ← parseOptionalFloat py (row (.of .anchorValidity))
  let nudgeLine ← textOf py (row (.of .nudgeLine))
  let expires ← textOf py (row (.of .expires))
  let taskType ← textOf py (row (.of .taskType))
  let domain ← parseJsonList py (row (.of .domain))
  let phaseOrigin ← textOf py (row (.of .phaseOrigin))
  let phaseAffinity ← parseJsonList py (row (.of .phaseAffinity))
  let teamOrigin ← textOf py (row (.of .teamOrigin))
  let protectionTier ← memberOf ProtectionTier.ofText (row (.of .protectionTier))
  let syncHash ← textOf py (row (.of .syncHash))
  let syncSeq ← countOf py (row (.of .syncSeq))
  let lastSyncedAt ← timeOrAbsent py (row (.of .lastSyncedAt))
  let recallCount ← countOf py (row (.of .recallCount))
  let verificationCheckedAt ← textOf py (row (.of .verificationCheckedAt))
  let numbers : Numbers :=
    ⟨importance, recurrence, accessCount, sessionCount, recallCount, anchorValidity⟩
  let built := construct id numbers fun e =>
    { e with
      content, detail, tags, evidence, status, ns, createdAt, updatedAt, lastAccessedAt,
      validFrom, invalidFrom, invalidatedBy
      source := Source.ofText source
      sourceIdentity, clientProfile, modelId, mergedFrom, consolidatedFrom, consolidatedInto
      metadata := ofItems metadata
      vectorClock := ofItems vectorClock
      remoteId
      publishedToPlatform := (row (.of .publishedToPlatform)).truthy
      pendingDelete := (row (.of .pendingDelete)).truthy
      crossValidated := (row (.of .crossValidated)).truthy
      outcomeHistory, assertions, anchors, type
      nudgeLine := truncateNudgeLine nudgeLine
      expires, confidence, taskType, domain, phaseOrigin, phaseAffinity, teamOrigin
      protectionTier, syncHash, syncSeq, lastSyncedAt
      verificationStatus := parseVerificationStatus (row (.of .verificationStatus))
      verificationCheckedAt, evidenceLevel }
  built.elim (.error .value) .ok

end TrwMemory.Codec

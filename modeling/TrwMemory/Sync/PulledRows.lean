import TrwMemory.Embeddings.VectorText
import TrwMemory.Library.Json
import TrwMemory.Library.OrderedDict
import TrwMemory.Models.EnumTexts

/-!
The daemon's two tools that write pulled rows (`tools/sync.py`) over `apply_synced_entry`
(`sync/delta.py`): one row a call, or a page of them. A call reads and changes the database and
whatever else the write gate, the quarantine ledger, the encoder and the clock keep.

The gate, pydantic's validation, the ledger and the encoder are parameters, and so is the grant
of a namespace, whose decision does not depend on the operation. An exception is told apart by
what catches it; interrupts, which nothing here catches, are not modelled.
-/
namespace TrwMemory.Sync

open Library Library.Keyed Storage Tools Embeddings

/-- By what a handler catches: `SchemaValidationError`; `PoisoningError` and `PIIBlockError`;
any other `Exception`. -/
inductive ErrorKind where
  | schema | blocked | other
  deriving DecidableEq, Repr

structure PyException where
  kind : ErrorKind
  type : String
  reason : String
  text : String
  deriving DecidableEq, Repr

structure PulledWorld (ω : Type) where
  db : Db
  rest : ω

/-- `PreparedStoreEntry`, as far as it is read. -/
structure Prepared where
  entry : MemoryEntry
  quarantined : Bool

abbrev Fields := List (String × Json)

/-- What a daemon runs the tools with. -/
structure SyncHost (ω ε : Type) where
  digest : SyncContent → String
  digests : Digests
  token : MemoryEntry → String
  writer : Writer
  backendName : String
  transactional : Bool
  strOf : Json → String
  repr : String → String
  readFailure : String → String
  validate : Fields → Except String MemoryEntry
  invalidNamespace : String → Option String
  denied : String → Option (String → PyException)
  prepare : MemoryEntry → PulledWorld ω → Except PyException Prepared × PulledWorld ω
  quarantine : MemoryEntry → PulledWorld ω → Except PyException Unit × PulledWorld ω
  blocks : ω → MemoryEntry → Bool
  resolve : PulledWorld ω → Except PyException (Option ε)
  embed : ε → String → ω → EmbedResult × ω
  now : ω → Datetime × ω

inductive ApplyStatus where
  | stored | quarantined | blocked | conflict | invalid
  deriving DecidableEq, Repr

/-- One result: a status with its reason, or an error with status `invalid` or `error`. -/
inductive Answer where
  | answered (status : ApplyStatus) (reason : String)
  | invalid (error : String)
  | failed (error : String)
  deriving DecidableEq, Repr

inductive BatchAnswer where
  | invalid (error : String)
  | results (answers : List Answer)
  deriving DecidableEq, Repr

def MAX_SYNC_APPLY_MANY : Nat := 200

def MAX_PATTERN_LEN : Nat := 1024

def OVERLONG : String :=
  "an assertion's pattern or target is longer than " ++ toString MAX_PATTERN_LEN ++ " characters"

def overlong (a : Assertion) : Bool :=
  decide (MAX_PATTERN_LEN < max a.pattern.length a.target.length)

/-- The truth value of what JSON decodes to. -/
def jsonTruthy : Json → Bool
  | .null => false
  | .bool b => b
  | .int n => n != 0
  | .float text => text != "0.0" && text != "-0.0"
  | .str s => s != ""
  | .arr items => !items.isEmpty
  | .obj fields => !fields.isEmpty

namespace SyncHost

variable {ω ε : Type} (h : SyncHost ω ε)

/-- `coerce_memory_type_lenient`. -/
def coerceMemoryTypeLenient (raw : Option Json) : MemoryType × Option String :=
  let value :=
    match raw.filter jsonTruthy with
    | none => "pattern"
    | some raw => h.strOf raw
  match MemoryType.ofText value with
  | some type => (type, none)
  | none => (.pattern, some value)

/-- The entry with a type that this build does not know kept as metadata. -/
def withKnownType (entry : Fields) : Fields :=
  match h.coerceMemoryTypeLenient (Dict.get entry "type") with
  | (_, none) => entry
  | (kind, some raw) =>
      match (Dict.get entry "metadata").filter jsonTruthy with
      | none =>
          Dict.assign (Dict.assign entry "type" (.str kind.text)) "metadata"
            (.obj [("type_raw", .str raw)])
      | some (.obj fields) =>
          Dict.assign (Dict.assign entry "type" (.str kind.text)) "metadata"
            (.obj (Dict.assign fields "type_raw" (.str raw)))
      | some _ => entry

/-- The checks of `_apply_row` before the write gate. -/
def checkRow (ns : String) (entry : Fields) : Except String MemoryEntry :=
  match h.validate (h.withKnownType entry) with
  | .error text => .error text
  | .ok row =>
      if row.ns ≠ ns then
        .error ("entry namespace " ++ h.repr row.ns ++ " is not " ++ h.repr ns)
      else if row.assertions.any overlong then .error OVERLONG
      else .ok row

/-- `_encode_pulled`. -/
def encodePulled (embedder : Option ε) (text : String) (rest : ω) :
    EmbedResult × ω :=
  match embedder with
  | none => (.absent, rest)
  | some embedder => h.embed embedder text rest

def raised : WriteError → PyException
  | .schema e => ⟨.schema, "SchemaValidationError", e.reason, e.message⟩
  | .unreadable id => ⟨.other, "StorageError", "", h.readFailure id⟩

/-- The transaction of `apply_synced_entry`; what raises in it leaves the database as it was. -/
def commitPulled (ifRevision : Option String) (k : RowKey) (row : MemoryEntry)
    (vector : Option StoredVector) (synced : Bool) (blocks : MemoryEntry → Bool) (now : Datetime)
    (db : Db) : Except PyException ApplyStatus × Db :=
  match backendGet blocks db k with
  | .error e => (.error (h.raised e), db)
  | .ok current =>
      if current.map (revisionOf h.token) ≠ ifRevision then (.ok .conflict, db)
      else
        match storeScript h.digest h.writer.backend db row with
        | .error e => (.error (h.raised e), db)
        | .ok statements =>
            let stored := execute statements db
            let written :=
              match vector with
              | none => some stored
              | some vector => upsertVector h.digests h.writer (rowKey row) vector stored
            match written with
            | none =>
                (.error ⟨.other, "ValueError", "",
                  "vector provenance does not match the vector being stored"⟩, db)
            | some written =>
                let kept := if dropsVector h.writer current (embeddingText row) vector then
                    { written with vectors := written.vectors.discard (· == rowKey row) }
                  else written
                (.ok .stored,
                  if synced then markRowSynced h.digest h.writer blocks k now kept else kept)

def conflictText (id : String) : String :=
  id ++ " changed since it was read; nothing was written, re-read and retry"

/-- `apply_synced_entry`. -/
def applySynced (row : MemoryEntry) (ifRevision : Option String) (synced : Bool)
    (embedder : Option ε) (w : PulledWorld ω) :
    Except PyException (ApplyStatus × String) × PulledWorld ω :=
  if !h.transactional then
    (.ok (.invalid, "a conditional sync apply needs a transactional backend, not " ++
      h.backendName), w)
  else
    match h.prepare row w with
    | (.error e, w) =>
        if e.kind = .blocked then
          (.ok (.blocked, if e.reason = "" then e.type else e.reason), w)
        else (.error e, w)
    | (.ok decision, w) =>
        if decision.quarantined then
          match h.quarantine decision.entry w with
          | (.error e, w) => (.error e, w)
          | (.ok (), w) => (.ok (.quarantined, ""), w)
        else
          let (result, rest) := h.encodePulled embedder (embeddingText decision.entry) w.rest
          let (now, rest) := h.now rest
          let committed := h.commitPulled ifRevision (rowKey row) decision.entry
            (result.encoded h.digests (embeddingText decision.entry)) synced (h.blocks rest) now
            w.db
          match committed.1 with
          | .error e => (.error e, ⟨committed.2, rest⟩)
          | .ok .conflict => (.ok (.conflict, conflictText row.id), ⟨committed.2, rest⟩)
          | .ok status => (.ok (status, ""), ⟨committed.2, rest⟩)

/-- The verdict of `_apply_row` on what the write gave. -/
def rowVerdict : Except PyException (ApplyStatus × String) → Except PyException Answer
  | .ok (status, reason) => .ok (.answered status reason)
  | .error e => if e.kind = .schema then .ok (.invalid e.text) else .error e

/-- `_apply_row`. Where the embedder comes from is the tool's business, and may leave a trace
in `γ`; a row that is refused before the gate does not ask for it. -/
def applyRow {γ : Type} (embedderOf : γ → PulledWorld ω → Except PyException (Option ε) × γ)
    (ns : String) (entry : Fields) (ifRevision : Option String) (synced : Bool) (cache : γ)
    (w : PulledWorld ω) : Except PyException Answer × PulledWorld ω × γ :=
  match h.checkRow ns entry with
  | .error text => (.ok (.invalid text), w, cache)
  | .ok row =>
      match embedderOf cache w with
      | (.error e, cache) => (rowVerdict (.error e), w, cache)
      | (.ok embedder, cache) =>
          let applied := h.applySynced row ifRevision synced embedder w
          (rowVerdict applied.1, applied.2, cache)

/-- `refused_namespace` for a write. -/
def refusedNamespace (ns operation : String) : Except PyException (Option String) :=
  match h.invalidNamespace ns with
  | some text => .ok (some text)
  | none =>
      match h.denied ns with
      | some denial => .error (denial operation)
      | none => .ok none

/-- `memory_sync_apply_impl`. -/
def memorySyncApply (ns : String) (entry : Fields) (ifRevision : Option String) (synced : Bool)
    (w : PulledWorld ω) : Except PyException Answer × PulledWorld ω :=
  match h.refusedNamespace ns "sync_apply" with
  | .error e => (.error e, w)
  | .ok (some text) => (.ok (.invalid text), w)
  | .ok none =>
      let applied := h.applyRow (fun _ w => (h.resolve w, ())) ns entry ifRevision synced () w
      (applied.1, applied.2.1)

/-- The arguments in an item, typed like those of the tool for one row. -/
def itemArguments (item : Fields) : Option (Fields × Option String × Bool) := do
  let entry ←
    match Dict.get item "entry" with
    | some (.obj entry) => some entry
    | _ => none
  let revision ←
    match Dict.get item "if_revision" with
    | none | some .null => some none
    | some (.str revision) => some (some revision)
    | _ => none
  let synced ←
    match Dict.get item "synced" with
    | none => some true
    | some (.bool synced) => some synced
    | _ => none
  return (entry, revision, synced)

def ITEM_SHAPE : Answer :=
  .invalid "item needs an entry object, a string-or-null if_revision and a boolean synced"

/-- `embedder_once`: the first answer is kept, an exception is not. -/
def embedderOnce (cached : Option (Option ε)) (w : PulledWorld ω) :
    Except PyException (Option ε) × Option (Option ε) :=
  match cached with
  | some embedder => (.ok embedder, cached)
  | none =>
      match h.resolve w with
      | .ok embedder => (.ok embedder, some embedder)
      | .error e => (.error e, none)

/-- What is raised for a row is that row's verdict. -/
def verdictOf : Except PyException Answer → Answer
  | .ok answer => answer
  | .error e => .failed (e.type ++ ": " ++ e.text)

/-- The loop of `memory_sync_apply_many_impl`. -/
def applyItems (ns : String) : List Fields → Option (Option ε) → PulledWorld ω →
    List Answer × PulledWorld ω
  | [], _, w => ([], w)
  | item :: items, cached, w =>
      match itemArguments item with
      | none =>
          let rest := applyItems ns items cached w
          (ITEM_SHAPE :: rest.1, rest.2)
      | some (entry, revision, synced) =>
          let applied := h.applyRow h.embedderOnce ns entry revision synced cached w
          let rest := applyItems ns items applied.2.2 applied.2.1
          (verdictOf applied.1 :: rest.1, rest.2)

/-- `memory_sync_apply_many_impl`. -/
def memorySyncApplyMany (ns : String) (items : List Fields) (w : PulledWorld ω) :
    Except PyException BatchAnswer × PulledWorld ω :=
  match h.refusedNamespace ns "sync_apply_many" with
  | .error e => (.error e, w)
  | .ok (some text) => (.ok (.invalid text), w)
  | .ok none =>
      if MAX_SYNC_APPLY_MANY < items.length then
        (.ok (.invalid ("too_many_items: " ++ toString items.length ++ " > " ++
          toString MAX_SYNC_APPLY_MANY)), w)
      else
        let applied := h.applyItems ns items none w
        (.ok (.results applied.1), applied.2)

/-- The calls for one row, in order. There is no such call for an item whose arguments have
other types; it gets the answer of the page's tool. -/
def applyInTurn (ns : String) : List Fields → PulledWorld ω →
    List (Except PyException Answer) × PulledWorld ω
  | [], w => ([], w)
  | item :: items, w =>
      match itemArguments item with
      | none =>
          let rest := applyInTurn ns items w
          (.ok ITEM_SHAPE :: rest.1, rest.2)
      | some (entry, revision, synced) =>
          let applied := h.memorySyncApply ns entry revision synced w
          let rest := applyInTurn ns items applied.2
          (applied.1 :: rest.1, rest.2)

end SyncHost

end TrwMemory.Sync

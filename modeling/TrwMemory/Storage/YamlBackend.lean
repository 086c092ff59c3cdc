import TrwMemory.Library.Table
import TrwMemory.Storage.RowWrites
import TrwMemory.Storage.YamlCodec

/-!
The YAML store (`storage/yaml_backend.py`). Its directory has one file for an id, of whatever
namespace: reads and deletes compare the namespace of the row that the file holds, a store
and an update do not. The fallback of the access counts is the interface's.

A file is what `read_yaml` makes of it. Links, locks and what the file system refuses are
left out, as are the names of a document that are no field's. A call reads the clock once.
-/
namespace TrwMemory.Codec

open Library Storage Sync

inductive YamlFile where
  | unreadable
  | document (data : Document)

/-- The files by the names without their suffix, in the order of `glob`. -/
abbrev Directory := Keyed.Table String YamlFile

inductive YamlError where
  | storage
  | write (error : WriteError)
  | raised (error : PyError)

/-- `except (ValueError, KeyError, TypeError)` as `StorageError`. -/
def YamlError.ofReading : PyError → YamlError
  | .overflow => .raised .overflow
  | .recursion => .raised .recursion
  | _ => .storage

/-- What a store is given: the digest of the sync hash and the quarantine ledger's verdict. -/
structure YamlBackend where
  py : Python
  pydantic : Pydantic
  digest : SyncContent → String
  blocks : MemoryEntry → Bool

/-- `_path` accepts the id. -/
def isPlainId (id : String) : Bool :=
  id != "" && id.toList.all fun c => c != '\x00' && c != '/' && c != '\\'

/-- `serialize_update_value`, of the values of `entry_to_dict`: only the dictionaries are
changed. -/
def serializeUpdateValue (py : Python) : PyValue → Except PyError PyValue
  | .dict fields => do
      let items ← fields.mapM fun item => do return (item.1, Json.str (← py.strOfJson item.2))
      return .dict items
  | val => .ok val

namespace YamlBackend

variable (b : YamlBackend) (now : Datetime)

def readRow (data : Document) : Except PyError ParsedRow := dictToEntry b.py data b.pydantic now

/-- `read_yaml` and `_read_row`, as `_locate_unscoped` wraps their errors. -/
def readFile : YamlFile → Except YamlError ParsedRow
  | .unreadable => .error .storage
  | .document data => (b.readRow now data).mapError YamlError.ofReading

/-- `_locate_unscoped`. -/
def locateUnscoped (dir : Directory) (id : String) : Except YamlError (Option MemoryEntry) :=
  if isPlainId id then
    match dir.find id with
    | none => .ok none
    | some file => (b.readFile now file).map fun row => some row.entry
  else .error .storage

/-- `_locate_scoped`. -/
def locateScoped (dir : Directory) (id ns : String) : Except YamlError (Option MemoryEntry) :=
  (b.locateUnscoped now dir id).map fun found =>
    (found.filter fun e => e.ns = ns).map servedView

/-- `get`. -/
def get (dir : Directory) (id ns : String) : Except YamlError (Option MemoryEntry) :=
  (b.locateScoped now dir id ns).map fun found => found.filter fun e => !b.blocks e

/-- The checks of `store`. -/
def admits (dir : Directory) (entry : MemoryEntry) : Except YamlError Unit := do
  (validateEntryForWrite entry).mapError .write
  match violatesEvidenceInvariant entry with
  | true =>
      let existing ← b.locateUnscoped now dir entry.id
      ((refuseNewViolation (existing.filter fun e => e.ns = entry.ns) entry).mapError
        WriteError.schema).mapError .write
  | false => .ok ()
  match isPlainId entry.id with
  | true => .ok ()
  | false => .error .storage

/-- `store`. -/
def store (dir : Directory) (entry : MemoryEntry) : Except YamlError Directory := do
  b.admits now dir entry
  return dir.put entry.id (.document (entryToDict b.pydantic (stampSync b.digest entry)))

/-- The document that `update` writes over that of `row`. The namespace is one of the fields,
so the fields are never bookkeeping alone. -/
def updatedDocument (row : ParsedRow) (ns : String) (fields : Patch) :
    Except YamlError Document :=
  if row.isPartial then .error .storage
  else do
    let dated := if fields.names .updatedAt then fields else fields.set .updatedAt now
    let entry := { row.entry.patched dated with ns := ns }
    ((refuseNewViolation (some row.entry) entry).mapError WriteError.schema).mapError .write
    let entry := if namesSync fields then entry else stampSync b.digest entry
    let values := memoryEntryToDict b.pydantic entry
    let metadata ← (serializeUpdateValue b.py (values (.of .metadata))).mapError .raised
    let vectorClock ← (serializeUpdateValue b.py (values (.of .vectorClock))).mapError .raised
    return fun
      | .of .metadata => some metadata
      | .of .vectorClock => some vectorClock
      | key => some (values key)

/-- What `update` writes to the file of an id, if it gets as far. -/
def written (dir : Directory) (id ns : String) (fields : Patch) :
    Except YamlError (Option Document) :=
  if isPlainId id then
    match dir.find id with
    | none => .ok none
    | some file => do
        let row ← b.readFile now file
        match b.blocks row.entry with
        | true => return none
        | false => return some (← b.updatedDocument now row ns fields)
  else .error .storage

/-- `update`: the directory after it, and its answer. -/
def update (dir : Directory) (id ns : String) (fields : Patch) :
    Directory × Except YamlError (Option MemoryEntry) :=
  match b.written now dir id ns fields with
  | .error error => (dir, .error error)
  | .ok none => (dir, .ok none)
  | .ok (some data) =>
      (dir.put id (.document data),
        (b.readFile now (.document data)).map fun row =>
          (some (servedView row.entry)).filter fun e => !b.blocks e)

/-- `delete`. -/
def delete (dir : Directory) (id ns : String) : Directory × Except YamlError Bool :=
  match b.locateScoped now dir id ns with
  | .error error => (dir, .error error)
  | .ok none => (dir, .ok false)
  | .ok (some _) => (dir.discard fun stem => stem = id, .ok true)

/-- The fields that a recall counts. -/
def countedFields (e : MemoryEntry) (accessedAt : Option Datetime) : Patch :=
  ((Patch.none.set .accessCount (e.accessCount + 1)).set .recallCount (e.recallCount + 1)).set
    .lastAccessedAt accessedAt

/-- The loop of `increment_recall_access`. -/
def countRecalls (ns : String) (accessedAt : Option Datetime) (dir : Directory) :
    List String → Directory × Except YamlError Nat
  | [] => (dir, .ok 0)
  | id :: ids =>
      match b.get now dir id ns with
      | .error error => (dir, .error error)
      | .ok none => countRecalls ns accessedAt dir ids
      | .ok (some e) =>
          match b.update now dir id ns (countedFields e accessedAt) with
          | (dir, .error error) => (dir, .error error)
          | (dir, .ok _) =>
              let (dir, counted) := countRecalls ns accessedAt dir ids
              (dir, counted.map fun n => n + 1)

/-- `increment_recall_access`. -/
def incrementRecallAccess (dir : Directory) (ids : List String) (ns : String)
    (accessedAt : Option Datetime) : Directory × Except YamlError Nat :=
  b.countRecalls now ns accessedAt dir ids.eraseDups

/-- A file as `_iter_all` reads it. -/
def listed : YamlFile → Except PyError (Option MemoryEntry)
  | .unreadable => .ok none
  | .document data =>
      orElse isValueOrKey none ((b.readRow now data).map fun row => some (servedView row.entry))

/-- `_load_all`. -/
def loadAll (dir : Directory) : Except PyError (List MemoryEntry) :=
  (dir.rows.mapM fun row => b.listed now row.2).map List.reduceOption

/-- The loop of `delete_by_namespace`. -/
def unlinkAll (dir : Directory) : List String → Directory × Except YamlError Nat
  | [] => (dir, .ok 0)
  | id :: ids =>
      if isPlainId id then
        let (rest, deleted) := unlinkAll (dir.discard fun stem => stem = id) ids
        (rest, deleted.map fun n => if (dir.find id).isSome then n + 1 else n)
      else (dir, .error .storage)

/-- `delete_by_namespace`. -/
def deleteByNamespace (dir : Directory) (ns : String) : Directory × Except YamlError Nat :=
  match b.loadAll now dir with
  | .error error => (dir, .error (.raised error))
  | .ok entries =>
      unlinkAll dir ((entries.filter fun e => e.ns = ns).map MemoryEntry.id)

/-- A call addressed to a namespace. -/
inductive Call where
  | store (entry : MemoryEntry)
  | update (id ns : String) (fields : Patch)
  | delete (id ns : String)
  | incrementRecallAccess (ids : List String) (ns : String) (accessedAt : Option Datetime)
  | deleteByNamespace (ns : String)

/-- The namespace that a call is addressed to. -/
def Call.ns : Call → String
  | store entry => entry.ns
  | update _ ns _ | delete _ ns | incrementRecallAccess _ ns _ | deleteByNamespace ns => ns

/-- The directory that a call leaves, also where it raises. -/
def run (dir : Directory) : Call → Directory
  | .store entry => (b.store now dir entry).toOption.getD dir
  | .update id ns fields => (b.update now dir id ns fields).1
  | .delete id ns => (b.delete now dir id ns).1
  | .incrementRecallAccess ids ns accessedAt =>
      (b.incrementRecallAccess now dir ids ns accessedAt).1
  | .deleteByNamespace ns => (b.deleteByNamespace now dir ns).1

end YamlBackend

end TrwMemory.Codec

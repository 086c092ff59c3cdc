import TrwMemory.Library.HashChain
import TrwMemory.Security.ChainLibrary

/-!
The audit log (`security/audit.py`): appending, checking and compacting a file of linked
records.

The members of a dictionary stand in the order of their keys, as they are written. The cache
of the chain's head, locks, links and modes of the files are left out; a write that fails
leaves its file as it was. A call of `compact` reads its clock twice, for the cutoff and for
the manifest.
-/
namespace TrwMemory.Security.Audit

open Library

abbrev JsonObject := {fields : List (String × Json) // Json.properFields fields = true}

def GENESIS_HASH : String := String.ofList (List.replicate 64 '0')

structure AuditRecord where
  ts : PyDatetime
  op : String
  id : String
  actor : String
  ns : String
  data : JsonObject
  prevHash : String
  hash : String

/-- The log takes `datetime.fromisoformat` from the standard library besides. -/
structure AuditLibrary extends ChainLibrary where
  fromisoformat : String → Option PyDatetime

structure AuditLibrary.Documented (lib : AuditLibrary) : Prop extends
    lib.toChainLibrary.Documented where
  reads_iso : ∀ now : UtcNow, lib.fromisoformat (lib.dumpTs now.time) = some now.time

structure ManifestEntry where
  compactAt : UtcNow
  chainHeadHash : String
  eventCount : Nat

/-- The file of the log and the lines of the compact manifest beside it. -/
structure AuditLog where
  file : Option (List ChainLine)
  manifest : List ManifestEntry

variable (lib : AuditLibrary)

/-- `model_dump(mode="json")`, by key. -/
def modelDump (r : AuditRecord) : JsonObject :=
  ⟨[("actor", .str r.actor), ("data", .obj r.data.val), ("hash", .str r.hash), ("id", .str r.id),
    ("namespace", .str r.ns), ("op", .str r.op), ("prev_hash", .str r.prevHash),
    ("ts", .str (lib.dumpTs r.ts))], by
    simp [Json.properFields, Json.proper, r.data.property]⟩

/-- `_canonical_json` without the hash. -/
def canonicalJson (payload : JsonObject) : String :=
  (Json.obj (payload.val.filter fun field => field.1 != "hash")).dumpsCompact

/-- `_compute_hash`. -/
def computeHash (prevHash : String) (payload : JsonObject) : String :=
  lib.sha256 (prevHash ++ canonicalJson payload)

/-- The line that is written of a record. -/
def recordLine (r : AuditRecord) : ChainLine :=
  .json (.obj (modelDump lib r).val) (modelDump lib r).property

/-- The record under the digest of the one before it, with its own. -/
def chained (prevHash : String) (r : AuditRecord) : AuditRecord :=
  { r with prevHash, hash := computeHash lib prevHash (modelDump lib { r with prevHash }) }

theorem proper_field? {key : String} {fields : List (String × Json)} {v : Json}
    (hproper : Json.properFields fields = true) (h : Json.field? key fields = some v) :
    v.proper = true := by
  induction fields with
  | nil => cases h
  | cons field fields ih =>
      obtain ⟨k, w⟩ := field
      rw [Json.properFields, Bool.and_eq_true] at hproper
      rw [Json.field?, List.find?_cons] at h
      split at h
      · cases h
        exact hproper.1
      · exact ih hproper.2 h

/-- The field `data`. -/
def dataField (fields : JsonObject) : Option JsonObject :=
  match h : Json.field? "data" fields.val with
  | none => some ⟨[], rfl⟩
  | some (.obj data) => some ⟨data, proper_field? fields.property h⟩
  | some _ => none

/-- `AuditRecord.model_validate`. -/
def modelValidate (now : UtcNow) (fields : JsonObject) : Option AuditRecord := do
  let ts ← tsField lib.toChainLibrary now fields.val
  let op ← strField "op" none fields.val
  let id ← strField "id" (some "") fields.val
  let actor ← strField "actor" (some "") fields.val
  let ns ← strField "namespace" (some "default") fields.val
  let data ← dataField fields
  let prevHash ← strField "prev_hash" (some GENESIS_HASH) fields.val
  let hash ← strField "hash" (some "") fields.val
  return { ts, op, id, actor, ns, data, prevHash, hash }

/-- One step of `_iter_record_dicts`. -/
def recordDict (n : Nat) : ChainLine → Except String JsonObject
  | .json (.obj fields) proper => .ok ⟨fields, proper⟩
  | .json _ _ => .error ("Corrupt audit record at line " ++ toString n ++ ": expected JSON object")
  | _ => .error ("Corrupt audit record at line " ++ toString n ++ ": JSONDecodeError")

/-- `_iter_record_dicts`, to its end. -/
def recordDicts : Nat → List ChainLine → Except String (List JsonObject)
  | _, [] => .ok []
  | n, line :: lines =>
      if line.isBlank then recordDicts (n + 1) lines
      else do
        let fields ← recordDict n line
        let rest ← recordDicts (n + 1) lines
        return fields :: rest

/-- `read_all`, with the time at which each line is read. -/
def readAllFrom (clock : Nat → UtcNow) : Nat → List ChainLine → Except String (List AuditRecord)
  | _, [] => .ok []
  | n, line :: lines =>
      if line.isBlank then readAllFrom clock (n + 1) lines
      else do
        let fields ← recordDict n line
        match modelValidate lib (clock n) fields with
        | none => .error ("Corrupt audit record at line " ++ toString n ++ ": ValidationError")
        | some r => do
            let rs ← readAllFrom clock (n + 1) lines
            return r :: rs

def readAll (clock : Nat → UtcNow) (file : Option (List ChainLine)) :
    Except String (List AuditRecord) :=
  readAllFrom lib clock 1 (file.getD [])

/-- The loop of `_read_last_hash_unlocked`. -/
def lastHashFrom : Nat → Option String → List ChainLine → Except String (Option String)
  | _, lastHash, [] => .ok lastHash
  | n, lastHash, line :: lines =>
      if line.isBlank then lastHashFrom (n + 1) lastHash lines
      else do
        let fields ← recordDict n line
        match Json.field? "hash" fields.val with
        | some (.str hash) =>
            if hash = "" then .error "Corrupt audit record at chain tail: missing hash"
            else lastHashFrom (n + 1) (some hash) lines
        | _ => .error "Corrupt audit record at chain tail: missing hash"

/-- `_read_last_hash_unlocked`. -/
def readLastHash (file : Option (List ChainLine)) : Except String String :=
  match lastHashFrom 1 none (file.getD []) with
  | .ok lastHash => .ok (lastHash.getD GENESIS_HASH)
  | .error message => .error message

/-- A naive time is taken as UTC. -/
def replaceUtc (t : PyDatetime) : PyDatetime :=
  match t.val.offset with
  | some _ => t
  | none => ⟨⟨t.val.wall, some 0⟩, t.property.1, t.property.2.1, by
      intro offset hoffset
      obtain rfl := Option.mem_some.mp hoffset
      exact (by decide : (0 : Int).natAbs < Datetime.DAY)⟩

/-- `_read_oldest_ts`: it stops at the first line that is not blank. -/
def readOldestTs : Nat → List ChainLine → Except String (Option PyDatetime)
  | _, [] => .ok none
  | n, line :: lines =>
      if line.isBlank then readOldestTs (n + 1) lines
      else do
        let fields ← recordDict n line
        match Json.field? "ts" fields.val with
        | some (.str rawTs) => return (lib.fromisoformat rawTs).map replaceUtc
        | _ => return none

structure AppendCall where
  op : Option String
  action : Option String
  entryId : String
  targetId : String
  actor : String
  ns : String
  data : Option JsonObject
  now : UtcNow
  /-- Whether the system writes the line. -/
  written : Bool

/-- `a or b`, for texts. -/
def pyOr (a b : String) : String := if a = "" then b else a

def AppendCall.effectiveOp (call : AppendCall) : String :=
  pyOr (call.op.getD "") (call.action.getD "")

/-- The record of a call, not yet chained. -/
def AppendCall.record (call : AppendCall) : AuditRecord where
  ts := call.now.time
  op := call.effectiveOp
  id := pyOr call.entryId call.targetId
  actor := call.actor
  ns := call.ns
  data := call.data.getD ⟨[], rfl⟩
  prevHash := GENESIS_HASH
  hash := ""

def append (log : AuditLog) (call : AppendCall) : AuditLog × Except String AuditRecord :=
  if call.effectiveOp = "" then (log, .error "append requires op or action")
  else
    match readLastHash log.file with
    | .error message => (log, .error message)
    | .ok prevHash =>
        let record := chained lib prevHash call.record
        if call.written then
          ({ log with file := some (log.file.getD [] ++ [recordLine lib record]) }, .ok record)
        else (log, .error "Unable to append audit log: OSError")

/-- The result of `verify_chain`. -/
structure ChainReport where
  valid : Bool
  entriesChecked : Nat
  firstBrokenAt : Option Nat
  brokenHash : Option String
  deriving DecidableEq

/-- The loop of `verify_chain`. -/
def verifyFrom (total : Nat) : Nat → String → List AuditRecord → ChainReport
  | _, _, [] => ⟨true, total, none, none⟩
  | n, expectedPrev, r :: rs =>
      if r.prevHash ≠ expectedPrev then ⟨false, total, some n, some r.prevHash⟩
      else if r.hash ≠ computeHash lib r.prevHash (modelDump lib r) then
        ⟨false, total, some n, some r.hash⟩
      else verifyFrom total (n + 1) r.hash rs

def verifyChain (clock : Nat → UtcNow) (file : Option (List ChainLine)) :
    Except String ChainReport := do
  let records ← readAll lib clock file
  return verifyFrom lib records.length 1 GENESIS_HASH records

structure CompactCall where
  retentionDays : Int
  now : UtcNow
  manifestNow : UtcNow
  /-- When the lines are read. -/
  clock : Nat → UtcNow
  /-- Whether the system writes the manifest, and replaces the file. -/
  manifestWritten : Bool
  replaced : Bool

/-- `datetime.now(timezone.utc) - timedelta(days=retention_days)`, where there is one. -/
def CompactCall.cutoff? (call : CompactCall) : Option PyDatetime :=
  let d : Datetime := ⟨call.now.time.val.wall - call.retentionDays * Datetime.DAY, some 0⟩
  if h : d.InRange then some ⟨d, h⟩ else none

/-- `a >= b` of aware times. -/
def notBefore (cutoff t : PyDatetime) : Bool := decide (cutoff.val.instant ≤ t.val.instant)

/-- What is left after the full path has read the records. -/
def rewrite (log : AuditLog) (call : CompactCall) (cutoff : PyDatetime)
    (allRecords : List AuditRecord) : AuditLog × Except String Nat :=
  let manifested : AuditLog :=
    match allRecords.getLast? with
    | some last =>
        { log with
          manifest := log.manifest ++ [⟨call.manifestNow, last.hash, allRecords.length⟩] }
    | none => log
  if allRecords.any fun r => r.ts.val.offset = none then
    (manifested, .error "can't compare offset-naive and offset-aware datetimes")
  else
    let records := allRecords.filter fun r => notBefore cutoff r.ts
    if records.isEmpty then ({ manifested with file := none }, .ok 0)
    else if call.replaced then
      let rechained := HashChain.link AuditRecord.hash (chained lib) GENESIS_HASH records
      ({ manifested with file := some (rechained.map (recordLine lib)) }, .ok rechained.length)
    else (manifested, .error "OSError")

def compact (log : AuditLog) (call : CompactCall) : AuditLog × Except String Nat :=
  match call.cutoff? with
  | none => (log, .error "date value out of range")
  | some cutoff =>
      match readOldestTs lib 1 (log.file.getD []) with
      | .error message => (log, .error message)
      | .ok oldest =>
          -- The log is taken to be chronological: the first line decides for all of them.
          if oldest.any (notBefore cutoff) then
            (log, (recordDicts 1 (log.file.getD [])).map List.length)
          else
            match readAll lib call.clock log.file with
            | .error message => (log, .error message)
            | .ok allRecords =>
                if !allRecords.isEmpty && !call.manifestWritten then
                  (log, .error "Unable to append audit log: OSError")
                else rewrite lib log call cutoff allRecords

inductive Call where
  | append (call : AppendCall)
  | compact (call : CompactCall)

def perform (log : AuditLog) : Call → AuditLog
  | .append call => (append lib log call).1
  | .compact call => (compact lib log call).1

/-- A log after a sequence of calls, from no file. -/
def performAll (calls : List Call) : AuditLog :=
  calls.foldl (perform lib) ⟨none, []⟩

end TrwMemory.Security.Audit

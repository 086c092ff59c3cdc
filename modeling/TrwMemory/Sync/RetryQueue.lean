import Mathlib.Algebra.Order.BigOperators.Group.List
import Mathlib.Algebra.Order.Group.Nat
import Mathlib.Algebra.Ring.Nat
import Mathlib.Data.List.Nodup
import TrwMemory.Library.Json

/-!
The JSONL retry queue of failed publishes (`sync/retry_queue.py`).
A file is the list of its lines. A line that is not blank, is UTF-8 and is JSON
stands for its decoded value; every other line is `corrupt`.

`drain` is cut where the source releases its locks: the snapshot, one record of
the loop, and the rewrite. Log lines and the backoff sleep have no state.
-/
namespace TrwMemory.Sync

open Library

def MAX_QUEUE_DEPTH : Nat := 500
def MAX_QUEUE_BYTES : Nat := 5 * 1024 * 1024
def MAX_RETRIES : Int := 5

abbrev Payload := List (String × Json)

/-- `revision` keeps whatever two values the line carried. -/
structure QueueRecord where
  entryId : String
  payload : Payload
  queuedAt : String
  retryCount : Int
  lastError : Option String
  revision : Option (Json × Json)

/-- A drained record: its entry id and the `(sync_seq, sync_hash)` it was queued at. -/
abbrev Drained := String × Option (Int × String)

inductive RawLine where
  | corrupt (bytes : Nat)
  | json (value : Json)

namespace QueueRecord

/-- Members in the order the source inserts them. -/
def toJson (r : QueueRecord) : Json :=
  .obj <|
    [("entry_id", .str r.entryId), ("payload", .obj r.payload),
      ("queued_at", .str r.queuedAt), ("retry_count", .int r.retryCount),
      ("last_error", r.lastError.elim .null .str)] ++
    r.revision.elim [] fun (seq, hash) => [("revision", .arr [seq, hash])]

/-- `_record_key`: survives the `retry_count` mutation a drain applies. -/
def key (r : QueueRecord) : String × String := (r.entryId, r.queuedAt)

/-- `_serialized_size`, the newline included. -/
def serializedSize (r : QueueRecord) : Nat :=
  (r.toJson.dumps ++ "\n").utf8ByteSize

end QueueRecord

/-- `_parse_record`: a row that is not a well-formed record is dropped. -/
def parseRecord : Json → Option QueueRecord
  | .obj raw =>
      match Json.field? "entry_id" raw, Json.field? "payload" raw,
          Json.field? "queued_at" raw, Json.field? "retry_count" raw with
      | some (.str entryId), some (.obj payload), some (.str queuedAt), some (.int retryCount) =>
          let revision :=
            match Json.field? "revision" raw with
            | some (.arr [seq, hash]) => some (seq, hash)
            | _ => none
          match Json.field? "last_error" raw with
          | none | some .null =>
              some { entryId, payload, queuedAt, retryCount, lastError := none, revision }
          | some (.str error) =>
              some { entryId, payload, queuedAt, retryCount, lastError := some error, revision }
          | some _ => none
      | _, _, _, _ => none
  | _ => none

/-- `_queued_revision`. -/
def queuedRevision (r : QueueRecord) : Option (Int × String) :=
  match r.revision with
  | some (.int seq, .str hash) => some (seq, hash)
  | _ => none

def RawLine.parse : RawLine → Option QueueRecord
  | .corrupt _ => none
  | .json value => parseRecord value

def RawLine.size : RawLine → Nat
  | .corrupt bytes => bytes
  | .json value => (value.dumps ++ "\n").utf8ByteSize

/-- `_read_all`. A missing file reads as no lines. -/
def readAll (file : List RawLine) : List QueueRecord :=
  file.filterMap RawLine.parse

/-- `_write_all`: the temporary file that replaces the queue. -/
def writeAll (entries : List QueueRecord) : List RawLine :=
  entries.map fun r => .json r.toJson

def queuedBytes (entries : List QueueRecord) : Nat :=
  (entries.map QueueRecord.serializedSize).sum

def fileBytes (file : List RawLine) : Nat :=
  (file.map RawLine.size).sum

/-- The record `enqueue` builds; `now` is `datetime.now(timezone.utc).isoformat()`. -/
def newRecord (entryId : String) (payload : Payload) (revision : Option (Int × String))
    (now : String) : QueueRecord where
  entryId
  payload
  queuedAt := now
  retryCount := 0
  lastError := none
  revision := revision.map fun (seq, hash) => (.int seq, .str hash)

/-- The two refusals of `enqueue`. -/
def refuses (entries : List QueueRecord) (record : QueueRecord) : Bool :=
  MAX_QUEUE_DEPTH ≤ entries.length ||
    MAX_QUEUE_BYTES < queuedBytes entries + record.serializedSize

/-- `enqueue`: `false` and the file as it was when a cap refuses the record. -/
def enqueue (file : List RawLine) (record : QueueRecord) : Bool × List RawLine :=
  let entries := readAll file
  if refuses entries record then (false, file)
  else (true, writeAll (entries ++ [record]))

/-- `clear`. -/
def clear : List RawLine := writeAll []

/-- How `publish_fn` left: it may have changed the payload in place. The raise is
one of the three the loop catches; any other aborts the drain. -/
inductive PublishOutcome where
  | returned (success : Bool) (payload : Payload)
  | raised (error : String) (payload : Payload)

/-- A drain between its snapshot and its rewrite. -/
structure Drain where
  owns : Option (Payload → Bool)
  entries : List QueueRecord
  todo : List QueueRecord
  remaining : List QueueRecord
  drained : Nat
  failed : Nat
  skipped : Nat
  drainedRecords : List Drained

namespace Drain

/-- The snapshot. A drain of an empty queue returns at once, without a rewrite. -/
def begin (owns : Option (Payload → Bool)) (file : List RawLine) : Option Drain :=
  match readAll file with
  | [] => none
  | entries =>
      some
        { owns, entries, todo := entries, remaining := []
          drained := 0, failed := 0, skipped := 0, drainedRecords := [] }

def exhausted (r : QueueRecord) : Bool := MAX_RETRIES ≤ r.retryCount

def owned (d : Drain) (r : QueueRecord) : Bool :=
  d.owns.elim true fun owns => owns r.payload

/-- The record as the loop keeps it after a failed publish. -/
def failedRecord (r : QueueRecord) (error : String) (payload : Payload) : QueueRecord :=
  { r with payload, retryCount := r.retryCount + 1, lastError := some error }

/-- Exhaustion is asked before ownership, so a retired namespace's dead records
are still evicted. `outcome` is read only for a record that is published. -/
def process (d : Drain) (r : QueueRecord) (outcome : PublishOutcome) : Drain :=
  if exhausted r then { d with skipped := d.skipped + 1 }
  else if !d.owned r then { d with remaining := d.remaining ++ [r] }
  else
    match outcome with
    | .returned true _ =>
        { d with
          drained := d.drained + 1
          drainedRecords := d.drainedRecords ++ [(r.entryId, queuedRevision r)] }
    | .returned false payload =>
        { d with
          remaining := d.remaining ++ [failedRecord r "publish returned False" payload]
          failed := d.failed + 1 }
    | .raised error payload =>
        { d with
          remaining := d.remaining ++ [failedRecord r error payload]
          failed := d.failed + 1 }

/-- The next iteration of the loop. -/
def next (d : Drain) (outcome : PublishOutcome) : Option Drain :=
  match d.todo with
  | [] => none
  | r :: todo => some { d.process r outcome with todo }

/-- The rewrite: the file is read again, and records of the snapshot are left out
of what is appended. -/
def commit (d : Drain) (file : List RawLine) : List RawLine :=
  let processedKeys := d.entries.map QueueRecord.key
  let newArrivals := (readAll file).filter fun r => !processedKeys.contains r.key
  writeAll (d.remaining ++ newArrivals)

end Drain

/-- A record reads back as the record that was written. -/
@[simp]
theorem parseRecord_toJson (r : QueueRecord) : parseRecord r.toJson = some r := by
  obtain ⟨entryId, payload, queuedAt, retryCount, lastError, revision⟩ := r
  cases lastError <;> cases revision <;>
    simp [QueueRecord.toJson, parseRecord, Json.field?]

@[simp]
theorem readAll_writeAll (entries : List QueueRecord) : readAll (writeAll entries) = entries := by
  induction entries with
  | nil => rfl
  | cons r entries ih =>
      have hr : RawLine.parse (.json r.toJson) = some r := parseRecord_toJson r
      simpa [readAll, writeAll, hr] using ih

/-- What the cap counts is what the file holds. -/
@[simp]
theorem fileBytes_writeAll (entries : List QueueRecord) :
    fileBytes (writeAll entries) = queuedBytes entries := by
  simp only [fileBytes, writeAll, queuedBytes, List.map_map]
  rfl

theorem writeAll_append (xs ys : List QueueRecord) :
    writeAll (xs ++ ys) = writeAll xs ++ writeAll ys := by
  simp [writeAll]

theorem queuedBytes_append (xs ys : List QueueRecord) :
    queuedBytes (xs ++ ys) = queuedBytes xs + queuedBytes ys := by
  simp [queuedBytes]

theorem queuedBytes_sublist {xs ys : List QueueRecord} (h : xs.Sublist ys) :
    queuedBytes xs ≤ queuedBytes ys :=
  (h.map QueueRecord.serializedSize).sum_le_sum fun _ _ => Nat.zero_le _

@[simp]
theorem failedRecord_key (r : QueueRecord) (error : String) (payload : Payload) :
    (Drain.failedRecord r error payload).key = r.key := rfl

end TrwMemory.Sync

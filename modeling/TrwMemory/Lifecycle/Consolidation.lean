import Mathlib.Data.List.MinMax
import TrwMemory.Lifecycle.Merge
import TrwMemory.Library.Programs
import TrwMemory.Security.QuarantineLedger
import TrwMemory.Storage.EntryStore
import TrwMemory.Tools.StoreInterleavings

/-!
One cluster's write step (`_write_cluster` of `lifecycle/consolidation.py`, and
`_consolidation_rollback.py`): the rows are read again, one entry is written for all of them, each
of them is archived into it, and what was done is undone when a step raises. Other writers write
the store between two of its calls, and each call may raise.

A backend without transactions is one whose `transaction` passes through. Vectors are left out but
for the failure of their encoder and of their write, and the graph update that is scheduled but for
the errors that scheduling it may raise; logs and the text of errors are left out. The quarantine
ledger does not change meanwhile.
-/
namespace TrwMemory.Lifecycle

open Library Library.Jobs Library.Keyset Storage Sync Tools

def CONSOLIDATION_TAGS_MAX : Nat := 20

/-- `capped_tags`: the tags that most members share, ties by name. -/
def cappedTags (cluster : List MemoryEntry) : List String :=
  let tags := cluster.flatMap fun e => e.tags.eraseDups
  let keep := (sortOn (fun tag => toLex (-(tags.count tag : Int), tag)) tags.eraseDups).take
    CONSOLIDATION_TAGS_MAX
  sortOn id keep

/-- The results of an earlier verification do not belong to the new claim. -/
def unverifiedAssertion (a : Assertion) : Assertion :=
  { a with lastResult := none, lastVerifiedAt := none, lastEvidence := "", firstFailedAt := none }

/-- `merged_entry_fields`, which raises for no entry. -/
def mergedEntryFields (cluster : List MemoryEntry) : Option Patch := do
  let bestSource ← cluster.argmax MemoryEntry.importance
  let first ← cluster.head?
  let protectionTier := cluster.tail.foldl
    (fun tier e => stronger protectionRank tier e.protectionTier) first.protectionTier
  let assertions := cluster.tail.foldl (fun all e => unionAssertions all e.assertions)
    first.assertions
  return ((((((((((((((Patch.none.set .source .consolidated).set .sourceIdentity
    bestSource.sourceIdentity).set .clientProfile bestSource.clientProfile).set .modelId
    bestSource.modelId).set .consolidatedFrom (cluster.map MemoryEntry.id)).set .importance
    bestSource.importance).set .tags (cappedTags cluster)).set .evidence
    (cluster.flatMap MemoryEntry.evidence).eraseDups).set .recurrence cluster.length).set
    .accessCount (cluster.map MemoryEntry.accessCount).sum).set .recallCount
    (cluster.map MemoryEntry.recallCount).sum).set .protectionTier protectionTier).set .assertions
    (assertions.map unverifiedAssertion)).set .status .active)

/-- What `_summarize_cluster_fallback` takes from the longest member. -/
structure Summary where
  summary : String
  detail : String
  deriving DecidableEq, Repr

def summarizeClusterFallback (cluster : List MemoryEntry) : Option Summary :=
  (cluster.argmax fun e => e.content.length + e.detail.length).map fun best =>
    ⟨best.content, best.detail⟩

inductive CycleError where
  | backend (error : WriteError)
  | encoder
  | invalid
  | unscheduled
  | unarchived (id : String)
  | undeleted (id : String)
  deriving DecidableEq, Repr

/-- What the store and the process around a cycle do; `held` are the keys that the quarantine ledger
blocks. A backend with vectors has transactions. `schedules` is whether `schedule_graph_update`
returns for an entry or raises the `RuntimeError` that is caught; it may raise another error, as
where the graph's settings are invalid. -/
structure Consolidator (τ : Type) where
  digest : SyncContent → String
  token : MemoryEntry → τ
  contentDigest : String → String
  held : Security.LedgerKey → Bool
  localNodeId : String → String
  encode : String → Except CycleError (Option (List Rat))
  schedules : MemoryEntry → Bool
  clock : Nat → Datetime
  setting : Setting EntryStore
  supportsVectors : Bool
  vectors_atomic : supportsVectors = true → setting.atomic = true

variable {τ : Type} (c : Consolidator τ)

namespace Consolidator

def blocks (e : MemoryEntry) : Bool := (Security.entryIdentityKeys c.contentDigest e).any c.held

/-- `_entry_vector`. -/
def entryVector (text : String) : Except CycleError (Option (List Rat)) :=
  if c.supportsVectors then c.encode text else .ok none

/-- What `get` makes of a row. -/
def readRow (row : Option MemoryEntry) : Except CycleError (Option MemoryEntry) :=
  match row with
  | none => .ok none
  | some row =>
      match rowToEntry row with
      | none => .error (.backend (.unreadable row.id))
      | some entry => .ok (if c.blocks (servedView entry) then none else some (servedView entry))

/-- What `get` returns of a store. -/
def reads (s : EntryStore) (k : RowKey) : Except CycleError (Option MemoryEntry) :=
  c.readRow (s.table.find k)

def getEntry (k : RowKey) : Program EntryStore CycleError (Option MemoryEntry) := fun s =>
  (c.reads s k, s)

def storeEntry (entry : MemoryEntry) : Program EntryStore CycleError Unit := fun s =>
  match storeRow c.digest (s.table.find (rowKey entry)) entry with
  | .ok row => (.ok (), s.insert row)
  | .error error => (.error (.backend error), s)

/-- `update`: whether it returns an entry. -/
def updateEntry (k : RowKey) (fields : Patch) (now : Datetime) :
    Program EntryStore CycleError Bool := fun s =>
  match s.table.find k with
  | none => (.ok false, s)
  | some row =>
      match rowToEntry row with
      | none => (.error (.backend (.unreadable row.id)), s)
      | some existing =>
          if c.blocks (servedView existing) then (.ok false, s)
          else
            match finishUpdate c.digest row existing fields now with
            | .ok written => (.ok !c.blocks (readOf written), s.insert written)
            | .error error => (.error (.backend error), s)

/-- `delete`: whether there was a row. -/
def deleteEntry (k : RowKey) : Program EntryStore CycleError Bool := fun s =>
  (.ok (s.holdsId k), s.delete k)

/-- What archival writes; a window that is closed keeps its closer. -/
def closeFields (consolidatedId : String) (closeAt now : Datetime) (entry : MemoryEntry) : Patch :=
  let fields := ((Patch.none.set .consolidatedInto (some consolidatedId)).set .status .archived).set
    .updatedAt now
  if entry.invalidFrom.isNone then
    (fields.set .invalidFrom (some closeAt)).set .invalidatedBy (some consolidatedId)
  else fields

/-- `_archive_originals`. -/
def archiveOriginals (cluster : List MemoryEntry) (consolidatedId : String)
    (invalidFrom : Datetime) : Job EntryStore CycleError Unit :=
  transaction c.setting <| Program.each (fun entry => do
    let now ← reading c.clock
    let updated ← call c.setting <|
      c.updateEntry (rowKey entry) (closeFields consolidatedId invalidFrom now entry) now
    if updated then pure () else Program.fail (.own (.unarchived entry.id))) cluster

/-- What is put back: the fields that still hold what archival wrote. -/
def undoFields (consolidatedId : String) (entry current : MemoryEntry) : Patch :=
  let fields := Patch.none
  let fields := if current.consolidatedInto = some consolidatedId then
    fields.set .consolidatedInto entry.consolidatedInto else fields
  let fields := if current.status = .archived then
    (fields.set .status entry.status).set .updatedAt entry.updatedAt else fields
  if current.invalidatedBy = some consolidatedId then
    (fields.set .invalidatedBy entry.invalidatedBy).set .invalidFrom entry.invalidFrom
  else fields

/-- One turn of `_restore_originals`. -/
def restoreOriginal (consolidatedId : String) (entry : MemoryEntry) :
    Job EntryStore CycleError Unit := do
  match ← call c.setting (c.getEntry (rowKey entry)) with
  | none => pure ()
  | some current =>
      let undo := undoFields consolidatedId entry current
      if undo.names .consolidatedInto then do
        let now ← reading c.clock
        let _ ← call c.setting (c.updateEntry (rowKey entry) undo now)
        pure ()
      else pure ()

/-- `_restore_originals`. -/
def restoreOriginals (cluster : List MemoryEntry) (consolidatedId : String) :
    Job EntryStore CycleError Unit :=
  transaction c.setting <| Program.each (c.restoreOriginal consolidatedId) cluster

/-- `_rollback_consolidation`. -/
def rollbackConsolidation (cluster : List MemoryEntry) (newEntry : MemoryEntry) :
    Job EntryStore CycleError Unit := do
  c.restoreOriginals cluster newEntry.id
  let deleted ← call c.setting (deleteEntry (rowKey newEntry))
  if deleted then pure () else Program.fail (.own (.undeleted newEntry.id))

def consolidatedId (hex : String) : String := "M-" ++ hex

theorem consolidatedId_ne (hex : String) : consolidatedId hex ≠ "" := by
  intro h
  have hlist := congrArg String.toList h
  rw [consolidatedId, String.toList_append] at hlist
  cases hlist

/-- The entry that `_create_consolidated_entry` builds. -/
def mergedEntry (hex ns : String) (now : Datetime) (cluster : List MemoryEntry) (chosen : Summary) :
    Option MemoryEntry := do
  let fields ← mergedEntryFields cluster
  newEntry ⟨ns, consolidatedId hex⟩ (consolidatedId_ne hex) (c.localNodeId ns) now
    ((fields.set .content chosen.summary).set .detail chosen.detail)

/-- The row and its vector, in one transaction. -/
def persist (entry : MemoryEntry) (embedding : Option (List Rat)) :
    Job EntryStore CycleError Unit :=
  transaction c.setting do
    call c.setting (c.storeEntry entry)
    if embedding.isSome then call c.setting (pure ()) else pure ()

/-- `_create_consolidated_entry`. -/
def createConsolidatedEntry (hex ns : String) (cluster : List MemoryEntry) (chosen : Summary)
    (vector : Option (List Rat)) : Job EntryStore CycleError MemoryEntry := do
  let now ← reading c.clock
  match c.mergedEntry hex ns now cluster chosen with
  | none => Program.fail (.own .invalid)
  | some entry =>
      match vector.elim (c.entryVector (entry.content ++ " " ++ entry.detail)) (.ok ∘ some) with
      | .error error => Program.fail (.own error)
      | .ok embedding => do
          c.persist entry embedding
          if c.schedules entry then pure entry else Program.fail (.own .unscheduled)

/-- What one cluster's write step reports. -/
inductive ClusterOutcome where
  | written
  | skipped
  | failed (ids : List String) (error : JobError CycleError)
  deriving DecidableEq, Repr

/-- The rows as they are now, of those that have not changed since they were clustered. -/
def currentRows [DecidableEq τ] (fresh : List (Option MemoryEntry)) (cluster : List MemoryEntry) :
    List MemoryEntry :=
  (fresh.zip cluster).filterMap fun pair =>
    pair.1.filter fun now => revisionOf c.token now = revisionOf c.token pair.2

/-- What follows the creation: the archival, or its undoing. -/
def archiveOrUndo (ids : List String) (current : List MemoryEntry) (new : MemoryEntry) :
    Job EntryStore CycleError ClusterOutcome := do
  match ← Program.attempt (c.archiveOriginals current new.id new.validFrom) with
  | .ok () => pure .written
  | .error error => do
      c.rollbackConsolidation current new
      pure (.failed ids error)

/-- `_write_cluster`. -/
def writeCluster [DecidableEq τ] (hex ns : String) (cluster : List MemoryEntry) (chosen : Summary)
    (vector : Option (List Rat)) : Job EntryStore CycleError ClusterOutcome := do
  let ids := cluster.map MemoryEntry.id
  let fresh ← collect (fun e => call c.setting (c.getEntry (rowKey e))) cluster
  let current := c.currentRows fresh cluster
  if current.length < cluster.length then pure .skipped
  else
    match ← Program.attempt (c.createConsolidatedEntry hex ns current chosen vector) with
    | .error error => pure (.failed ids error)
    | .ok new => c.archiveOrUndo ids current new

end Consolidator

end TrwMemory.Lifecycle

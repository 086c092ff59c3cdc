import TrwMemory.Security.QuarantineLedger
import TrwMemory.Storage.EntryStore

/-!
Intake, review and deletion of held entries (`security/_runtime_quarantine.py`). A call
reads first and then makes its writes one after another, each committed by itself: in the
active store, in the quarantine store, in its review log and in the ledger. It may raise
after any number of them.

One lock orders the calls on a quarantine store. Writers of the active store do not take
it; the check of an approval and its insert are one transaction there. `screen` is the
schema check and the PII policy that an approval runs again.
-/
namespace TrwMemory.Security

open Library.Keyed Library.Transition Storage Sync

/-- What the checks of an approval make of an entry; it keeps its key. -/
structure EntryScreen where
  run : MemoryEntry → Except String MemoryEntry
  keeps : ∀ e e', run e = .ok e' → rowKey e' = rowKey e

/-- The digests and checks of a configuration. -/
structure ReviewConfig where
  syncDigest : SyncContent → String
  contentDigest : String → String
  screen : EntryScreen

/-- The decisions of `quarantine_reviews`. -/
inductive ReviewStatus where
  | quarantined | approveBlocked | approveConflict | active | obsoletePoisoned
  deriving DecidableEq, Repr

/-- The statuses that close a review. -/
def ReviewStatus.resolves : ReviewStatus → Bool
  | .active | .obsoletePoisoned => true
  | _ => false

/-- A row of `quarantine_reviews`. -/
structure ReviewRow where
  key : RowKey
  decision : ReviewStatus
  reviewerId : String
  reviewedAt : Datetime
  deriving DecidableEq, Repr

structure QuarantineState where
  active : EntryStore
  held : EntryStore
  reviews : List ReviewRow
  ledger : List StoredRow

inductive QuarantineWrite where
  | storeActive (entry : MemoryEntry)
  | storeHeld (entry : MemoryEntry)
  | deleteHeld (k : RowKey)
  | appendReview (row : ReviewRow)
  | appendLedger (a : Append)

def QuarantineWrite.apply (config : ReviewConfig) (s : QuarantineState) :
    QuarantineWrite → QuarantineState
  | .storeActive entry => { s with active := s.active.store config.syncDigest entry }
  | .storeHeld entry => { s with held := s.held.store config.syncDigest entry }
  | .deleteHeld k => { s with held := s.held.delete k }
  | .appendReview row => { s with reviews := s.reviews ++ [row] }
  | .appendLedger a => { s with ledger := s.ledger ++ [appendedRow s.ledger a] }

def applyAll (config : ReviewConfig) (writes : List QuarantineWrite) (s : QuarantineState) :
    QuarantineState :=
  writes.foldl (QuarantineWrite.apply config) s

def heldEntry (e : MemoryEntry) (now : Datetime) : MemoryEntry :=
  { e with
    metadata := (e.metadata.insert "quarantined" "true").insert "quarantined_at" now.isoformat }

def ledgerAppend (config : ReviewConfig) (e : MemoryEntry) (decision : LedgerDecision)
    (reason actor : String) (now : Datetime) : Append where
  identity := LedgerIdentity.of config.contentDigest e "" []
  decision
  reason
  actor
  recordedAt := now

/-- The writes of an intake; `clock` gives its readings of the time in their order. -/
def intakeWrites (config : ReviewConfig) (clock : Nat → Datetime) (e : MemoryEntry) :
    List QuarantineWrite :=
  [.storeHeld (heldEntry e (clock 0)),
    .appendReview ⟨rowKey e, .quarantined, "system", clock 1⟩,
    .appendLedger (ledgerAppend config e .quarantined "held at store intake" "system" (clock 2))]

def heldFlag (e : MemoryEntry) : Bool := e.metadata.lookup "quarantined" == some "true"

/-- With `memory_id`. -/
def deleteHeldById (held : EntryStore) (k : RowKey) : EntryStore :=
  match held.get k with
  | none => held
  | some entry => if heldFlag entry then held.delete k else held

/-- Without `memory_id`. -/
def deleteHeldOf (held : EntryStore) (ns : String) (actor : Option String) : EntryStore :=
  ((held.listEntries (fun _ => true) ns 10000).filter fun entry =>
      actor.all (entry.sourceIdentity == ·) && heldFlag entry).foldl
    (fun held entry => held.delete (rowKey entry)) held

inductive ReviewDecision where
  | approve | reject
  deriving DecidableEq, Repr

def DEFAULT_NAMESPACE : String := "default"

structure ReviewCall where
  learningId : String
  decision : ReviewDecision
  reviewerId : String
  ns : Option String
  deriving DecidableEq, Repr

/-- The key in the effective namespace. -/
def ReviewCall.key (call : ReviewCall) : RowKey := ⟨call.ns.getD DEFAULT_NAMESPACE, call.learningId⟩

inductive ReviewAnswer where
  | alreadyResolved (status : ReviewStatus)
  | notFound
  | blocked (reason : String)
  | unsupportedBackend
  | conflict
  | approved
  | rejected
  deriving DecidableEq, Repr

/-- `get_status_history`. -/
def statusHistory (reviews : List ReviewRow) (k : RowKey) : List ReviewRow :=
  reviews.filter fun row => row.key == k

/-- The first status of the history that closes the review. -/
def resolvedStatus (reviews : List ReviewRow) (k : RowKey) : Option ReviewStatus :=
  ((statusHistory reviews k).map ReviewRow.decision).find? ReviewStatus.resolves

def approvedEntry (e : MemoryEntry) (reviewerId : String) : MemoryEntry :=
  { e with
    metadata := ((e.metadata.insert "quarantined" "false").insert "reviewed_by" reviewerId).insert
      "review_decision" "approve" }

def rejectedEntry (e : MemoryEntry) (reviewerId : String) : MemoryEntry :=
  { e with
    metadata := ((e.metadata.insert "reviewed_by" reviewerId).insert
      "review_decision" "reject").insert "security_status" "obsolete_poisoned" }

/-- The approval of a held entry; `transactional` tells the active backend. -/
def approveScript (config : ReviewConfig) (clock : Nat → Datetime) (transactional : Bool)
    (active : EntryStore) (call : ReviewCall) (entry : MemoryEntry) :
    ReviewAnswer × List QuarantineWrite :=
  match config.screen.run entry with
  | .error reason =>
      (.blocked reason, [.appendReview ⟨call.key, .approveBlocked, call.reviewerId, clock 0⟩])
  | .ok revalidated =>
      if !transactional then (.unsupportedBackend, [])
      else if active.holdsId call.key then
        (.conflict, [.appendReview ⟨call.key, .approveConflict, call.reviewerId, clock 0⟩])
      else
        (.approved,
          [.storeActive (approvedEntry revalidated call.reviewerId),
            .deleteHeld call.key,
            .appendReview ⟨call.key, .active, call.reviewerId, clock 0⟩,
            .appendLedger
              (ledgerAppend config entry .approved "review approve" call.reviewerId (clock 1))])

def rejectScript (config : ReviewConfig) (clock : Nat → Datetime) (call : ReviewCall)
    (entry : MemoryEntry) : ReviewAnswer × List QuarantineWrite :=
  (.rejected,
    [.storeHeld (rejectedEntry entry call.reviewerId),
      .appendReview ⟨call.key, .obsoletePoisoned, call.reviewerId, clock 0⟩,
      .appendLedger
        (ledgerAppend config entry .rejected "review reject" call.reviewerId (clock 1))])

/-- `_review_quarantined_entry_locked`: the answer and the writes before it. -/
def reviewScript (config : ReviewConfig) (clock : Nat → Datetime) (transactional : Bool)
    (s : QuarantineState) (call : ReviewCall) : ReviewAnswer × List QuarantineWrite :=
  match resolvedStatus s.reviews call.key with
  | some status => (.alreadyResolved status, [])
  | none =>
      match s.held.get call.key with
      | none => (.notFound, [])
      | some entry =>
          match call.decision with
          | .approve => approveScript config clock transactional s.active call entry
          | .reject => rejectScript config clock call entry

theorem rowKey_heldEntry (e : MemoryEntry) (now : Datetime) : rowKey (heldEntry e now) = rowKey e :=
  rfl

theorem rowKey_rejectedEntry (e : MemoryEntry) (reviewerId : String) :
    rowKey (rejectedEntry e reviewerId) = rowKey e := rfl

theorem resolvedStatus_concat (reviews : List ReviewRow) (row : ReviewRow) (k : RowKey) :
    resolvedStatus (reviews ++ [row]) k =
      (resolvedStatus reviews k).or
        (if row.key = k ∧ row.decision.resolves = true then some row.decision else none) := by
  rw [resolvedStatus, statusHistory, List.filter_append, List.map_append, List.find?_append,
    resolvedStatus, statusHistory]
  congr 1
  by_cases hkey : row.key = k
  · cases hres : row.decision.resolves <;> simp [hkey, hres]
  · simp [hkey]

theorem holdsId_deleteHeldById {held : EntryStore} {k k' : RowKey}
    (h : (deleteHeldById held k').holdsId k = true) : held.holdsId k = true := by
  unfold deleteHeldById at h
  split at h
  · exact h
  · split at h
    · rw [EntryStore.holdsId, EntryStore.find_delete] at h
      split at h
      · cases h
      · exact h
    · exact h

theorem holdsId_foldl_delete {entries : List MemoryEntry} {held : EntryStore} {k : RowKey}
    (h : (entries.foldl (fun held entry => held.delete (rowKey entry)) held).holdsId k = true) :
    held.holdsId k = true := by
  induction entries generalizing held with
  | nil => exact h
  | cons entry entries ih =>
      have hrest := ih h
      rw [EntryStore.holdsId, EntryStore.find_delete] at hrest
      split at hrest
      · cases hrest
      · exact hrest

def admitted : EntryScreen := ⟨.ok, fun e e' h => by cases h; rfl⟩

def reviewed : ReviewConfig := ⟨fun _ => "", sampleDigest, admitted⟩

def noon : Nat → Datetime := fun _ => ⟨63839966400000000, some 0⟩

def submission (content : String) : MemoryEntry :=
  MemoryEntry.ofDefaults "a" content "project:south" (noon 0) a_ne_empty

def reviewOf (decision : ReviewDecision) : ReviewCall :=
  ⟨"a", decision, "reviewer", some "project:south"⟩

end TrwMemory.Security

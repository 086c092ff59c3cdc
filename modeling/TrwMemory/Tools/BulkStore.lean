import TrwMemory.Sync.PulledRows
import TrwMemory.Tools.StoreEntry
import TrwMemory.Tools.StoreInterleavings

/-!
`bulk_store` beside `MemoryClient.store` of its requests one by one
(`_client_bulk_store.py`, `_client_store.py`). The batch reads, builds and screens every
request on the store as it finds it, and then writes each entry that it has accepted in a
transaction of its own.

The rate limit and remote publishing are off, the encoder answers for every text by itself,
and the clock stands still. The gate has no branch that quarantines. Tiers, graph, audit log
and the record of a team namespace are not modelled.
-/
namespace TrwMemory.Tools

open Library.Keyed Storage Sync

/-- A request, with the id that `new_memory_id` draws for it where it needs one. -/
structure BulkStoreRequest where
  content : String
  detail : String
  tags : List String
  importance : Rat
  metadata : Metadata
  source : Source
  sourceIdentity : String
  sessionId : Option String
  entryId : Option String
  evidence : Option (List String)
  expires : String
  assertions : Option (List Assertion)
  drawn : { id : String // id ≠ "" }

def MAX_TEXT_FIELD_CHARS : Nat := 64 * 1024

/-- `validate_store_inputs`: the fields that fail. -/
def BulkStoreRequest.failedFields (r : BulkStoreRequest) : List String :=
  (if r.entryId.any fun id => MAX_ENTRY_ID_CHARS < id.length then ["id"] else []) ++
    (if pyBlank r.content || MAX_TEXT_FIELD_CHARS < r.content.length then ["content"] else []) ++
    (if MAX_TEXT_FIELD_CHARS < r.detail.length then ["detail"] else []) ++
    (if 0 ≤ r.importance ∧ r.importance ≤ 1 then [] else ["importance"]) ++
    (if (r.assertions.getD []).any overlong then ["assertions"] else [])

/-- `entry_id or new_memory_id()`. -/
def BulkStoreRequest.memoryId (r : BulkStoreRequest) : { id : String // id ≠ "" } :=
  match r.entryId with
  | none => r.drawn
  | some id => if h : id = "" then r.drawn else ⟨id, h⟩

/-- A client, with what it stores through. `defaultsResolve` is `verify_defaults`; the
encoder is absent, too, where nothing takes its vectors. -/
structure StoringClient where
  ns : String
  installationId : String
  localNodeId : String
  digest : SyncContent → String
  digests : Digests
  writer : Writer
  blocks : MemoryEntry → Bool
  defaultsResolve : Bool
  intake : Option String → Intake
  encode : String → Option (List Rat × Option EmbeddingSpace)
  now : Datetime

inductive StoreOp where
  | store | update
  deriving DecidableEq, Repr

inductive ItemStatus where
  | stored | updated | quarantined | rejected
  deriving DecidableEq, Repr

def StoreOp.status : StoreOp → ItemStatus
  | store => .stored
  | update => .updated

/-- What a request comes to before anything is written. What raises escapes the batch. -/
inductive Decision where
  | raises
  | rejected
  | accepted (entry : MemoryEntry) (op : StoreOp)

/-- What a decision lets through. -/
def Decision.taken : Decision → Option (MemoryEntry × StoreOp)
  | .accepted entry op => some (entry, op)
  | _ => none

/-- The same rows under every key, and the same vectors but for those of `apart`. -/
structure AgreeBut (apart : RowKey → Prop) (a b : Db) : Prop where
  memories : ∀ k, a.memories.find k = b.memories.find k
  vectors : ∀ k, ¬apart k → a.vectors.find k = b.vectors.find k

namespace StoringClient

variable (c : StoringClient)

def request (r : BulkStoreRequest) : StoreRequest where
  key := ⟨c.ns, r.memoryId⟩
  key_ne := r.memoryId.2
  content := r.content
  detail := r.detail
  tags := r.tags
  importance := r.importance
  metadata := r.metadata
  expires := r.expires
  evidence := r.evidence
  assertions := r.assertions
  source := r.source
  sourceIdentity := r.sourceIdentity
  facets := Patch.none
  installationId := c.installationId
  localNodeId := c.localNodeId
  now := c.now

/-- The read of `_existing_entry_for_namespace`, for an id that the caller has named. -/
def existingEntry (db : Db) (r : BulkStoreRequest) : Except WriteError (Option MemoryEntry) :=
  if r.entryId.isSome then backendGet c.blocks db (c.request r).key else .ok none

/-- The gate has refused the entry for its key alone. -/
def keyless (i : Intake) (e : MemoryEntry) : Bool :=
  let flagged := flagCodeSnippet i.isCode (stripReservedMetadata e)
  i.admits flagged && (applyPiiPolicy i flagged).isSome

/-- `prepare_entry_for_store` with its classification, and what the batch makes of a
refusal: only a `SecurityDependencyError` escapes. -/
def prepare (db : Db) (r : BulkStoreRequest) (built : MemoryEntry) : Decision :=
  match backendGet c.blocks db (rowKey built) with
  | .error _ => .rejected
  | .ok found =>
      if !c.defaultsResolve then .raises
      else
        match prepareEntryForStore (c.intake r.sessionId) built with
        | some entry => .accepted entry (if found.isSome then .update else .store)
        | none => if keyless (c.intake r.sessionId) built then .raises else .rejected

def decision (path : StorePath) (db : Db) (r : BulkStoreRequest) : Decision :=
  if r.failedFields ≠ [] then .rejected
  else
    match c.existingEntry db r with
    | .error _ => .raises
    | .ok existing =>
        -- `MemoryNotFoundError`
        if existing.any fun e => e.ns != c.ns then .rejected
        else
          match buildStoreEntry path (c.request r) existing with
          | none => .raises
          | some built => c.prepare db r built

def embedded (e : MemoryEntry) : EmbedResult :=
  match c.encode (embeddingText e) with
  | none => .absent
  | some (embedding, space) => .vector embedding space

/-- `store_impl`: whatever it raises is a rejection. -/
def store (db : Db) (r : BulkStoreRequest) : ItemStatus × Db :=
  match c.decision .clientStore db r with
  | .raises | .rejected => (.rejected, db)
  | .accepted entry op =>
      match clientStore c.digest c.digests c.writer entry (c.embedded entry) db with
      | (written, .committed) => (op.status, written)
      | (kept, _) => (.rejected, kept)

def storeEach (db : Db) : List BulkStoreRequest → List ItemStatus × Db
  | [] => ([], db)
  | r :: rest =>
      let (status, stored) := c.store db r
      let (statuses, last) := storeEach stored rest
      (status :: statuses, last)

/-- The pass that writes nothing; `none` is its exception. -/
def plan (db : Db) : List BulkStoreRequest → Option (List Decision)
  | [] => some []
  | r :: rest =>
      match c.decision .bulkStore db r with
      | .raises => none
      | decided => (plan db rest).map (decided :: ·)

/-- The writes; the first one that fails raises, and what came before it is committed. -/
def persist : List Decision → Db → Option (List ItemStatus) × Db
  | [], db => (some [], db)
  | .accepted entry op :: rest, db =>
      match bulkStore c.digest c.digests c.writer entry (c.embedded entry) db with
      | (written, .committed) =>
          let (statuses, last) := persist rest written
          (statuses.map (op.status :: ·), last)
      | (kept, _) => (none, kept)
  | _ :: rest, db =>
      let (statuses, last) := persist rest db
      (statuses.map (.rejected :: ·), last)

/-- `bulk_store_impl`: the statuses of its items, or an exception. -/
def bulkStoreImpl (db : Db) (requests : List BulkStoreRequest) : Option (List ItemStatus) × Db :=
  if requests.isEmpty then (none, db)
  else
    match c.plan db requests with
    | none => (none, db)
    | some decisions => c.persist decisions db

theorem fields_without_facets {r : StoreRequest} (hfacets : r.facets = Patch.none)
    (existing : Option MemoryEntry) :
    r.fields .clientStore existing = r.fields .bulkStore existing := by
  have hnone : ∀ path : StorePath,
      (fun col : Column => if col ∈ path.facets then r.facets col else none) = Patch.none := by
    intro path
    funext col
    rw [hfacets]
    exact ite_self none
  have hmetadata : r.entryMetadata .clientStore existing = r.entryMetadata .bulkStore existing := by
    simp [StoreRequest.entryMetadata]
  unfold StoreRequest.fields
  dsimp only
  rw [hnone, hnone, hmetadata]

/-- A request of the batch is decided as the single store decides it. -/
theorem decision_clientStore (db : Db) (r : BulkStoreRequest) :
    c.decision .clientStore db r = c.decision .bulkStore db r := by
  have hbuild : ∀ existing, buildStoreEntry .clientStore (c.request r) existing =
      buildStoreEntry .bulkStore (c.request r) existing := by
    intro existing
    cases existing with
    | none => exact congrArg (newEntry _ _ _ _) (fields_without_facets rfl none)
    | some e => exact congrArg (some <| reviseEntry e _ _ ·) (fields_without_facets rfl (some e))
  unfold decision
  simp only [hbuild]

/-- No check refuses the row. -/
def writable (db : Db) (entry : MemoryEntry) : Bool :=
  (storeRow c.digest (db.memories.find (rowKey entry)) entry).isOk

section Writes

variable {c} {entry : MemoryEntry} {db start : Db} (hstart : start.memories = db.memories)
include hstart

theorem finishStore_refused (h : c.writable db entry = false) :
    finishStore db (storeWithVector c.digest c.digests c.writer entry
      ((c.embedded entry).encoded c.digests (embeddingText entry)) start) = (db, .failed) := by
  unfold writable at h
  unfold storeWithVector storeScript
  rw [hstart]
  cases hrow : storeRow c.digest (db.memories.find (rowKey entry)) entry with
  | error e => rfl
  | ok row => rw [hrow] at h; cases h

theorem finishStore_writable (h : c.writable db entry = true) :
    ∃ written, finishStore db (storeWithVector c.digest c.digests c.writer entry
        ((c.embedded entry).encoded c.digests (embeddingText entry)) start) =
          (written, .committed) ∧
      written.memories = db.memories.put (rowKey entry) (stampSync c.digest entry) ∧
      written.vectors = upserted c.writer (rowKey entry)
        ((c.embedded entry).encoded c.digests (embeddingText entry)) start.vectors := by
  cases hwritten : storeWithVector c.digest c.digests c.writer entry
      ((c.embedded entry).encoded c.digests (embeddingText entry)) start with
  | some written =>
      obtain ⟨hmemories, hvectors⟩ := storeWithVector_some hwritten
      exact ⟨written, rfl, hstart ▸ hmemories, hvectors⟩
  | none =>
      unfold writable at h
      unfold storeWithVector storeScript at hwritten
      rw [hstart] at hwritten
      cases hrow : storeRow c.digest (db.memories.find (rowKey entry)) entry with
      | error e => rw [hrow] at h; cases h
      | ok row =>
          rw [hrow] at hwritten
          simp only [Except.map] at hwritten
          cases hvector : (c.embedded entry).encoded c.digests (embeddingText entry) with
          | none => rw [hvector] at hwritten; cases hwritten
          | some vector =>
              have hproof := (encoded_matches (Option.mem_def.mpr hvector)).2
              rw [hvector] at hwritten
              dsimp only at hwritten
              rw [upsertVector_eq fun p hp => (hproof p hp).2] at hwritten
              cases hwritten

end Writes

end StoringClient

end TrwMemory.Tools

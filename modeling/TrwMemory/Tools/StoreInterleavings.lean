import TrwMemory.Library.Transition
import TrwMemory.Storage.VectorOps
import TrwMemory.Tools.StoreEntry

/-!
The write transactions of `memory_store`, `MemoryClient.store` and one row of
`bulk_store` (`tools/store.py`, `_client_store.py`, `_client_bulk_store.py`). The entry,
the row it was built from and what the encoder answered come from before the
transaction, and may be stale. A transaction that raises leaves the store as it was;
`MemoryClient.store` raises then, and `bulk_store` stops.

Stores of many processes, interleaved: each reads the row it will revise, has its text
encoded, and writes. `memory_store` writes only over the revision it has read; the two
client paths write over whatever is there.

A row that the quarantine ledger hides is read as absent, by the check as well. Locks
within one process only remove interleavings, and are not modelled.
-/
namespace TrwMemory.Tools

open Library.Keyed Storage Sync

/-- What the encoder answered: there is none or it is not asked, it raised, or it
returned a vector, in a space that it may not report. -/
inductive EmbedResult where
  | absent
  | failed
  | vector (embedding : List Rat) (space : Option EmbeddingSpace)
  deriving DecidableEq, Repr

/-- The vector of `text` with its proof; a failure leaves none. -/
def EmbedResult.encoded (d : Digests) (text : String) : EmbedResult → Option StoredVector
  | absent | failed => none
  | vector embedding space =>
      some
        { embedding
          provenance := d.generationProvenance space text embedding
          source := text }

/-- What `revision_of` hashes: the row less its bookkeeping fields. -/
def revisionBody (e : MemoryEntry) : MemoryEntry :=
  { e with
    accessCount := 0
    lastAccessedAt := none
    lastSyncedAt := none
    recallCount := 0
    sessionCount := 0
    syncHash := ""
    syncSeq := 0 }

/-- `revision_of`, over a digest of the body. -/
def revisionOf {τ : Type} (token : MemoryEntry → τ) (e : MemoryEntry) : τ := token (revisionBody e)

inductive StoreOutcome where
  | committed | conflict | failed
  deriving DecidableEq, Repr

section Transactions

variable {τ : Type} [DecidableEq τ] (digest : SyncContent → String) (d : Digests)
  (token : MemoryEntry → τ)

/-- The row and its vector in one transaction. -/
def storeWithVector (w : Writer) (entry : MemoryEntry) (vector : Option StoredVector) (db : Db) :
    Option Db :=
  match storeScript digest w.backend db entry with
  | .error _ => none
  | .ok statements =>
      match vector with
      | none => some (execute statements db)
      | some vector => upsertVector d w (rowKey entry) vector (execute statements db)

def finishStore (db : Db) (written : Option Db) : Db × StoreOutcome :=
  match written with
  | none => (db, .failed)
  | some written => (written, .committed)

/-- `memory_store`: written only over the revision that `existing` was. -/
def memoryStore (w : Writer) (blocks : MemoryEntry → Bool) (existing : Option MemoryEntry)
    (entry : MemoryEntry) (result : EmbedResult) (db : Db) : Db × StoreOutcome :=
  if result = .failed then (db, .failed)
  else
    match backendGet blocks db (rowKey entry) with
    | .error _ => (db, .failed)
    | .ok current =>
        if current.map (revisionOf token) ≠ existing.map (revisionOf token) then (db, .conflict)
        else
          finishStore db
            (storeWithVector digest d w entry (result.encoded d (embeddingText entry)) db)

/-- `MemoryClient.store`. -/
def clientStore (w : Writer) (entry : MemoryEntry) (result : EmbedResult) (db : Db) :
    Db × StoreOutcome :=
  if result = .failed then (db, .failed)
  else
    finishStore db
      (storeWithVector digest d w entry (result.encoded d (embeddingText entry))
        (if w.backend.vecAvailable then deleteHypeSiblings (rowKey entry) db else db))

/-- One row of `bulk_store`: a batch that cannot be encoded is stored without vectors. -/
def bulkStore (w : Writer) (entry : MemoryEntry) (result : EmbedResult) (db : Db) :
    Db × StoreOutcome :=
  finishStore db (storeWithVector digest d w entry (result.encoded d (embeddingText entry)) db)

end Transactions

/-- The vectors after an upsert that raises nothing. -/
def upserted (w : Writer) (k : RowKey) (vector : Option StoredVector)
    (vectors : Table RowKey StoredVector) : Table RowKey StoredVector :=
  match vector with
  | none => vectors
  | some vector => if w.lands vector.embedding then vectors.put k vector else vectors

theorem encoded_matches {d : Digests} {text : String} {result : EmbedResult} {v : StoredVector}
    (h : v ∈ result.encoded d text) :
    v.source = text ∧
      ∀ p ∈ v.provenance, p.inputSha256 = d.inputDigest text ∧
        d.matchesVector p v.embedding = true := by
  cases result with
  | absent | failed => cases h
  | vector embedding space =>
      obtain rfl := Option.some.inj h
      exact ⟨rfl, fun p hp => d.generationProvenance_eq hp⟩

/-- A store that commits has replaced the row, and the vector if it has one that lands. -/
theorem storeWithVector_some {digest : SyncContent → String} {d : Digests} {w : Writer}
    {entry : MemoryEntry} {result : EmbedResult} {text : String} {db written : Db}
    (h : storeWithVector digest d w entry (result.encoded d text) db = some written) :
    written.memories = db.memories.put (rowKey entry) (stampSync digest entry) ∧
      written.vectors = upserted w (rowKey entry) (result.encoded d text) db.vectors := by
  unfold storeWithVector storeScript at h
  cases hrow : storeRow digest (db.memories.find (rowKey entry)) entry with
  | error _ => simp [hrow, Except.map] at h
  | ok row =>
      obtain rfl := storeRow_ok hrow
      obtain ⟨hmemories, hvectors⟩ := execute_storeStatements w.backend (stampSync digest entry) db
      simp only [hrow, Except.map] at h
      cases hvector : result.encoded d text with
      | none =>
          simp only [hvector, Option.some.injEq] at h
          subst h
          exact ⟨hmemories, hvectors⟩
      | some vector =>
          have hproof := (encoded_matches (Option.mem_def.mpr hvector)).2
          simp only [hvector, upsertVector_eq fun p hp => (hproof p hp).2, Option.some.injEq] at h
          subst h
          simp only [upserted]
          split
          · exact ⟨hmemories, congrArg (Table.put · (rowKey entry) vector) hvectors⟩
          · exact ⟨hmemories, hvectors⟩

open Library.Transition

/-- A call between its read and its write. -/
structure PendingStore where
  path : StorePath
  request : StoreRequest
  existing : Option MemoryEntry
  entry : MemoryEntry

/-- A call that has ended: what its write found and left. -/
structure StoreRecord where
  pending : PendingStore
  blocks : MemoryEntry → Bool
  before : Db
  after : Db
  outcome : StoreOutcome

structure StoresState where
  db : Db
  pending : Table Nat PendingStore
  ended : List StoreRecord

def StoresState.start (db : Db) : StoresState := ⟨db, .empty, []⟩

/-- A read and the preparation that follows it; `fresh` is an id that the client has just
made. A write. Any other call on the store, such as a deletion. -/
inductive StoresEvent where
  | read (call : Nat) (path : StorePath) (request : StoreRequest) (fresh : Bool)
      (blocks : MemoryEntry → Bool) (intake : Intake)
  | write (call : Nat) (w : Writer) (blocks : MemoryEntry → Bool) (result : EmbedResult)
  | other (b : Backend) (call : Call)

section Machine

variable {τ : Type} [DecidableEq τ] (digest : SyncContent → String) (d : Digests)
  (token : MemoryEntry → τ)

/-- What a call prepares; `none` when it ends here. A fresh id is not looked up. -/
def prepareStore (db : Db) (path : StorePath) (request : StoreRequest) (fresh : Bool)
    (blocks : MemoryEntry → Bool) (intake : Intake) : Option PendingStore :=
  match if fresh then .ok none else backendGet blocks db request.key with
  | .error _ => none
  | .ok existing =>
      (buildStoreEntry path request existing).bind fun built =>
        (prepareEntryForStore intake built).map fun entry => ⟨path, request, existing, entry⟩

def writeStore (w : Writer) (blocks : MemoryEntry → Bool) (p : PendingStore)
    (result : EmbedResult) (db : Db) : Db × StoreOutcome :=
  match p.path with
  | .memoryStore => memoryStore digest d token w blocks p.existing p.entry result db
  | .clientStore => clientStore digest d w p.entry result db
  | .bulkStore => bulkStore digest d w p.entry result db

def storesMachine : Machine StoresState StoresEvent where
  step s e :=
    match e with
    | .read call path request fresh blocks intake =>
        if (s.pending.find call).isSome then none
        else
          match prepareStore s.db path request fresh blocks intake with
          | none => some s
          | some p => some { s with pending := s.pending.put call p }
    | .write call w blocks result =>
        (s.pending.find call).map fun p =>
          let (after, outcome) := writeStore digest d token w blocks p result s.db
          { db := after
            pending := s.pending.discard (· == call)
            ended := s.ended ++ [⟨p, blocks, s.db, after, outcome⟩] }
    | .other b call => some { s with db := call.run digest b s.db }

end Machine

/-- The row that the call's write found is the revision that the call had read, less its
bookkeeping. -/
def StoreRecord.StillRead (r : StoreRecord) : Prop :=
  ∃ current existing, backendGet r.blocks r.before (rowKey r.pending.entry) = .ok (some current) ∧
    r.pending.existing = some existing ∧ revisionBody current = revisionBody existing

/-- A call that does not commit changes nothing. A `memory_store` commits only over what
it has read. A call that commits over the revision it has read advances it. -/
structure StoreRecord.Faithful (r : StoreRecord) : Prop where
  unchanged : r.outcome ≠ .committed → r.after = r.before
  overRead : r.pending.path = .memoryStore → r.outcome = .committed →
    ∃ current, backendGet r.blocks r.before (rowKey r.pending.entry) = .ok current ∧
      current.map revisionBody = r.pending.existing.map revisionBody
  advances : r.outcome = .committed → r.StillRead →
    ∃ old written, r.before.memories.find (rowKey r.pending.entry) = some old ∧
      r.after.memories.find (rowKey r.pending.entry) = some written ∧
      Advances r.pending.request.localNodeId old written

/-- A prepared entry is a revision of the row that was read. -/
def PendingStore.Built (p : PendingStore) : Prop :=
  ∀ existing, p.existing = some existing → Advances p.request.localNodeId existing p.entry

variable {τ : Type} [DecidableEq τ] {digest : SyncContent → String} {d : Digests}
  {token : MemoryEntry → τ}

theorem built_of_prepareStore {db : Db} {path : StorePath} {request : StoreRequest} {fresh : Bool}
    {blocks : MemoryEntry → Bool} {intake : Intake} {p : PendingStore}
    (h : prepareStore db path request fresh blocks intake = some p) : p.Built := by
  unfold prepareStore at h
  split at h
  · cases h
  · rename_i existing _
    obtain ⟨built, hbuilt, hprepared⟩ := Option.bind_eq_some_iff.mp h
    obtain ⟨entry, hentry, rfl⟩ := Option.map_eq_some_iff.mp hprepared
    intro old hold
    obtain rfl : existing = some old := hold
    exact advances_of_prepared hbuilt hentry

/-- What each of the paths does when it commits. -/
theorem finishStore_committed {db after : Db} {written : Option Db}
    (h : finishStore db written = (after, .committed)) : written = some after := by
  cases written with
  | none => cases h
  | some _ => exact congrArg some (Prod.mk.inj h).1

theorem finishStore_unchanged {db after : Db} {written : Option Db} {outcome : StoreOutcome}
    (h : finishStore db written = (after, outcome)) (hne : outcome ≠ .committed) : after = db := by
  cases written with
  | none => exact (Prod.mk.inj h).1.symm
  | some _ => exact absurd (Prod.mk.inj h).2.symm hne

theorem writeStore_unchanged {w : Writer} {blocks : MemoryEntry → Bool} {p : PendingStore}
    {result : EmbedResult} {db after : Db} {outcome : StoreOutcome}
    (h : writeStore digest d token w blocks p result db = (after, outcome))
    (hne : outcome ≠ .committed) : after = db := by
  unfold writeStore at h
  split at h
  · unfold memoryStore at h
    split at h
    · exact (Prod.mk.inj h).1.symm
    · cases hget : backendGet blocks db (rowKey p.entry) with
      | error _ =>
          simp only [hget] at h
          exact (Prod.mk.inj h).1.symm
      | ok current =>
          simp only [hget] at h
          split at h
          · exact (Prod.mk.inj h).1.symm
          · exact finishStore_unchanged h hne
  · unfold clientStore at h
    split at h
    · exact (Prod.mk.inj h).1.symm
    · exact finishStore_unchanged h hne
  · exact finishStore_unchanged h hne

/-- A commit has written the prepared entry. -/
theorem writeStore_row {w : Writer} {blocks : MemoryEntry → Bool} {p : PendingStore}
    {result : EmbedResult} {db after : Db}
    (h : writeStore digest d token w blocks p result db = (after, .committed)) :
    after.memories.find (rowKey p.entry) = some (stampSync digest p.entry) := by
  have hwritten : ∃ found, storeWithVector digest d w p.entry
      (result.encoded d (embeddingText p.entry)) found = some after := by
    unfold writeStore at h
    split at h
    · unfold memoryStore at h
      split at h
      · cases h
      · cases hget : backendGet blocks db (rowKey p.entry) with
        | error _ =>
            simp only [hget] at h
            cases h
        | ok current =>
            simp only [hget] at h
            split at h
            · cases h
            · exact ⟨_, finishStore_committed h⟩
    · unfold clientStore at h
      split at h
      · cases h
      · exact ⟨_, finishStore_committed h⟩
    · exact ⟨_, finishStore_committed h⟩
  obtain ⟨found, hstored⟩ := hwritten
  rw [(storeWithVector_some hstored).1]
  exact Table.find_put_self _ _ _

/-- Two reads with one token are of one body. -/
theorem body_eq_of_revision {τ : Type} {token : MemoryEntry → τ}
    (hcollision : ∀ a b, token a = token b → a = b)
    {current existing : Option MemoryEntry}
    (h : current.map (revisionOf token) = existing.map (revisionOf token)) :
    current.map revisionBody = existing.map revisionBody := by
  cases current with
  | none =>
      cases existing with
      | none => rfl
      | some _ => cases h
  | some e =>
      cases existing with
      | none => cases h
      | some e' => exact congrArg some (hcollision _ _ (Option.some.inj h))

theorem memoryStore_overRead (hcollision : ∀ a b, token a = token b → a = b) {w : Writer}
    {blocks : MemoryEntry → Bool} {existing : Option MemoryEntry} {entry : MemoryEntry}
    {result : EmbedResult} {db after : Db}
    (h : memoryStore digest d token w blocks existing entry result db = (after, .committed)) :
    ∃ current, backendGet blocks db (rowKey entry) = .ok current ∧
      current.map revisionBody = existing.map revisionBody := by
  unfold memoryStore at h
  split at h
  · cases h
  · cases hget : backendGet blocks db (rowKey entry) with
    | error _ =>
        simp only [hget] at h
        cases h
    | ok current =>
        simp only [hget] at h
        split at h
        · cases h
        · rename_i hrevision
          exact ⟨current, rfl, body_eq_of_revision hcollision (Decidable.not_not.mp hrevision)⟩

/-- A row is served with its own clock, and with all of its metadata keys. -/
theorem served_keeps {row entry : MemoryEntry} (hread : rowToEntry row = some entry) :
    (servedView entry).vectorClock = row.vectorClock ∧
      ∀ key ∈ row.metadata, key ∈ (servedView entry).metadata := by
  obtain rfl := rowToEntry_eq hread
  unfold servedView
  split
  · exact ⟨rfl, fun key hkey => hkey⟩
  · exact ⟨rfl, fun key hkey => Finmap.mem_insert.mpr (.inr hkey)⟩

theorem faithful_writeStore (hcollision : ∀ a b, token a = token b → a = b) {w : Writer}
    {blocks : MemoryEntry → Bool} {p : PendingStore} {result : EmbedResult} {db after : Db}
    {outcome : StoreOutcome} (hp : p.Built)
    (h : writeStore digest d token w blocks p result db = (after, outcome)) :
    StoreRecord.Faithful ⟨p, blocks, db, after, outcome⟩ := by
  refine ⟨fun hne => writeStore_unchanged h hne, ?_, ?_⟩
  · rintro hpath rfl
    have hpath : p.path = .memoryStore := hpath
    simp only [writeStore, hpath] at h
    exact memoryStore_overRead hcollision h
  · rintro rfl ⟨current, existing, hget, hexisting, hbody⟩
    obtain ⟨row, entry, hrow, hread, -, rfl⟩ := backendGet_some hget
    obtain ⟨hclock, hkeys⟩ := served_keeps hread
    obtain ⟨hadvances, hmetadata⟩ := hp existing hexisting
    have hsameClock : row.vectorClock = existing.vectorClock :=
      hclock.symm.trans (congrArg MemoryEntry.vectorClock hbody :)
    have hsameMetadata : (servedView entry).metadata = existing.metadata :=
      (congrArg MemoryEntry.metadata hbody :)
    refine ⟨row, stampSync digest p.entry, hrow, writeStore_row h, ?_, ?_⟩
    · rw [hsameClock]
      exact hadvances
    · intro key hkey hfree
      exact hmetadata key (hsameMetadata ▸ hkeys key hkey) hfree

/-- Calls under way are built from what they have read, and ended calls were faithful. -/
structure StoresState.Sound (s : StoresState) : Prop where
  pending : ∀ call p, s.pending.find call = some p → p.Built
  ended : ∀ r ∈ s.ended, r.Faithful

theorem sound_start (db : Db) : (StoresState.start db).Sound :=
  ⟨fun _ _ h => (by cases h), fun _ h => (by cases h)⟩

theorem sound_preserved (hcollision : ∀ a b, token a = token b → a = b) :
    ∀ s e t, StoresState.Sound s → (storesMachine digest d token).step s e = some t →
      t.Sound := by
  intro s e t hs hstep
  cases e with
  | read call path request fresh blocks intake =>
      simp only [storesMachine] at hstep
      split at hstep
      · cases hstep
      · cases hprepared : prepareStore s.db path request fresh blocks intake with
        | none =>
            simp only [hprepared] at hstep
            obtain rfl := Option.some.inj hstep
            exact hs
        | some p =>
            simp only [hprepared] at hstep
            obtain rfl := Option.some.inj hstep
            refine ⟨fun call' p' hp' => ?_, hs.ended⟩
            rw [Table.find_put] at hp'
            split at hp'
            · exact Option.some.inj hp' ▸ built_of_prepareStore hprepared
            · exact hs.pending call' p' hp'
  | write call w blocks result =>
      obtain ⟨p, hp, rfl⟩ := Option.map_eq_some_iff.mp hstep
      refine ⟨fun call' p' hp' => ?_, fun r hr => ?_⟩
      · rw [Table.find_discard] at hp'
        split at hp'
        · cases hp'
        · exact hs.pending call' p' hp'
      · rcases List.mem_append.mp hr with hr | hr
        · exact hs.ended r hr
        · obtain rfl := List.mem_singleton.mp hr
          exact faithful_writeStore hcollision (hs.pending call p hp) rfl
  | other b call =>
      obtain rfl := Option.some.inj hstep
      exact ⟨hs.pending, hs.ended⟩

/-- In every interleaving of stores and other calls, every store that has ended was
faithful to what it had read. -/
theorem stores_faithful (hcollision : ∀ a b, token a = token b → a = b) {db : Db}
    {events : List StoresEvent} {s : StoresState}
    (hrun : (storesMachine digest d token).run (.start db) events = some s) :
    ∀ r ∈ s.ended, r.Faithful :=
  ((storesMachine digest d token).run_invariant (sound_preserved hcollision) (sound_start db)
    hrun).ended

/-- A call that commits has written over exactly the row that it had read, or over none if it had
found none: the clock has advanced and no metadata key is gone. Any other call changes nothing. -/
structure StoreRecord.OverRead (r : StoreRecord) : Prop where
  unchanged : r.outcome ≠ .committed → r.after = r.before
  absent : r.outcome = .committed → r.before.memories.find (rowKey r.pending.entry) = none →
    r.pending.existing = none
  present : r.outcome = .committed → ∀ old,
    r.before.memories.find (rowKey r.pending.entry) = some old →
      ∃ entry existing written, rowToEntry old = some entry ∧
        r.pending.existing = some existing ∧
        revisionBody (servedView entry) = revisionBody existing ∧
        r.after.memories.find (rowKey r.pending.entry) = some written ∧
        (old.vectorClock.lookup r.pending.request.localNodeId).getD 0 <
          (written.vectorClock.lookup r.pending.request.localNodeId).getD 0 ∧
        ∀ key ∈ old.metadata, key ∈ written.metadata

/-- What `get` answers now is the revision that the call has read. -/
def PendingStore.StillCurrent (p : PendingStore) (blocks : MemoryEntry → Bool) (db : Db) : Prop :=
  match backendGet blocks db (rowKey p.entry) with
  | .error _ => False
  | .ok current => current.map revisionBody = p.existing.map revisionBody

instance (p : PendingStore) (blocks : MemoryEntry → Bool) (db : Db) :
    Decidable (p.StillCurrent blocks db) := by
  unfold PendingStore.StillCurrent
  cases backendGet blocks db (rowKey p.entry) <;> infer_instance

theorem PendingStore.StillCurrent.read {p : PendingStore} {blocks : MemoryEntry → Bool} {db : Db}
    (h : p.StillCurrent blocks db) :
    ∃ current, backendGet blocks db (rowKey p.entry) = .ok current ∧
      current.map revisionBody = p.existing.map revisionBody := by
  unfold PendingStore.StillCurrent at h
  cases hget : backendGet blocks db (rowKey p.entry) with
  | error _ =>
      rw [hget] at h
      exact h.elim
  | ok current =>
      rw [hget] at h
      exact ⟨current, rfl, h⟩

/-- A row that is not hidden from the call, without a key that intake reserves. -/
def PlainRow (blocks : MemoryEntry → Bool) (db : Db) (k : RowKey) : Prop :=
  ∀ row ∈ db.memories.find k, (rowToEntry row).all (fun e => !blocks (servedView e)) = true ∧
    ∀ key ∈ row.metadata.keys, ¬reservedKey key

instance (blocks : MemoryEntry → Bool) (db : Db) (k : RowKey) : Decidable (PlainRow blocks db k) :=
  inferInstanceAs (Decidable (∀ row ∈ db.memories.find k, _))

/-- Nobody has changed the row since a client that writes now has read it, and the row that is
there is a plain one. -/
def Undisturbed (s : StoresState) : StoresEvent → Prop
  | .write call _ blocks _ =>
      ∀ p ∈ s.pending.find call,
        (p.path ≠ .memoryStore → p.StillCurrent blocks s.db) ∧
          PlainRow blocks s.db (rowKey p.entry)
  | _ => True

instance (s : StoresState) (e : StoresEvent) : Decidable (Undisturbed s e) :=
  match e with
  | .write call _ _ _ => inferInstanceAs (Decidable (∀ p ∈ s.pending.find call, _))
  | .read .. => isTrue trivial
  | .other .. => isTrue trivial

/-- A faithful call over the revision that it has read, and over a plain row. -/
theorem overRead_of_faithful {r : StoreRecord} (h : r.Faithful)
    (hcurrent : r.pending.path ≠ .memoryStore → r.pending.StillCurrent r.blocks r.before)
    (hplain : PlainRow r.blocks r.before (rowKey r.pending.entry)) : r.OverRead := by
  have hread : r.outcome = .committed →
      ∃ current, backendGet r.blocks r.before (rowKey r.pending.entry) = .ok current ∧
        current.map revisionBody = r.pending.existing.map revisionBody := by
    intro hcommitted
    by_cases hpath : r.pending.path = .memoryStore
    · exact h.overRead hpath hcommitted
    · exact (hcurrent hpath).read
  refine ⟨h.unchanged, fun hcommitted hnone => ?_, fun hcommitted old hold => ?_⟩
  · obtain ⟨current, hget, hbody⟩ := hread hcommitted
    rw [backendGet, hnone] at hget
    obtain rfl := Except.ok.inj hget
    exact Option.map_eq_none_iff.mp hbody.symm
  · obtain ⟨current, hget, hbody⟩ := hread hcommitted
    obtain ⟨hvisible, hfree⟩ := hplain old hold
    cases hentry : rowToEntry old with
    | none =>
        rw [backendGet, hold] at hget
        simp only [hentry] at hget
        cases hget
    | some entry =>
        rw [hentry, Option.all_some, Bool.not_eq_true'] at hvisible
        have hserved : current = some (servedView entry) := by
          rw [backendGet, hold] at hget
          simp only [hentry, hvisible, Bool.false_eq_true, if_false, Except.ok.injEq] at hget
          exact hget.symm
        subst hserved
        obtain ⟨existing, hexisting, hsame⟩ := Option.map_eq_some_iff.mp hbody.symm
        obtain ⟨row, written, hrow, hwritten, hadvances⟩ :=
          h.advances hcommitted ⟨_, existing, hget, hexisting, hsame.symm⟩
        obtain rfl := Option.some.inj (hold.symm.trans hrow)
        exact ⟨entry, existing, written, rfl, hexisting, hsame.symm, hwritten, hadvances.clock,
          fun key hkey => hadvances.metadata key hkey (hfree key (Finmap.mem_keys.mpr hkey))⟩

/-- What is kept of a run: its calls are sound, and those that ended wrote over what they read. -/
structure StoresState.Undisturbed (s : StoresState) : Prop where
  sound : s.Sound
  overRead : ∀ r ∈ s.ended, r.OverRead

theorem undisturbed_preserved (hcollision : ∀ a b, token a = token b → a = b) :
    (storesMachine digest d token).Preserves Undisturbed StoresState.Undisturbed := by
  intro s e t hs hundisturbed hstep
  have hsound := sound_preserved hcollision s e t hs.sound hstep
  refine ⟨hsound, fun r hr => ?_⟩
  cases e with
  | read call path request fresh blocks intake =>
      simp only [storesMachine] at hstep
      split at hstep
      · cases hstep
      · cases hprepared : prepareStore s.db path request fresh blocks intake with
        | none =>
            simp only [hprepared] at hstep
            obtain rfl := Option.some.inj hstep
            exact hs.overRead r hr
        | some p =>
            simp only [hprepared] at hstep
            obtain rfl := Option.some.inj hstep
            exact hs.overRead r hr
  | write call w blocks result =>
      obtain ⟨p, hp, rfl⟩ := Option.map_eq_some_iff.mp hstep
      have hfaithful := hsound.ended r hr
      rcases List.mem_append.mp hr with hr | hr
      · exact hs.overRead r hr
      · obtain ⟨hcurrent, hplain⟩ := hundisturbed p hp
        obtain rfl := List.mem_singleton.mp hr
        exact overRead_of_faithful hfaithful hcurrent hplain
  | other b call =>
      obtain rfl := Option.some.inj hstep
      exact hs.overRead r hr

def request (content : String) (metadata : Metadata) : StoreRequest where
  key := ⟨"project:south", "a"⟩
  key_ne := by decide
  content
  detail := ""
  tags := []
  importance := 1 / 2
  metadata
  expires := ""
  evidence := none
  assertions := none
  source := .agent
  sourceIdentity := ""
  facets := Patch.none
  installationId := "installation"
  localNodeId := "node"
  now := ⟨0, some 0⟩

/-- A gate that lets every entry through as it is. -/
def openGate : Intake where
  isCode := fun _ => false
  admits := fun _ => true
  screen := fun e =>
    some ⟨e.content, e.detail, e.nudgeLine, e.tags, e.evidence, e.assertions, none, false⟩
  sign := fun _ => some ∅

def textOnly : Writer := ⟨⟨false, true, 2⟩, 2⟩

def readBy (path : StorePath) (call : Nat) (content : String) (metadata : Metadata) :
    StoresEvent :=
  .read call path (request content metadata) false (fun _ => false) openGate

def writeBy (call : Nat) : StoresEvent := .write call textOnly (fun _ => false) .absent

def rowDigest (c : SyncContent) : String := "sha256:" ++ c.content

def textDigest : Digests := ⟨id, fun _ => none⟩

def storesAfter (db : Db) (events : List StoresEvent) : StoresState :=
  (storesMachine rowDigest textDigest id).endState (.start db) events

/-- A tool creates the row and a client revises it; of two tools that then read it, the second
finds a conflict. -/
def racingTools : List StoresEvent :=
  [readBy .memoryStore 0 "first" ∅, writeBy 0, readBy .clientStore 1 "second" ∅, writeBy 1,
    readBy .memoryStore 2 "third" ∅, readBy .memoryStore 3 "fourth" ∅, writeBy 2, writeBy 3]

/-- The racing tools end as they should. -/
example : (storesAfter Db.empty racingTools).ended.map StoreRecord.outcome =
    [.committed, .committed, .committed, .conflict] := by
  decide +kernel

/-- Two clients that have found no row. -/
def racingClients : List StoresEvent :=
  [readBy .clientStore 0 "first" (Finmap.singleton "team" "red"),
    readBy .clientStore 1 "second" ∅, writeBy 0, writeBy 1]

/-- A row with a reserved key, which a tool revises. -/
def reviewed : List StoresEvent :=
  [.other textOnly.backend (.store
      { MemoryEntry.ofDefaults "a" "first" "project:south" ⟨0, some 0⟩ a_ne_empty with
        metadata := Finmap.singleton "review_decision" "approved" }),
    readBy .memoryStore 0 "second" ∅, writeBy 0]

end TrwMemory.Tools

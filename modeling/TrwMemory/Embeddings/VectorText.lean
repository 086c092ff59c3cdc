import TrwMemory.Lifecycle.Correction

/-!
Stored vectors follow their text: the proof of a row's vector names the row's text, and
no vector derived from another text of the row is left. What a write of one row must
leave for this, and the writes that always do. None of the three stores drops a vector that it
does not replace, and only `MemoryClient.store` purges the derived ones.

Before it the writers that keep, replace or drop a vector without being a store:
`apply_synced_entry` (`sync/delta.py`) and one page of `reembed_rows`
(`_client_reembed.py`). Both check what they read before their transaction.

A vector without a proof says nothing about its text, and is not spoken of. Derived
vectors are only ever deleted by the code modelled here.
-/
namespace TrwMemory.Embeddings

open Library.Keyed Storage Sync Tools Lifecycle

section Writers

variable {τ : Type} [DecidableEq τ] (digest : SyncContent → String) (d : Digests)
  (token : MemoryEntry → τ) (w : Writer) (blocks : MemoryEntry → Bool)

/-- A text change with no vector to replace the old one drops the old one. -/
def dropsVector (current : Option MemoryEntry) (text : String) (vector : Option StoredVector) :
    Bool :=
  w.backend.vecAvailable && vector.isNone && current.any fun e => embeddingText e != text

/-- `mark_synced` of one row, which swallows what is raised. -/
def markRowSynced (k : RowKey) (now : Datetime) (db : Db) : Db :=
  Call.run digest w.backend db
    (.update k blocks (Patch.none.set .lastSyncedAt (some now)) now)

/-- `apply_synced_entry`; `ifRevision` is the revision that the caller merged from. -/
def applySyncedEntry (ifRevision : Option τ) (row : MemoryEntry) (synced : Bool)
    (result : EmbedResult) (now : Datetime) (db : Db) : Db × StoreOutcome :=
  let k := rowKey row
  let vector := result.encoded d (embeddingText row)
  match backendGet blocks db k with
  | .error _ => (db, .failed)
  | .ok current =>
      if current.map (revisionOf token) ≠ ifRevision then (db, .conflict)
      else
        match storeWithVector digest d w row vector db with
        | none => (db, .failed)
        | some stored =>
            let kept := if dropsVector w current (embeddingText row) vector then
                { stored with vectors := stored.vectors.discard (· == k) }
              else stored
            (if synced then markRowSynced digest w blocks k now kept else kept, .committed)

/-- What `get_vector_records` reads of a vector: a proof that is not of its bytes is none. -/
def vectorRecord (v : StoredVector) : List Rat × Option VectorProvenance :=
  (v.embedding, v.provenance.filter fun p => d.matchesVector p v.embedding)

/-- A stale row of a page: the entry and the vector record that were read with it, and
what the encoder made of its text. -/
structure PageItem where
  entry : MemoryEntry
  record : Option (List Rat × Option VectorProvenance)
  vector : Option (List Rat × Option EmbeddingSpace)

/-- One row of `_reembed_page`, skipped when its text or its vector is no longer the one
that was read; `found` is the store at the start of the transaction. -/
def reembedItem (found : Db) (item : PageItem) (db : Db) : Option Db :=
  let k := rowKey item.entry
  let text := embeddingText item.entry
  match backendGet blocks db k with
  | .error _ => none
  | .ok current =>
      match item.vector with
      | none => some db
      | some (embedding, space) =>
          if current.all (fun e => embeddingText e != text) ||
              (found.vectors.find k).map (vectorRecord d) != item.record then some db
          else
            match d.generationProvenance space text embedding with
            | none => none
            | some proof => upsertVector d w k ⟨embedding, some proof, text⟩ db

/-- `_reembed_page`, in a run that found vectors supported. -/
def reembedPage (page : List PageItem) (db : Db) : Db :=
  (page.foldlM (fun current item => reembedItem d w blocks db item current) db).getD db

end Writers

/-- The vector of a row, if it has a proof, is that of `text`. -/
def VectorOf (d : Digests) (db : Db) (k : RowKey) (text : String) : Prop :=
  ∀ v ∈ db.vectors.find k, ∀ p ∈ v.provenance, p.inputSha256 = d.inputDigest text

/-- The vectors derived from a row are derived from `text`. -/
def DerivedOf (db : Db) (k : RowKey) (text : String) : Prop :=
  ∀ row ∈ db.vectors.rows, isDerived db k row.1 = true → row.2.source = text

instance (d : Digests) (db : Db) (k : RowKey) (text : String) : Decidable (VectorOf d db k text) :=
  inferInstanceAs (Decidable (∀ v ∈ db.vectors.find k, ∀ p ∈ v.provenance,
    p.inputSha256 = d.inputDigest text))

instance (db : Db) (k : RowKey) (text : String) : Decidable (DerivedOf db k text) :=
  inferInstanceAs (Decidable (∀ row ∈ db.vectors.rows, isDerived db k row.1 = true →
    row.2.source = text))

/-- Every stored vector is one of its row's text. -/
def FollowsText (d : Digests) (db : Db) : Prop :=
  ∀ k row, db.memories.find k = some row →
    VectorOf d db k (embeddingText row) ∧ DerivedOf db k (embeddingText row)

theorem followsText_empty (d : Digests) : FollowsText d Db.empty := by
  intro k row hrow
  cases hrow

theorem derivedOf_iff {db : Db} {k : RowKey} {text : String} :
    DerivedOf db k text ↔ ∀ k' v, db.vectors.find k' = some v → isDerived db k k' = true →
      v.source = text := by
  constructor
  · intro h k' v hv
    exact h (k', v) ((db.vectors.mem_rows k' v).mpr hv)
  · intro h row hrow
    exact h row.1 row.2 ((db.vectors.mem_rows row.1 row.2).mp hrow)

theorem isDerived_absent {db : Db} {k k' : RowKey} (h : isDerived db k k' = true) :
    db.memories.find k' = none := by
  simp only [isDerived, Bool.and_eq_true, Option.isNone_iff_eq_none] at h
  exact h.2

/-- The row `k` has become `row`; other rows are the same, and no other vector is new. -/
structure RowWritten (db db' : Db) (k : RowKey) (row : MemoryEntry) : Prop where
  memories : db'.memories = db.memories.put k row
  vectors : ∀ k' v, k' ≠ k → db'.vectors.find k' = some v → db.vectors.find k' = some v

variable {d : Digests} {db db' : Db} {k : RowKey} {row : MemoryEntry}

/-- A vector derived from some row after the write was so before. -/
theorem RowWritten.derived (h : RowWritten db db' k row) {k₁ k' : RowKey} {v : StoredVector}
    (hv : db'.vectors.find k' = some v) (hderived : isDerived db' k₁ k' = true) :
    k' ≠ k ∧ db.vectors.find k' = some v ∧ isDerived db k₁ k' = true := by
  have hne : k' ≠ k := by
    rintro rfl
    have hnone := isDerived_absent hderived
    rw [h.memories, Table.find_put_self] at hnone
    cases hnone
  refine ⟨hne, h.vectors k' v hne hv, ?_⟩
  rwa [isDerived, h.memories, Table.find_put_of_ne _ _ hne] at hderived

theorem RowWritten.derivedOf (h : RowWritten db db' k row) {k₁ : RowKey} {text : String}
    (hderived : DerivedOf db k₁ text) : DerivedOf db' k₁ text := by
  refine derivedOf_iff.mpr fun k' v hv hk' => ?_
  obtain ⟨-, hv, hk'⟩ := h.derived hv hk'
  exact derivedOf_iff.mp hderived k' v hv hk'

/-- A write of one row keeps the vectors on their text if it leaves none of another text
of that row. -/
theorem RowWritten.followsText (h : RowWritten db db' k row) (hdb : FollowsText d db)
    (hown : VectorOf d db' k (embeddingText row))
    (hderived : DerivedOf db' k (embeddingText row)) : FollowsText d db' := by
  intro k₁ row₁ hrow₁
  by_cases hk : k₁ = k
  · subst hk
    rw [h.memories, Table.find_put_self] at hrow₁
    obtain rfl := Option.some.inj hrow₁
    exact ⟨hown, hderived⟩
  · rw [h.memories, Table.find_put_of_ne _ _ hk] at hrow₁
    obtain ⟨hown₁, hderived₁⟩ := hdb k₁ row₁ hrow₁
    exact ⟨fun v hv => hown₁ v (h.vectors k₁ v hk hv), h.derivedOf hderived₁⟩

/-- The text of the row has stayed and its vector is none or the old one. -/
theorem RowWritten.followsText_of_sameText (h : RowWritten db db' k row) (hdb : FollowsText d db)
    {old : MemoryEntry} (hold : db.memories.find k = some old)
    (htext : embeddingText row = embeddingText old)
    (hkept : ∀ v, db'.vectors.find k = some v → db.vectors.find k = some v) :
    FollowsText d db' := by
  obtain ⟨hown, hderived⟩ := hdb k old hold
  refine h.followsText hdb ?_ ?_
  · rw [htext]
    exact fun v hv => hown v (hkept v hv)
  · rw [htext]
    exact h.derivedOf hderived

/-- A text that is about to be written, whether the vector of the row goes or is
replaced with it, and whether the derived vectors go. -/
structure TextWrite where
  key : RowKey
  text : String
  renewed : Bool
  purged : Bool

/-- What stays of the vectors of the row is of the text that is written. -/
structure TextWrite.LeavesNone (d : Digests) (db : Db) (write : TextWrite) : Prop where
  vector : write.renewed = false → VectorOf d db write.key write.text
  derived : write.purged = false → DerivedOf db write.key write.text

instance (d : Digests) (db : Db) (write : TextWrite) : Decidable (write.LeavesNone d db) :=
  decidable_of_iff ((write.renewed = false → VectorOf d db write.key write.text) ∧
      (write.purged = false → DerivedOf db write.key write.text))
    ⟨fun h => ⟨h.1, h.2⟩, fun h => ⟨h.1, h.2⟩⟩

variable {digest : SyncContent → String} {d : Digests} {w : Writer} {db : Db}

/-- The encoder's vector replaces the stored one. -/
def EmbedResult.lands (w : Writer) : EmbedResult → Bool
  | .absent | .failed => false
  | .vector embedding _ => w.lands embedding

/-- The checks of `store` pass. -/
def storable (db : Db) (entry : MemoryEntry) : Bool :=
  (validateEntryForWrite entry).isOk &&
    (refuseViolation (db.memories.find (rowKey entry)) entry).isOk

theorem find_upserted_of_ne {k k' : RowKey} (vector : Option StoredVector)
    (vectors : Table RowKey StoredVector) (h : k' ≠ k) :
    (upserted w k vector vectors).find k' = vectors.find k' := by
  unfold upserted
  split
  · rfl
  · split
    · exact Table.find_put_of_ne _ _ h
    · rfl

theorem vectorOf_upserted {k : RowKey} {text : String} {result : EmbedResult} {db' : Db}
    {vectors : Table RowKey StoredVector}
    (hvectors : db'.vectors = upserted w k (result.encoded d text) vectors)
    (hkept : EmbedResult.lands w result = false → ∀ v ∈ vectors.find k, ∀ p ∈ v.provenance,
      p.inputSha256 = d.inputDigest text) : VectorOf d db' k text := by
  intro v hv p hp
  rw [hvectors] at hv
  cases hlands : EmbedResult.lands w result with
  | false =>
      have hsame : (upserted w k (result.encoded d text) vectors).find k = vectors.find k := by
        cases result with
        | absent | failed => rfl
        | vector embedding space =>
            simp only [upserted, EmbedResult.encoded]
            rw [if_neg (by simpa [EmbedResult.lands] using hlands)]
      rw [hsame] at hv
      exact hkept hlands v hv p hp
  | true =>
      cases result with
      | absent | failed => cases hlands
      | vector embedding space =>
          simp only [upserted, EmbedResult.encoded, Option.mem_def] at hv
          rw [if_pos (by simpa [EmbedResult.lands] using hlands), Table.find_put_self] at hv
          obtain rfl := Option.some.inj hv
          exact (d.generationProvenance_eq hp).1

theorem storable_of_some {entry : MemoryEntry} {vector : Option StoredVector} {written : Db}
    (h : storeWithVector digest d w entry vector db = some written) :
    storable db entry = true := by
  unfold storeWithVector storeScript storeRow at h
  unfold storable
  cases hv : validateEntryForWrite entry with
  | error _ => simp [hv, bind, Except.bind, Except.map] at h
  | ok _ =>
      cases hr : refuseViolation (db.memories.find (rowKey entry)) entry with
      | error _ => simp [hv, hr, bind, Except.bind, Except.map] at h
      | ok _ => rfl

/-- A store whose transaction goes through. -/
theorem followsText_storeWithVector {entry : MemoryEntry} {result : EmbedResult} {written : Db}
    (hdb : FollowsText d db)
    (hwritten : storeWithVector digest d w entry (result.encoded d (embeddingText entry)) db =
      some written)
    (hvector : EmbedResult.lands w result = false →
      VectorOf d db (rowKey entry) (embeddingText entry))
    (hderived : DerivedOf db (rowKey entry) (embeddingText entry)) : FollowsText d written := by
  obtain ⟨hmemories, hvectors⟩ := storeWithVector_some hwritten
  have hrow : RowWritten db written (rowKey entry) (stampSync digest entry) := by
    refine ⟨hmemories, fun k' v hk' hv => ?_⟩
    rwa [hvectors, find_upserted_of_ne _ _ hk'] at hv
  exact hrow.followsText hdb (vectorOf_upserted hvectors hvector) (hrow.derivedOf hderived)

/-- The text that a store of `entry` is about to write. -/
def storeWrite (w : Writer) (entry : MemoryEntry) (result : EmbedResult) (purged : Bool) :
    TextWrite :=
  ⟨rowKey entry, embeddingText entry, EmbedResult.lands w result, purged⟩

/-- `memory_store` and `bulk_store` purge nothing. -/
theorem followsText_finishStore {entry : MemoryEntry} {result : EmbedResult}
    (hdb : FollowsText d db)
    (hnone : storable db entry = true → (storeWrite w entry result false).LeavesNone d db) :
    FollowsText d (finishStore db
      (storeWithVector digest d w entry (result.encoded d (embeddingText entry)) db)).1 := by
  cases hwritten : storeWithVector digest d w entry (result.encoded d (embeddingText entry)) db with
  | none => exact hdb
  | some written =>
      have hleft := hnone (storable_of_some hwritten)
      exact followsText_storeWithVector hdb hwritten hleft.vector (hleft.derived rfl)

/-- Vectors that are only deleted. -/
structure VectorsDropped (db db' : Db) : Prop where
  memories : db'.memories = db.memories
  vectors : ∀ k v, db'.vectors.find k = some v → db.vectors.find k = some v

theorem VectorsDropped.vectorOf {db' : Db} (h : VectorsDropped db db') {k : RowKey}
    {text : String} (hown : VectorOf d db k text) : VectorOf d db' k text :=
  fun v hv => hown v (h.vectors k v hv)

theorem VectorsDropped.derivedOf {db' : Db} (h : VectorsDropped db db') {k : RowKey}
    {text : String} (hderived : DerivedOf db k text) : DerivedOf db' k text := by
  refine derivedOf_iff.mpr fun k' v hv hk' => derivedOf_iff.mp hderived k' v (h.vectors k' v hv) ?_
  rwa [isDerived, h.memories] at hk'

theorem VectorsDropped.followsText {db' : Db} (h : VectorsDropped db db')
    (hdb : FollowsText d db) : FollowsText d db' := by
  intro k row hrow
  rw [h.memories] at hrow
  obtain ⟨hown, hderived⟩ := hdb k row hrow
  exact ⟨h.vectorOf hown, h.derivedOf hderived⟩

theorem vectorsDropped_discard (db : Db) (p : RowKey → Bool) :
    VectorsDropped db { db with vectors := db.vectors.discard p } := by
  refine ⟨rfl, fun k v hv => ?_⟩
  rw [Table.find_discard] at hv
  split at hv
  · cases hv
  · exact hv

theorem vectorsDropped_purge (k : RowKey) (db : Db) :
    VectorsDropped db (deleteHypeSiblings k db) := by
  unfold deleteHypeSiblings
  split
  · exact vectorsDropped_discard db _
  · exact ⟨rfl, fun _ _ hv => hv⟩

/-- No derived vector of an existing row is left. -/
theorem derivedOf_purged {k : RowKey} (hrow : (db.memories.find k).isSome = true) (text : String) :
    DerivedOf (deleteHypeSiblings k db) k text := by
  refine derivedOf_iff.mpr fun k' v hv hk' => ?_
  rw [deleteHypeSiblings, if_pos hrow] at hv hk'
  have hk' : isDerived db k k' = true := hk'
  rw [Table.find_discard, if_pos hk'] at hv
  cases hv

theorem followsText_clientStore {entry : MemoryEntry} {result : EmbedResult}
    (hdb : FollowsText d db)
    (hnone : result ≠ .failed → storable db entry = true →
      (storeWrite w entry result
        (w.backend.vecAvailable && (db.memories.find (rowKey entry)).isSome)).LeavesNone d db) :
    FollowsText d (clientStore digest d w entry result db).1 := by
  unfold clientStore
  split
  · exact hdb
  · rename_i hfailed
    obtain ⟨found, hfound⟩ : ∃ found, found =
        if w.backend.vecAvailable then deleteHypeSiblings (rowKey entry) db else db := ⟨_, rfl⟩
    have hdropped : VectorsDropped db found := by
      rw [hfound]
      split
      · exact vectorsDropped_purge _ db
      · exact ⟨rfl, fun _ _ hv => hv⟩
    rw [← hfound]
    cases hwritten : storeWithVector digest d w entry (result.encoded d (embeddingText entry))
        found with
    | none => exact hdb
    | some written =>
        have hstorable := storable_of_some hwritten
        rw [storable, hdropped.memories] at hstorable
        have hleft := hnone hfailed hstorable
        refine followsText_storeWithVector (hdropped.followsText hdb) hwritten
          (fun hlands => hdropped.vectorOf (hleft.vector hlands)) ?_
        cases hpurged : w.backend.vecAvailable && (db.memories.find (rowKey entry)).isSome with
        | false => exact hdropped.derivedOf (hleft.derived hpurged)
        | true =>
            obtain ⟨havail, hsome⟩ := Bool.and_eq_true_iff.mp hpurged
            rw [hfound, if_pos havail]
            exact derivedOf_purged hsome _

end TrwMemory.Embeddings

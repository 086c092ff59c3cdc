import TrwMemory.Storage.Crud

/-!
Reads that the quarantine ledger filters, and the vector writes next to a row
(`sqlite_backend.py`, `storage/_vector_ops.py`, `_vector_hype_ops.py`).

A connection that has vectors available is assumed to keep them; an upsert is skipped
silently where the vector has not the width of the backend or of the table.
-/
namespace TrwMemory.Storage

open Library.Keyed Sync

/-- `SQLiteBackend.get`: a row that the ledger blocks reads as absent. -/
def backendGet (blocks : MemoryEntry → Bool) (db : Db) (k : RowKey) :
    Except WriteError (Option MemoryEntry) :=
  match db.memories.find k with
  | none => .ok none
  | some row =>
      match rowToEntry row with
      | none => .error (.unreadable k.id)
      | some entry => .ok (if blocks (servedView entry) then none else some (servedView entry))

/-- The text that the writers of a row have encoded. -/
def embeddingText (e : MemoryEntry) : String := e.content ++ " " ++ e.detail

theorem embeddingText_served {row entry : MemoryEntry} (h : rowToEntry row = some entry) :
    embeddingText (servedView entry) = embeddingText row := by
  obtain ⟨confidence, metadata, hserved⟩ := servedView_fields entry
  rw [hserved, rowToEntry_eq h]
  rfl

theorem backendGet_some {blocks : MemoryEntry → Bool} {db : Db} {k : RowKey} {current : MemoryEntry}
    (h : backendGet blocks db k = .ok (some current)) :
    ∃ row entry, db.memories.find k = some row ∧ rowToEntry row = some entry ∧
      blocks (servedView entry) = false ∧ current = servedView entry := by
  unfold backendGet at h
  cases hrow : db.memories.find k with
  | none => simp [hrow] at h
  | some row =>
      cases hread : rowToEntry row with
      | none => simp [hrow, hread] at h
      | some entry =>
          simp only [hrow, hread, Except.ok.injEq] at h
          split at h
          · cases h
          · rename_i hblocks
            exact ⟨row, entry, rfl, hread, by simpa using hblocks, (Option.some.inj h).symm⟩

/-- A process that writes: its connection, and the width the table was created with. -/
structure Writer where
  backend : Backend
  width : Nat
  deriving DecidableEq, Repr

/-- Whether `upsert_vector` replaces the vector, when nothing is raised. -/
def Writer.lands (w : Writer) (embedding : List Rat) : Bool :=
  w.backend.vecAvailable && embedding.length == w.backend.dim && embedding.length == w.width

/-- `upsert_vector`; `none` is the `ValueError` of a proof that is not the vector's. -/
def upsertVector (d : Digests) (w : Writer) (k : RowKey) (vector : StoredVector) (db : Db) :
    Option Db :=
  if !w.backend.vecAvailable then some db
  else if vector.embedding.length ≠ w.backend.dim then some db
  else if vector.provenance.any fun p => !d.matchesVector p vector.embedding then none
  else if vector.embedding.length ≠ w.width then some db
  else some { db with vectors := db.vectors.put k vector }

/-- `vector_exists`. -/
def vectorExists (b : Backend) (db : Db) (k : RowKey) : Bool :=
  b.vecAvailable && (db.vectors.find k).isSome

/-- `str.rpartition`: the parts before and after the last separator. -/
def rpartition (separator text : List Char) : Option (List Char × List Char) :=
  ((List.range (text.length + 1)).reverse.find? fun i => separator.isPrefixOf (text.drop i)).map
    fun i => (text.take i, text.drop (i + separator.length))

/-- `hype_parent_id`: the parent of an id with a final ASCII-numeric `#hype` suffix. -/
def hypeParentId (id : String) : Option String :=
  (rpartition "#hype".toList id.toList).bind fun (parent, suffix) =>
    if parent ≠ [] ∧ suffix ≠ [] ∧ suffix.all Char.isDigit = true then
      some (String.ofList parent)
    else none

/-- A vector derived from the row `k`, and no row's own. -/
def isDerived (db : Db) (k k' : RowKey) : Bool :=
  k'.ns == k.ns && hypeParentId k'.id == some k.id && (db.memories.find k').isNone

/-- `delete_hype_siblings`; orphans of an absent row stay. -/
def deleteHypeSiblings (k : RowKey) (db : Db) : Db :=
  if (db.memories.find k).isSome then
    { db with vectors := db.vectors.discard (isDerived db k) }
  else db

/-- An upsert of a vector with its own proof. -/
theorem upsertVector_eq {d : Digests} {w : Writer} {k : RowKey} {vector : StoredVector} {db : Db}
    (h : ∀ p ∈ vector.provenance, d.matchesVector p vector.embedding = true) :
    upsertVector d w k vector db =
      some (if w.lands vector.embedding then { db with vectors := db.vectors.put k vector }
        else db) := by
  have hproof : (vector.provenance.any fun p => !d.matchesVector p vector.embedding) = false := by
    cases hp : vector.provenance with
    | none => rfl
    | some p => simp [h p hp]
  unfold upsertVector Writer.lands
  rw [hproof]
  by_cases havail : w.backend.vecAvailable = true
  · by_cases hdim : vector.embedding.length = w.backend.dim
    · by_cases hwidth : vector.embedding.length = w.width
      · simp [havail, ← hdim, ← hwidth]
      · rw [hdim] at hwidth
        simp [havail, hdim, hwidth]
    · simp [havail, hdim]
  · simp [havail]

def SidecarOnly (statements : List Statement) : Prop :=
  ∀ db, (execute statements db).memories = db.memories ∧
    (execute statements db).vectors = db.vectors

theorem SidecarOnly.append {first rest : List Statement} (h : SidecarOnly first)
    (h' : SidecarOnly rest) : SidecarOnly (first ++ rest) := by
  intro db
  rw [execute_append, (h' _).1, (h' _).2]
  exact h db

theorem sidecarOnly_nil : SidecarOnly [] := fun _ => ⟨rfl, rfl⟩

theorem sidecarOnly_fts (k : RowKey) (row : FtsRow) :
    SidecarOnly (ftsDeleteRow k ++ ftsInsertRow row) := by
  intro db
  rw [execute_append, execute_ftsDeleteRow, execute_ftsInsertRow]
  exact ⟨rfl, rfl⟩

theorem sidecarOnly_tags (k : RowKey) (tags : List String) :
    SidecarOnly (replaceTagPostings k tags) := by
  intro db
  rw [execute_replaceTagPostings]
  exact ⟨rfl, rfl⟩

theorem sidecarOnly_anchors (k : RowKey) (anchors : List Anchor) :
    SidecarOnly (replaceAnchorPostings k anchors) := by
  intro db
  rw [execute_replaceAnchorPostings]
  exact ⟨rfl, rfl⟩

/-- `store` replaces the row and no vector. -/
theorem execute_storeStatements (b : Backend) (row : MemoryEntry) (db : Db) :
    (execute (storeStatements b row) db).memories = db.memories.put (rowKey row) row ∧
      (execute (storeStatements b row) db).vectors = db.vectors := by
  have hfts : SidecarOnly
      (if b.ftsAvailable then ftsDeleteRow (rowKey row) ++ ftsInsertRow (ftsRow row) else []) := by
    split
    · exact sidecarOnly_fts _ _
    · exact sidecarOnly_nil
  have hrest := (hfts.append (sidecarOnly_tags (rowKey row) row.tags)).append
    (sidecarOnly_anchors (rowKey row) row.anchors)
  exact hrest (insertOrReplace row db)

/-- `update` patches the row, and drops the vector when it retires the row. -/
theorem execute_updateStatements (digest : SyncContent → String) (b : Backend) {db : Db}
    {k : RowKey} {row : MemoryEntry} (existing : MemoryEntry) (fields : Patch) (now : Datetime)
    (hrow : db.memories.find k = some row) :
    (execute (updateStatements digest b existing k fields now) db).memories =
        db.memories.put k (row.patched (updateFields digest existing fields now)) ∧
      (execute (updateStatements digest b existing k fields now) db).vectors =
        if prunesVector existing fields && b.vecAvailable then db.vectors.discard (· == k)
        else db.vectors := by
  have hfts : SidecarOnly
      (if namesText fields && b.ftsAvailable then
        ftsDeleteRow k ++ ftsInsertRow (updatedFtsRow k existing fields) else []) := by
    split
    · exact sidecarOnly_fts _ _
    · exact sidecarOnly_nil
  have htags : SidecarOnly ((fields .tags).elim [] (replaceTagPostings k)) := by
    cases fields .tags with
    | none => exact sidecarOnly_nil
    | some tags => exact sidecarOnly_tags k tags
  have hanchors : SidecarOnly ((fields .anchors).elim [] (replaceAnchorPostings k)) := by
    cases fields .anchors with
    | none => exact sidecarOnly_nil
    | some anchors => exact sidecarOnly_anchors k anchors
  have hpatched : updateMemories k (updateFields digest existing fields now) db =
      { db with
        memories :=
          db.memories.put k (row.patched (updateFields digest existing fields now)) } := by
    simp only [updateMemories, hrow]
  obtain ⟨hmemories, hvectors⟩ := (hfts.append htags).append hanchors
    (execute (if prunesVector existing fields && b.vecAvailable then [deleteVector k] else [])
      (updateMemories k (updateFields digest existing fields now) db))
  rw [updateStatements, execute_cons, List.append_assoc, List.append_assoc, ← List.append_assoc
    (if namesText fields && b.ftsAvailable then _ else []), execute_append, hmemories, hvectors,
    hpatched]
  split
  · exact ⟨rfl, rfl⟩
  · exact ⟨rfl, rfl⟩

end TrwMemory.Storage

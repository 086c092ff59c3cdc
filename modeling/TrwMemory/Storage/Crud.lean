import Mathlib.Data.List.Sort
import TrwMemory.Storage.Database
import TrwMemory.Storage.RowWrites

/-!
The writes of the SQLite backend (`storage/_crud_ops.py`, `_namespace_purge.py`), each
as the statements it runs on the database it finds, and what each group of statements makes of
the database as one record update. A call that is refused before its first statement, or by the
read at its end, has no script.

Where a statement fails, and what is left then, is the connection's business. Chunked
statements have the effect of one statement on all the ids, and the rowids that
`store_many` records at the end are those the inserts were given.
-/
namespace TrwMemory.Storage

open Library.Keyed Sync

/-- The statements of `store` once the row is made. -/
def storeStatements (b : Backend) (row : MemoryEntry) : List Statement :=
  insertOrReplace row ::
    ((if b.ftsAvailable then ftsDeleteRow (rowKey row) ++ ftsInsertRow (ftsRow row) else []) ++
      replaceTagPostings (rowKey row) row.tags ++
      replaceAnchorPostings (rowKey row) row.anchors)

def storeScript (digest : SyncContent → String) (b : Backend) (db : Db) (entry : MemoryEntry) :
    Except WriteError (List Statement) :=
  (storeRow digest (db.memories.find (rowKey entry)) entry).map (storeStatements b)

/-- `dict` keyed by `(namespace, id)`: the last entry of each key, keys as they first
occur. -/
def finalEntries (rows : List MemoryEntry) : List MemoryEntry :=
  (rows.map rowKey).eraseDups.filterMap fun k => rows.reverse.find? fun row => rowKey row = k

/-- The rows of a batch; every entry is checked before the first is written. -/
def storeManyRows (digest : SyncContent → String) (db : Db) (entries : List MemoryEntry) :
    Except WriteError (List MemoryEntry) := do
  entries.forM validateEntryForWrite
  entries.forM fun entry => refuseViolation (db.memories.find (rowKey entry)) entry
  return entries.map (stampSync digest)

/-- The rowids that the last inserts were given, from the last one back. -/
def mapLast (reversed : List RowKey) (rowid : Nat) (t : Table RowKey Nat) : Table RowKey Nat :=
  match reversed with
  | [] => t
  | k :: rest => (mapLast rest (rowid - 1) t).put k rowid

/-- The rowids of a batch, recorded after its last FTS insert. -/
def ftsMapMany (keys : List RowKey) : Statement := fun db =>
  { db with memoriesFtsRowid := mapLast keys.reverse db.memoriesFts.maxKey db.memoriesFtsRowid }

def storeManyFts (final : List MemoryEntry) : List Statement :=
  ((final.map MemoryEntry.ns).eraseDups.flatMap fun ns =>
      purgeFtsRowsFor ns ((final.filter fun e => e.ns == ns).map MemoryEntry.id)) ++
    final.map (fun e => ftsInsert (ftsRow e)) ++ [ftsMapMany (final.map rowKey)]

/-- The statements of `store_many`; the FTS merge of a large batch changes no row. -/
def storeManyStatements (b : Backend) (rows : List MemoryEntry) : List Statement :=
  rows.map insertOrReplace ++
    (if b.ftsAvailable then storeManyFts (finalEntries rows) else []) ++
    (finalEntries rows).flatMap fun e =>
      replaceTagPostings (rowKey e) e.tags ++ replaceAnchorPostings (rowKey e) e.anchors

def storeManyScript (digest : SyncContent → String) (b : Backend) (db : Db)
    (entries : List MemoryEntry) : Except WriteError (List Statement) :=
  if entries.isEmpty then .ok []
  else (storeManyRows digest db entries).map (storeManyStatements b)

/-- `_TERMINAL_STATUS_VALUES`. -/
def terminal : MemoryStatus → Bool
  | .resolved | .obsolete | .obsoletePoisoned | .archived => true
  | .active => false

/-- A transition into a terminal status drops the vector. -/
def prunesVector (existing : MemoryEntry) (fields : Patch) : Bool :=
  (fields .status).any fun status => terminal status && existing.status != status

def updateMemories (k : RowKey) (fields : Patch) : Statement := fun db =>
  match db.memories.find k with
  | none => db
  | some row => { db with memories := db.memories.put k (row.patched fields) }

/-- The FTS row of an updated entry, from the fields of the call. -/
def updatedFtsRow (k : RowKey) (existing : MemoryEntry) (fields : Patch) : FtsRow where
  key := k
  content := (fields .content).getD existing.content
  detail := (fields .detail).getD existing.detail
  tags := Library.Json.dumps (.arr (((fields .tags).getD existing.tags).map .str))

/-- Whether an update moves the FTS row. -/
def namesText (fields : Patch) : Bool :=
  fields.names .content || fields.names .detail || fields.names .tags

/-- The statements of `update` once its checks have passed: only the sidecars of the
fields that are named move. -/
def updateStatements (digest : SyncContent → String) (b : Backend) (existing : MemoryEntry)
    (k : RowKey) (fields : Patch) (now : Datetime) : List Statement :=
  updateMemories k (updateFields digest existing fields now) ::
    ((if prunesVector existing fields && b.vecAvailable then [deleteVector k] else []) ++
      (if namesText fields && b.ftsAvailable then
        ftsDeleteRow k ++ ftsInsertRow (updatedFtsRow k existing fields)
      else []) ++
      ((fields .tags).elim [] (replaceTagPostings k)) ++
      ((fields .anchors).elim [] (replaceAnchorPostings k)))

/-- `update`: no statement for a row that is absent, withheld or not to be changed. -/
def updateScript (digest : SyncContent → String) (b : Backend) (db : Db) (k : RowKey)
    (blocks : MemoryEntry → Bool) (fields : Patch) (now : Datetime) :
    Except WriteError (List Statement) :=
  match db.memories.find k with
  | none => .ok []
  | some row =>
      match rowToEntry row with
      | none => .error (.unreadable k.id)
      | some existing =>
          if blocks (servedView existing) || fields.fields.isEmpty then .ok []
          else
            (finishUpdate digest row existing fields now).map fun _ =>
              updateStatements digest b existing k fields now

def deleteStatements (b : Backend) (db : Db) (k : RowKey) : List Statement :=
  deleteMemories (· == k) ::
    if (db.memories.find k).isSome then
      (if b.vecAvailable then [deleteVector k] else []) ++
        (if b.ftsAvailable then ftsDeleteRow k else []) ++
        purgeEdgesFor k.ns [k.id] ++ purgePostingsFor k.ns [k.id]
    else []

/-- `existing_ids`, sorted. -/
def existingIds (db : Db) (ns : String) (ids : List String) : List String :=
  (ids.filter fun id => (db.memories.find ⟨ns, id⟩).isSome).eraseDups.insertionSort (· ≤ ·)

/-- `_delete_keyed` of the rows. -/
def deleteMemoriesKeyed (ns : String) (ids : List String) : List Statement :=
  (iterBindChunks ids 1 1).map fun chunk => deleteMemories (keyed ns chunk)

def deleteManyStatements (b : Backend) (db : Db) (ns : String) (ids : List String) :
    List Statement :=
  let gone := existingIds db ns ids
  if gone.isEmpty then []
  else
    deleteMemoriesKeyed ns gone ++
      (if b.vecAvailable then purgeVectorsFor ns gone else []) ++
      (if b.ftsAvailable then purgeFtsRowsFor ns gone else []) ++
      purgeEdgesFor ns gone ++ purgePostingsFor ns gone

/-- `SELECT id FROM memories WHERE namespace = ?`. -/
def namespaceIds (db : Db) (ns : String) : List String :=
  (db.memories.keys.filter fun k => k.ns == ns).map RowKey.id

/-- The ghost rows of the FTS index go by an anti-join with the rows that are left. -/
def ftsAntiJoin (ns : String) : List Statement :=
  [fun db =>
    { db with
      memoriesFts := db.memoriesFts.discard fun rowid =>
        (db.memoriesFts.find rowid).any fun row => (db.memories.find row.key).isNone },
    fun db => { db with memoriesFtsRowid := db.memoriesFtsRowid.discard fun k => k.ns == ns }]

def deleteByNamespaceStatements (b : Backend) (db : Db) (ns : String) : List Statement :=
  let ids := namespaceIds db ns
  if ids.isEmpty then []
  else
    deleteMemories (fun k => k.ns == ns) ::
      ((if b.ftsAvailable then ftsAntiJoin ns else []) ++
        purgeEdgesFor ns ids ++ [purgeOrphanEdges] ++ purgePostingsFor ns ids ++
        (if b.vecAvailable then purgeVectorsFor ns ids else []))

inductive Call where
  | store (entry : MemoryEntry)
  | storeMany (entries : List MemoryEntry)
  | update (k : RowKey) (blocks : MemoryEntry → Bool) (fields : Patch) (now : Datetime)
  | delete (k : RowKey)
  | deleteMany (ns : String) (ids : List String)
  | deleteByNamespace (ns : String)

namespace Call

def script (digest : SyncContent → String) (b : Backend) (db : Db) :
    Call → Except WriteError (List Statement)
  | store entry => storeScript digest b db entry
  | storeMany entries => storeManyScript digest b db entries
  | update k blocks fields now => updateScript digest b db k blocks fields now
  | delete k => .ok (deleteStatements b db k)
  | deleteMany ns ids => .ok (deleteManyStatements b db ns ids)
  | deleteByNamespace ns => .ok (deleteByNamespaceStatements b db ns)

/-- The call that succeeds or is refused. -/
def run (digest : SyncContent → String) (b : Backend) (db : Db) (call : Call) : Db :=
  match call.script digest b db with
  | .ok statements => execute statements db
  | .error _ => db

/-- The rows a call deletes. -/
def deletes (db : Db) : Call → List RowKey
  | delete k => if (db.memories.find k).isSome then [k] else []
  | deleteMany ns ids => (existingIds db ns ids).map (RowKey.mk ns)
  | deleteByNamespace ns => (namespaceIds db ns).map (RowKey.mk ns)
  | store _ | storeMany _ | update _ _ _ _ => []

end Call

/-- A statement that may be run chunk by chunk. -/
structure Chunkable (statement : List String → Statement) : Prop where
  nothing : ∀ db, statement [] db = db
  append : ∀ first rest db, statement rest (statement first db) = statement (first ++ rest) db

theorem Chunkable.execute_map {statement : List String → Statement} (h : Chunkable statement)
    (chunks : List (List String)) (db : Db) :
    execute (chunks.map statement) db = statement chunks.flatten db := by
  induction chunks generalizing db with
  | nil => exact (h.nothing db).symm
  | cons chunk rest ih =>
      rw [List.map_cons, execute_cons, ih, List.flatten_cons, h.append]

theorem Chunkable.execute_chunks {statement : List String → Statement} (h : Chunkable statement)
    (ids : List String) {perItem reserved : Nat}
    (hsize : 0 < (SQLITE_SAFE_BIND_LIMIT - reserved) / perItem) (db : Db) :
    execute ((iterBindChunks ids perItem reserved).map statement) db = statement ids db := by
  rw [h.execute_map, flatten_iterBindChunks ids hsize]

theorem execute_flatMap (f : List String → List Statement) (chunks : List (List String)) (db : Db) :
    execute (chunks.flatMap f) db = execute (chunks.map fun chunk => execute (f chunk)) db := by
  induction chunks generalizing db with
  | nil => rfl
  | cons chunk rest ih => rw [List.flatMap_cons, execute_append, ih, List.map_cons, execute_cons]

theorem keyed_nil (ns : String) (k : RowKey) : keyed ns [] k = false := by
  simp [keyed]

theorem keyed_append (ns : String) (first rest : List String) :
    keyed ns (first ++ rest) = fun k => keyed ns first k || keyed ns rest k := by
  funext k
  simp only [keyed, List.contains_append]
  cases k.ns == ns <;> simp

theorem keyed_singleton (k k' : RowKey) : keyed k.ns [k.id] k' = (k' == k) := by
  cases k
  cases k'
  rw [Bool.eq_iff_iff]
  simp [keyed]

theorem edgeKeyed_append (ns : String) (first rest : List String) (edge : GraphEdge) :
    edgeKeyed ns (first ++ rest) edge = (edgeKeyed ns first edge || edgeKeyed ns rest edge) := by
  simp only [edgeKeyed, List.contains_append]
  cases edge.ns == ns <;> simp [Bool.or_assoc, Bool.or_left_comm]

theorem execute_deleteMemoriesKeyed (ns : String) (ids : List String) (db : Db) :
    execute (deleteMemoriesKeyed ns ids) db =
      { db with memories := db.memories.discard (keyed ns ids) } := by
  have hchunk : Chunkable fun chunk => deleteMemories (keyed ns chunk) := by
    refine ⟨fun db => ?_, fun first rest db => ?_⟩
    · simp only [deleteMemories, Table.discard_eq_self _ fun k _ => keyed_nil ns k]
    · simp only [deleteMemories, Table.discard_discard, keyed_append]
  exact hchunk.execute_chunks ids (by decide) db

theorem execute_purgeEdgesFor (ns : String) (ids : List String) (db : Db) :
    execute (purgeEdgesFor ns ids) db =
      { db with graphEdges := db.graphEdges.filter fun edge => !edgeKeyed ns ids edge } := by
  have hchunk : Chunkable fun chunk (db : Db) =>
      { db with graphEdges := db.graphEdges.filter fun edge => !edgeKeyed ns chunk edge } := by
    refine ⟨fun db => ?_, fun first rest db => ?_⟩
    · simp [edgeKeyed]
    · simp [edgeKeyed_append, Bool.and_comm]
  exact hchunk.execute_chunks ids (by decide) db

theorem execute_purgeVectorsFor (ns : String) (ids : List String) (db : Db) :
    execute (purgeVectorsFor ns ids) db =
      { db with vectors := db.vectors.discard (keyed ns ids) } := by
  have hchunk : Chunkable fun chunk (db : Db) =>
      { db with vectors := db.vectors.discard (keyed ns chunk) } := by
    refine ⟨fun db => ?_, fun first rest db => ?_⟩
    · simp only [Table.discard_eq_self _ fun k _ => keyed_nil ns k]
    · simp only [Table.discard_discard, keyed_append]
  exact hchunk.execute_chunks ids (by decide) db

theorem execute_purgePostingsFor (ns : String) (ids : List String) (db : Db) :
    execute (purgePostingsFor ns ids) db =
      { db with
        memoryTags := db.memoryTags.filter fun p => !keyed ns ids p.1
        anchorPostings := db.anchorPostings.filter fun p => !keyed ns ids p.1 } := by
  have htags : Chunkable fun chunk (db : Db) =>
      { db with memoryTags := db.memoryTags.filter fun p => !keyed ns chunk p.1 } := by
    refine ⟨fun db => ?_, fun first rest db => ?_⟩
    · simp [keyed_nil]
    · simp [keyed_append, Finset.filter_filter]
  have hanchors : Chunkable fun chunk (db : Db) =>
      { db with anchorPostings := db.anchorPostings.filter fun p => !keyed ns chunk p.1 } := by
    refine ⟨fun db => ?_, fun first rest db => ?_⟩
    · simp [keyed_nil]
    · simp [keyed_append, Finset.filter_filter]
  rw [purgePostingsFor, execute_append, htags.execute_chunks ids (by decide),
    hanchors.execute_chunks ids (by decide)]

/-- The FTS rows that the map files under `ids`. -/
def ftsKeyed (db : Db) (ns : String) (ids : List String) (rowid : Nat) : Bool :=
  db.memoriesFtsRowid.rows.any fun row => keyed ns ids row.1 && row.2 == rowid

/-- A rowid filed under an id of the second chunk is still filed when the first is gone. -/
theorem ftsKeyed_append (db : Db) (ns : String) (first rest : List String) (fts : Table Nat FtsRow)
    (rowid : Nat) :
    (ftsKeyed db ns first rowid ||
      ftsKeyed
        { db with
          memoriesFts := fts
          memoriesFtsRowid := db.memoriesFtsRowid.discard (keyed ns first) } ns rest rowid) =
      ftsKeyed db ns (first ++ rest) rowid := by
  rw [Bool.eq_iff_iff]
  simp only [ftsKeyed, Table.discard, keyed_append, List.any_filter, Bool.or_eq_true,
    List.any_eq_true, Bool.and_eq_true, Bool.not_eq_true']
  constructor
  · rintro (⟨row, hrow, hkey, hid⟩ | ⟨row, hrow, -, hkey, hid⟩)
    · exact ⟨row, hrow, .inl hkey, hid⟩
    · exact ⟨row, hrow, .inr hkey, hid⟩
  · rintro ⟨row, hrow, hkey, hid⟩
    cases hfirst : keyed ns first row.1 with
    | true => exact .inl ⟨row, hrow, hfirst, hid⟩
    | false => exact .inr ⟨row, hrow, hfirst, hkey.resolve_left (by simp [hfirst]), hid⟩

theorem execute_purgeFtsRowsFor (ns : String) (ids : List String) (db : Db) :
    execute (purgeFtsRowsFor ns ids) db =
      { db with
        memoriesFts := db.memoriesFts.discard (ftsKeyed db ns ids)
        memoriesFtsRowid := db.memoriesFtsRowid.discard (keyed ns ids) } := by
  have hchunk : Chunkable fun chunk (db : Db) =>
      { db with
        memoriesFts := db.memoriesFts.discard (ftsKeyed db ns chunk)
        memoriesFtsRowid := db.memoriesFtsRowid.discard (keyed ns chunk) } := by
    refine ⟨fun db => ?_, fun first rest db => ?_⟩
    · have hnone : ∀ rowid, ftsKeyed db ns [] rowid = false := fun rowid => by
        simp [ftsKeyed, keyed_nil]
      simp only [Table.discard_eq_self _ fun k _ => keyed_nil ns k,
        Table.discard_eq_self _ fun rowid _ => hnone rowid]
    · simp only [Table.discard_discard, keyed_append, ftsKeyed_append]
  rw [purgeFtsRowsFor, execute_flatMap]
  exact hchunk.execute_chunks ids (by decide) db

theorem execute_ftsDeleteRow (k : RowKey) (db : Db) :
    execute (ftsDeleteRow k) db =
      { db with
        memoriesFts := db.memoriesFts.discard fun rowid =>
          db.memoriesFtsRowid.find k == some rowid
        memoriesFtsRowid := db.memoriesFtsRowid.discard (· == k) } := by
  cases hfind : db.memoriesFtsRowid.find k with
  | none =>
      have hnone : ∀ rowid : Nat, ((none : Option Nat) == some rowid) = false := fun _ => rfl
      simp only [ftsDeleteRow, execute_cons, execute_nil, hfind,
        Table.discard_eq_self _ fun rowid _ => hnone rowid]
  | some rowid =>
      have hflip : (fun r => some rowid == some r) = fun r => r == rowid :=
        funext fun r => by rw [Bool.eq_iff_iff, beq_iff_eq, beq_iff_eq, Option.some.injEq, eq_comm]
      simp only [ftsDeleteRow, execute_cons, execute_nil, hfind, hflip]

theorem execute_ftsInsertRow (row : FtsRow) (db : Db) :
    execute (ftsInsertRow row) db =
      { db with
        memoriesFts := db.memoriesFts.put db.memoriesFts.nextKey row
        memoriesFtsRowid := db.memoriesFtsRowid.put row.key db.memoriesFts.nextKey } := by
  simp [ftsInsertRow, ftsInsert, ftsMapLast]

theorem execute_replaceTagPostings (k : RowKey) (tags : List String) (db : Db) :
    execute (replaceTagPostings k tags) db =
      { db with
        memoryTags :=
          db.memoryTags.filter (·.1 ≠ k) ∪ ((tagPostings tags).map (k, ·)).toFinset } := by
  have hinserts : ∀ (values : List String) (db : Db),
      execute (values.map fun tag db => { db with memoryTags := insert (k, tag) db.memoryTags })
        db =
        { db with memoryTags := db.memoryTags ∪ (values.map (k, ·)).toFinset } := by
    intro values
    induction values with
    | nil =>
        intro db
        simp
    | cons tag rest ih =>
        intro db
        rw [List.map_cons, execute_cons, ih]
        simp [Finset.insert_union, Finset.union_insert]
  rw [replaceTagPostings, execute_cons, hinserts]

theorem execute_replaceAnchorPostings (k : RowKey) (anchors : List Anchor) (db : Db) :
    execute (replaceAnchorPostings k anchors) db =
      { db with
        anchorPostings :=
          db.anchorPostings.filter (·.1 ≠ k) ∪ ((anchorFiles anchors).map (k, ·)).toFinset } := by
  have hinserts : ∀ (values : List String) (db : Db),
      execute (values.map fun file db =>
          { db with anchorPostings := insert (k, file) db.anchorPostings }) db =
        { db with anchorPostings := db.anchorPostings ∪ (values.map (k, ·)).toFinset } := by
    intro values
    induction values with
    | nil =>
        intro db
        simp
    | cons file rest ih =>
        intro db
        rw [List.map_cons, execute_cons, ih]
        simp [Finset.insert_union, Finset.union_insert]
  rw [replaceAnchorPostings, execute_cons, hinserts]

theorem ftsMapMany_inserts (rows : List FtsRow) (db : Db) :
    ftsMapMany (rows.map FtsRow.key) (execute (rows.map ftsInsert) db) =
      execute (rows.flatMap ftsInsertRow) db := by
  induction rows using List.reverseRecOn with
  | nil => simp [ftsMapMany, mapLast]
  | append_singleton rows row ih =>
      simp only [List.map_append, List.map_cons, List.map_nil, List.flatMap_append,
        List.flatMap_cons, List.flatMap_nil, List.append_nil, execute_append, execute_cons,
        execute_nil, ← ih]
      have hpred : (execute (rows.map ftsInsert) db).memoriesFts.nextKey - 1 =
          (execute (rows.map ftsInsert) db).memoriesFts.maxKey := Nat.add_sub_cancel _ 1
      simp only [ftsMapMany, ftsInsertRow, ftsInsert, ftsMapLast, execute_cons, execute_nil,
        List.reverse_append, List.reverse_cons, List.reverse_nil, List.nil_append,
        List.cons_append, mapLast, Table.maxKey_put_nextKey, hpred]

end TrwMemory.Storage

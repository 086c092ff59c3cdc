import TrwMemory.Embeddings.Provenance
import TrwMemory.Library.Json
import TrwMemory.Library.Table
import TrwMemory.Models.Entry
import Mathlib.Data.Finset.Image

/-!
The tables of the SQLite store and the statements on them (`storage/_schema.py`,
`_crud_index_ops.py`, `_anchor_index.py`, `_vector_ops.py`). A statement is what
it makes of the database; one that was refused has made nothing of it.

`vec_index` and `vec_memories` share their rowid and are one table here. Columns
of the graph that no modelled statement reads are left out.
-/
namespace TrwMemory.Storage

open Library.Keyed

/-- The primary key `(namespace, id)`. -/
structure RowKey where
  ns : String
  id : String
  deriving DecidableEq, Repr

def rowKey (e : MemoryEntry) : RowKey := ⟨e.ns, e.id⟩

structure FtsRow where
  key : RowKey
  content : String
  detail : String
  tags : String
  deriving DecidableEq, Repr

structure GraphEdge where
  ns : String
  sourceId : String
  targetId : String
  deriving DecidableEq, Repr

structure Db where
  memories : Table RowKey MemoryEntry
  memoriesFts : Table Nat FtsRow
  memoriesFtsRowid : Table RowKey Nat
  memoryTags : Finset (RowKey × String)
  anchorPostings : Finset (RowKey × String)
  graphEdges : List GraphEdge
  vectors : Table RowKey StoredVector

def Db.empty : Db := ⟨.empty, .empty, .empty, ∅, ∅, [], .empty⟩

/-- What a connection found when it opened the database. -/
structure Backend where
  vecAvailable : Bool
  ftsAvailable : Bool
  dim : Nat
  deriving DecidableEq, Repr

abbrev Statement := Db → Db

def execute (statements : List Statement) (db : Db) : Db :=
  statements.foldl (fun db statement => statement db) db

@[simp]
theorem execute_nil (db : Db) : execute [] db = db := rfl

@[simp]
theorem execute_cons (statement : Statement) (rest : List Statement) (db : Db) :
    execute (statement :: rest) db = execute rest (statement db) := rfl

@[simp]
theorem execute_append (first rest : List Statement) (db : Db) :
    execute (first ++ rest) db = execute rest (execute first db) :=
  List.foldl_append

def SQLITE_SAFE_BIND_LIMIT : Nat := 900

/-- At most `n` slices of `size` values each. -/
def chunksOf (size : Nat) : Nat → List String → List (List String)
  | 0, _ => []
  | _, [] => []
  | n + 1, values => values.take size :: chunksOf size n (values.drop size)

/-- `iter_bind_chunks`. -/
def iterBindChunks (values : List String) (bindingsPerItem reservedBindings : Nat) :
    List (List String) :=
  chunksOf ((SQLITE_SAFE_BIND_LIMIT - reservedBindings) / bindingsPerItem) values.length values

theorem flatten_chunksOf {size : Nat} (hsize : 0 < size) (n : Nat) (values : List String)
    (h : values.length ≤ n) : (chunksOf size n values).flatten = values := by
  induction n generalizing values with
  | zero =>
      obtain rfl := List.length_eq_zero_iff.mp (Nat.le_zero.mp h)
      rfl
  | succ n ih =>
      cases values with
      | nil => rfl
      | cons first rest =>
          have hrest : ((first :: rest).drop size).length ≤ n := by
            rw [List.length_drop]
            omega
          rw [chunksOf, List.flatten_cons, ih _ hrest, List.take_append_drop]
          exact List.cons_ne_nil first rest

theorem flatten_iterBindChunks (values : List String) {perItem reserved : Nat}
    (h : 0 < (SQLITE_SAFE_BIND_LIMIT - reserved) / perItem) :
    (iterBindChunks values perItem reserved).flatten = values :=
  flatten_chunksOf h _ values le_rfl

/-- `namespace = ? AND id IN (...)`. -/
def keyed (ns : String) (ids : List String) (k : RowKey) : Bool := k.ns == ns && ids.contains k.id

/-- The edge names a row of `ids`. -/
def edgeKeyed (ns : String) (ids : List String) (edge : GraphEdge) : Bool :=
  edge.ns == ns && (ids.contains edge.sourceId || ids.contains edge.targetId)

def GraphEdge.names (edge : GraphEdge) (k : RowKey) : Prop :=
  edge.ns = k.ns ∧ (edge.sourceId = k.id ∨ edge.targetId = k.id)

def insertOrReplace (row : MemoryEntry) : Statement := fun db =>
  { db with memories := db.memories.put (rowKey row) row }

def deleteMemories (p : RowKey → Bool) : Statement := fun db =>
  { db with memories := db.memories.discard p }

def ftsRow (e : MemoryEntry) : FtsRow where
  key := rowKey e
  content := e.content
  detail := e.detail
  tags := Library.Json.dumps (.arr (e.tags.map .str))

/-- The two deletes of `_fts_delete_row`. -/
def ftsDeleteRow (k : RowKey) : List Statement :=
  [fun db =>
    match db.memoriesFtsRowid.find k with
    | none => db
    | some rowid => { db with memoriesFts := db.memoriesFts.discard (· == rowid) },
    fun db => { db with memoriesFtsRowid := db.memoriesFtsRowid.discard (· == k) }]

/-- The FTS insert, which takes the next rowid. -/
def ftsInsert (row : FtsRow) : Statement := fun db =>
  { db with memoriesFts := db.memoriesFts.put db.memoriesFts.nextKey row }

/-- `cursor.lastrowid` of the FTS insert is the largest rowid after it. -/
def ftsMapLast (k : RowKey) : Statement := fun db =>
  { db with memoriesFtsRowid := db.memoriesFtsRowid.put k db.memoriesFts.maxKey }

def ftsInsertRow (row : FtsRow) : List Statement := [ftsInsert row, ftsMapLast row.key]

/-- `purge_fts_rows_for`. -/
def purgeFtsRowsFor (ns : String) (ids : List String) : List Statement :=
  (iterBindChunks ids 1 1).flatMap fun chunk =>
    [fun db =>
      { db with
        memoriesFts := db.memoriesFts.discard fun rowid =>
          db.memoriesFtsRowid.rows.any fun row => keyed ns chunk row.1 && row.2 == rowid },
      fun db => { db with memoriesFtsRowid := db.memoriesFtsRowid.discard (keyed ns chunk) }]

/-- Python's `str.isspace` of one character. -/
def pySpace (c : Char) : Bool :=
  let n := c.toNat
  (0x09 ≤ n && n ≤ 0x0d) || (0x1c ≤ n && n ≤ 0x20) || n == 0x85 || n == 0xa0 || n == 0x1680 ||
    (0x2000 ≤ n && n ≤ 0x200a) || n == 0x2028 || n == 0x2029 || n == 0x202f || n == 0x205f ||
    n == 0x3000

/-- `str.strip`. -/
def pyStrip (text : String) : String :=
  String.ofList ((text.toList.dropWhile pySpace).reverse.dropWhile pySpace).reverse

/-- `not text.strip()`. -/
def pyBlank (text : String) : Bool := text.toList.all pySpace

/-- `TRIM(text) = ''` in SQL, which strips spaces only. -/
def sqlBlank (text : String) : Bool := text.toList.all (· == ' ')

/-- The postings `_replace_tag_postings` inserts for the tags of a row. -/
def tagPostings (tags : List String) : List String :=
  tags.eraseDups.filter fun tag => !pyBlank tag

/-- `normalize_anchor_file`: `posixpath.normpath` of a relative path without `..`. -/
def normalizeAnchorFile (value : String) : Option String :=
  let parts := value.toList.splitOn '/'
  if pyBlank value || value.toList.head? == some '/' || parts.contains ['.', '.'] then none
  else
    let kept := parts.filter fun part => part != [] && part != ['.']
    if kept.isEmpty then none else some (String.ofList (['/'].intercalate kept))

def anchorFiles (anchors : List Anchor) : List String :=
  (anchors.filterMap fun anchor => normalizeAnchorFile anchor.file).eraseDups

def replaceTagPostings (k : RowKey) (tags : List String) : List Statement :=
  (fun db => { db with memoryTags := db.memoryTags.filter (·.1 ≠ k) }) ::
    (tagPostings tags).map fun tag db => { db with memoryTags := insert (k, tag) db.memoryTags }

def replaceAnchorPostings (k : RowKey) (anchors : List Anchor) : List Statement :=
  (fun db => { db with anchorPostings := db.anchorPostings.filter (·.1 ≠ k) }) ::
    (anchorFiles anchors).map fun file db =>
      { db with anchorPostings := insert (k, file) db.anchorPostings }

/-- `purge_postings_for`. -/
def purgePostingsFor (ns : String) (ids : List String) : List Statement :=
  ((iterBindChunks ids 1 1).map fun chunk db =>
      { db with memoryTags := db.memoryTags.filter fun p => !keyed ns chunk p.1 }) ++
    (iterBindChunks ids 1 1).map fun chunk db =>
      { db with anchorPostings := db.anchorPostings.filter fun p => !keyed ns chunk p.1 }

/-- `purge_edges_for`, which binds every id twice. -/
def purgeEdgesFor (ns : String) (ids : List String) : List Statement :=
  (iterBindChunks ids 2 1).map fun chunk db =>
    { db with graphEdges := db.graphEdges.filter fun edge => !edgeKeyed ns chunk edge }

/-- `purge_orphan_edges`. -/
def purgeOrphanEdges : Statement := fun db =>
  { db with
    graphEdges := db.graphEdges.filter fun edge =>
      (db.memories.find ⟨edge.ns, edge.sourceId⟩).isSome &&
        (db.memories.find ⟨edge.ns, edge.targetId⟩).isSome }

def deleteVector (k : RowKey) : Statement := fun db =>
  { db with vectors := db.vectors.discard (· == k) }

/-- `purge_vectors_for`. -/
def purgeVectorsFor (ns : String) (ids : List String) : List Statement :=
  (iterBindChunks ids 1 1).map fun chunk db =>
    { db with vectors := db.vectors.discard (keyed ns chunk) }

/-- `rebuild_memory_tags_postings`. -/
def rebuildMemoryTags (db : Db) : Finset (RowKey × String) :=
  (db.memories.rows.flatMap fun row =>
    (row.2.tags.filter fun tag => !sqlBlank tag).map fun tag => (row.1, tag)).toFinset

/-- `rebuild_anchor_postings`. -/
def rebuildAnchorPostings (db : Db) : Finset (RowKey × String) :=
  (db.memories.rows.flatMap fun row =>
    (anchorFiles row.2.anchors).map fun file => (row.1, file)).toFinset

end TrwMemory.Storage

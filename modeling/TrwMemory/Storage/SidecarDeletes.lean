import TrwMemory.Storage.SidecarCalls

/-!
The three deletes. Each takes the rows of some keys, their FTS rows, their postings and
every edge that names them; `Deleted` says so once, and consistency and the absence of
dangling edges follow from it.
-/
namespace TrwMemory.Storage

open Library.Keyed

/-- What a delete of the rows `p` leaves. -/
structure Deleted (b : Backend) (p : RowKey → Bool) (db db' : Db) : Prop where
  memories : db'.memories = db.memories.discard p
  tags : db'.memoryTags = db.memoryTags.filter fun posting => !p posting.1
  anchors : db'.anchorPostings = db.anchorPostings.filter fun posting => !p posting.1
  fts : b.ftsAvailable = true → FtsMatches db'
  edges : ∀ edge ∈ db'.graphEdges, edge ∈ db.graphEdges ∧ ∀ k, p k = true → ¬edge.names k

theorem Deleted.indexed {b : Backend} {p : RowKey → Bool} {db db' : Db}
    (hdel : Deleted b p db db') (h : Indexed b db) : Indexed b db' := by
  refine ⟨fun k e he => ?_, hdel.fts⟩
  rw [hdel.memories] at he
  exact rowsKeyed_discard h.keyed p k e he

theorem Deleted.consistent {b : Backend} {p : RowKey → Bool} {db db' : Db}
    (hdel : Deleted b p db db') (h : Consistent b db) : Consistent b db' := by
  have hgone : ∀ k, p k = true → (db.memories.discard p).find k = none := fun k hk => by
    simp [hk]
  have hsame : ∀ k, p k = false → (db.memories.discard p).find k = db.memories.find k :=
    fun k hk => by simp [hk]
  refine .of_parts (hdel.indexed h.indexed).keyed hdel.fts ?_ ?_
  · rw [hdel.memories, hdel.tags]
    exact (((rebuildMemoryTags_iff db).mp h.tags).outside hsame).purge hgone
  · rw [hdel.memories, hdel.anchors]
    exact (((rebuildAnchorPostings_iff db).mp h.anchors).outside hsame).purge hgone

/-- Dropping the FTS rows of deleted rows leaves the others in step. -/
theorem reindexes_purge {b : Backend} {db : Db} (h : Indexed b db) {p : RowKey → Bool}
    (vectors : Table RowKey StoredVector) {statements : List Statement} (drop : Nat → Bool)
    (hexec : b.ftsAvailable = true →
      execute statements { db with memories := db.memories.discard p, vectors } =
        { db with
          memories := db.memories.discard p, vectors
          memoriesFts := db.memoriesFts.discard drop
          memoriesFtsRowid := db.memoriesFtsRowid.discard p })
    (hdrop : b.ftsAvailable = true → ∀ rowid, drop rowid = true ↔
      ∃ k, p k = true ∧ db.memoriesFtsRowid.find k = some rowid) :
    Reindexes b (if b.ftsAvailable then statements else [])
      { db with memories := db.memories.discard p, vectors } := by
  refine reindexes_of_available fun hb => ⟨_, _, hexec hb, fun _ => ?_⟩
  have hout : FtsOutside p { db with memories := db.memories.discard p } :=
    (h.fts hb).outside h.keyed p fun k hk => by simp [hk]
  have hpurged : FtsPurged p { db with
      memories := db.memories.discard p
      memoriesFts := db.memoriesFts.discard drop
      memoriesFtsRowid := db.memoriesFtsRowid.discard p } := by
    refine ⟨hout.purge (fun _ hk => hk) (hdrop hb), fun k hk => ?_⟩
    simp [hk]
  obtain ⟨hmapped, hcurrent, howned⟩ := hpurged.matches fun k hk => by simp [hk]
  exact ⟨hmapped, hcurrent, howned⟩

/-- An edge that names a deleted row goes. -/
theorem edgeKeyed_of_names {ns : String} {ids : List String} {edge : GraphEdge} {k : RowKey}
    (hk : keyed ns ids k = true) (hnames : edge.names k) : edgeKeyed ns ids edge = true := by
  simp only [keyed, Bool.and_eq_true, beq_iff_eq, List.contains_iff_mem] at hk
  obtain ⟨rfl, hid⟩ := hk
  obtain ⟨hns, hsource | htarget⟩ := hnames
  · simp [edgeKeyed, hns, hsource, hid]
  · simp [edgeKeyed, hns, htarget, hid]

theorem edges_purged {ns : String} {ids : List String} {edges : List GraphEdge} {edge : GraphEdge}
    (h : edge ∈ edges.filter fun edge => !edgeKeyed ns ids edge) :
    edge ∈ edges ∧ ∀ k, keyed ns ids k = true → ¬edge.names k := by
  obtain ⟨hmem, hkept⟩ := List.mem_filter.mp h
  refine ⟨hmem, fun k hk hnames => ?_⟩
  rw [edgeKeyed_of_names hk hnames] at hkept
  cases hkept

/-- A delete whose vector, edge and posting statements come after its FTS statements. -/
theorem deleted_of_reindexes {b : Backend} {db : Db} {ns : String} {ids : List String}
    {vectors : Table RowKey StoredVector} {statements : List Statement}
    (hfts : Reindexes b statements
      { db with memories := db.memories.discard (keyed ns ids), vectors }) :
    Deleted b (keyed ns ids) db
      (execute (statements ++ purgeEdgesFor ns ids ++ purgePostingsFor ns ids)
        { db with memories := db.memories.discard (keyed ns ids), vectors }) := by
  obtain ⟨fts, map, hexec, hmatches⟩ := hfts
  rw [execute_append, execute_append, hexec, execute_purgeEdgesFor, execute_purgePostingsFor]
  refine ⟨rfl, rfl, rfl, fun hb => ?_, fun edge hedge => edges_purged hedge⟩
  obtain ⟨hmapped, hcurrent, howned⟩ := hmatches hb
  exact ⟨hmapped, hcurrent, howned⟩

theorem execute_dropVectors (b : Backend) (ns : String) (ids : List String) (db : Db) :
    ∃ vectors, execute (if b.vecAvailable then purgeVectorsFor ns ids else []) db =
      { db with vectors } := by
  cases b.vecAvailable with
  | true => exact ⟨_, execute_purgeVectorsFor ns ids db⟩
  | false => exact ⟨db.vectors, rfl⟩

theorem keyed_one (k : RowKey) : keyed k.ns [k.id] = (· == k) :=
  funext (keyed_singleton k)

/-- `delete` of a row that is there. -/
theorem deleted_deleteStatements {b : Backend} {db : Db} (h : Indexed b db) {k : RowKey}
    (hk : (db.memories.find k).isSome = true) :
    Deleted b (keyed k.ns [k.id]) db (execute (deleteStatements b db k) db) := by
  obtain ⟨vectors, hvec⟩ := execute_dropVector b.vecAvailable k
    { db with memories := db.memories.discard (keyed k.ns [k.id]) }
  have hfts : Reindexes b (if b.ftsAvailable then ftsDeleteRow k else [])
      { db with memories := db.memories.discard (keyed k.ns [k.id]), vectors } := by
    refine reindexes_purge h vectors (fun rowid => db.memoriesFtsRowid.find k == some rowid)
      (fun _ => ?_) (fun _ rowid => ?_)
    · rw [execute_ftsDeleteRow, keyed_one]
    · simp [keyed_one]
  have hdel := deleted_of_reindexes hfts
  rwa [deleteStatements, if_pos hk, execute_cons, ← keyed_one, List.append_assoc,
    List.append_assoc, execute_append, deleteMemories, hvec, ← List.append_assoc]

/-- `delete` of a row that is not there. -/
theorem execute_deleteStatements_absent (b : Backend) {db : Db} {k : RowKey}
    (hk : (db.memories.find k).isSome = false) :
    execute (deleteStatements b db k) db = db := by
  have hself : db.memories.discard (· == k) = db.memories := by
    refine db.memories.discard_eq_self fun k' hk' => ?_
    by_contra hkk
    obtain rfl : k' = k := by simpa using hkk
    rw [(db.memories.mem_keys k').mp hk'] at hk
    cases hk
  simp only [deleteStatements, hk, execute_cons, execute_nil, deleteMemories, hself,
    Bool.false_eq_true, if_false]

/-- `delete_many` of rows some of which are there. -/
theorem deleted_deleteManyStatements {b : Backend} {db : Db} (h : Indexed b db) {ns : String}
    {ids : List String} (hgone : (existingIds db ns ids).isEmpty = false) :
    Deleted b (keyed ns (existingIds db ns ids)) db
      (execute (deleteManyStatements b db ns ids) db) := by
  obtain ⟨vectors, hvec⟩ := execute_dropVectors b ns (existingIds db ns ids)
    { db with memories := db.memories.discard (keyed ns (existingIds db ns ids)) }
  have hdel := deleted_of_reindexes (reindexes_purge h vectors _
    (fun _ => execute_purgeFtsRowsFor ns (existingIds db ns ids) _)
    (fun _ => ftsKeyed_iff db ns (existingIds db ns ids)))
  rwa [deleteManyStatements, hgone, if_neg (by decide), List.append_assoc, List.append_assoc,
    List.append_assoc, execute_append, execute_deleteMemoriesKeyed, execute_append, hvec,
    ← List.append_assoc]

theorem keyed_namespaceIds {db : Db} {ns : String} {k : RowKey}
    (hk : (db.memories.find k).isSome = true) :
    keyed ns (namespaceIds db ns) k = (k.ns == ns) := by
  rw [Bool.eq_iff_iff]
  simp only [keyed, namespaceIds, Bool.and_eq_true, beq_iff_eq, List.contains_iff_mem,
    List.mem_map, List.mem_filter, and_iff_left_iff_imp]
  rintro rfl
  exact ⟨k, ⟨(db.memories.mem_keys k).mpr hk, rfl⟩, rfl⟩

/-- The ghost rows that the anti-join finds are the FTS rows of the deleted namespace. -/
theorem reindexes_antiJoin {b : Backend} {db : Db} (h : Indexed b db) (ns : String) :
    Reindexes b (if b.ftsAvailable then ftsAntiJoin ns else [])
      { db with memories := db.memories.discard (keyed ns (namespaceIds db ns)) } := by
  have hrows : ∀ {k}, keyed ns (namespaceIds db ns) k = true →
      (db.memories.find k).isSome = true := by
    intro k hk
    simp only [keyed, namespaceIds, Bool.and_eq_true, beq_iff_eq, List.contains_iff_mem,
      List.mem_map, List.mem_filter] at hk
    obtain ⟨hns, k', ⟨hmem, hns'⟩, hid⟩ := hk
    obtain rfl : k' = k := by
      cases k
      cases k'
      simp_all
    exact (db.memories.mem_keys k').mp hmem
  refine reindexes_purge h db.vectors
    (fun rowid => (db.memoriesFts.find rowid).any fun row =>
      ((db.memories.discard (keyed ns (namespaceIds db ns))).find row.key).isNone)
    (fun hb => ?_) (fun hb rowid => ?_)
  · have hmap : db.memoriesFtsRowid.discard (fun k => k.ns == ns) =
        db.memoriesFtsRowid.discard (keyed ns (namespaceIds db ns)) := by
      refine db.memoriesFtsRowid.discard_congr fun k hk => ?_
      rw [Table.mem_keys, (h.fts hb).mapped k] at hk
      exact (keyed_namespaceIds hk).symm
    simp only [ftsAntiJoin, execute_cons, execute_nil, hmap]
  · constructor
    · intro hdrop
      obtain ⟨row, hrow, hghost⟩ := (Option.any_eq_true _ _).mp hdrop
      have hid := (h.fts hb).owned rowid row hrow
      refine ⟨row.key, ?_, hid⟩
      by_contra hkept
      have hsome := (h.fts hb).mapped row.key
      rw [Table.find_discard, if_neg hkept, Option.isNone_iff_eq_none] at hghost
      rw [hid, hghost] at hsome
      cases hsome
    · rintro ⟨k, hk, hid⟩
      obtain ⟨e, he⟩ := Option.isSome_iff_exists.mp (hrows hk)
      have hkey : (ftsRow e).key = k := h.keyed k e he
      rw [(h.fts hb).current k e rowid he hid, Option.any_some, hkey, Table.find_discard, if_pos hk]
      rfl

/-- `delete_by_namespace` of a namespace with rows. -/
theorem deleted_deleteByNamespaceStatements {b : Backend} {db : Db} (h : Indexed b db)
    {ns : String} (hids : (namespaceIds db ns).isEmpty = false) :
    Deleted b (keyed ns (namespaceIds db ns)) db
      (execute (deleteByNamespaceStatements b db ns) db) := by
  have hmemories : db.memories.discard (fun k => k.ns == ns) =
      db.memories.discard (keyed ns (namespaceIds db ns)) :=
    db.memories.discard_congr fun k hk =>
      (keyed_namespaceIds ((db.memories.mem_keys k).mp hk)).symm
  obtain ⟨fts, map, hexec, hmatches⟩ := reindexes_antiJoin h ns
  rw [deleteByNamespaceStatements, hids, if_neg (by decide), execute_cons, deleteMemories,
    hmemories, execute_append, execute_append, execute_append, execute_append, hexec,
    execute_purgeEdgesFor, execute_cons, execute_nil, purgeOrphanEdges, execute_purgePostingsFor]
  obtain ⟨vectors, hpurged⟩ := execute_dropVectors b ns (namespaceIds db ns) _
  rw [hpurged]
  refine ⟨rfl, rfl, rfl, fun hb => ?_,
    fun edge hedge => edges_purged (List.mem_of_mem_filter hedge)⟩
  obtain ⟨hmapped, hcurrent, howned⟩ := hmatches hb
  exact ⟨hmapped, hcurrent, howned⟩

end TrwMemory.Storage

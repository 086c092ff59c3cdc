import TrwMemory.Storage.Sidecars

/-!
Each call keeps the sidecars in step with the rows, one theorem per call. The tags a
call writes must be blank for both trims: the incremental postings strip every kind
of white space, the rebuild strips spaces.
-/
namespace TrwMemory.Storage

open Library.Keyed Sync

/-- Python's and SQL's trim agree that the tag is blank, or that it is not. -/
def TrimsAlike (tags : List String) : Prop := ∀ tag ∈ tags, pyBlank tag = sqlBlank tag

instance (tags : List String) : Decidable (TrimsAlike tags) :=
  inferInstanceAs (Decidable (∀ tag ∈ tags, _))

theorem mem_tagPostings {e : MemoryEntry} (h : TrimsAlike e.tags) (tag : String) :
    tag ∈ tagPostings e.tags ↔ tag ∈ rebuiltTags e := by
  simp only [tagPostings, rebuiltTags, List.mem_filter, mem_eraseDups]
  exact and_congr_right fun hmem => by rw [h tag hmem]

/-- The sidecar statements of one row leave the rest of the database alone. -/
theorem execute_replacePostings (k : RowKey) (tags : List String) (anchors : List Anchor)
    (db : Db) :
    execute (replaceTagPostings k tags ++ replaceAnchorPostings k anchors) db =
      { db with
        memoryTags := db.memoryTags.filter (·.1 ≠ k) ∪ ((tagPostings tags).map (k, ·)).toFinset
        anchorPostings :=
          db.anchorPostings.filter (·.1 ≠ k) ∪ ((anchorFiles anchors).map (k, ·)).toFinset } := by
  rw [execute_append, execute_replaceTagPostings, execute_replaceAnchorPostings]

theorem minus_singleton (k k' : RowKey) : minus (· == k) k k' = false := by
  simp [minus]

theorem find_put_outside (rows : Table RowKey MemoryEntry) (k : RowKey) (row : MemoryEntry) :
    ∀ k', (k' == k) = false → (rows.put k row).find k' = rows.find k' := by
  intro k' hk'
  exact Table.find_put_of_ne _ _ (by simpa using hk')

theorem rowsKeyed_put {db : Db} (h : RowsKeyed db) {k : RowKey} {row : MemoryEntry}
    (hrow : rowKey row = k) : RowsKeyed { db with memories := db.memories.put k row } := by
  intro k' e he
  by_cases hkk : k' = k
  · subst hkk
    simp only [Table.find_put_self, Option.some.injEq] at he
    exact he ▸ hrow
  · simp only [Table.find_put, hkk, if_false] at he
    exact h k' e he

theorem rowsKeyed_discard {db : Db} (h : RowsKeyed db) (p : RowKey → Bool) :
    RowsKeyed { db with memories := db.memories.discard p } := by
  intro k e he
  simp only [Table.find_discard] at he
  split at he
  · cases he
  · exact h k e he

/-- The FTS statements of a call touch the FTS tables only, and leave them in step with
the rows. -/
def Reindexes (b : Backend) (statements : List Statement) (db : Db) : Prop :=
  ∃ fts map,
    execute statements db = { db with memoriesFts := fts, memoriesFtsRowid := map } ∧
      (b.ftsAvailable = true →
        FtsMatches { db with memoriesFts := fts, memoriesFtsRowid := map })

theorem reindexes_of_available {b : Backend} {statements : List Statement} {db : Db}
    (h : b.ftsAvailable = true → Reindexes b statements db) :
    Reindexes b (if b.ftsAvailable then statements else []) db := by
  cases hb : b.ftsAvailable with
  | true => exact h hb
  | false => exact ⟨db.memoriesFts, db.memoriesFtsRowid, rfl, fun hfts => by simp [hb] at hfts⟩

/-- The FTS row of a changed row is replaced. -/
theorem reindexes_row {b : Backend} {db : Db} {k : RowKey} {row : FtsRow} {e : MemoryEntry}
    (h : FtsOutside (· == k) db) (he : db.memories.find k = some e) (hkey : rowKey e = k)
    (hrow : row = ftsRow e) : Reindexes b (ftsDeleteRow k ++ ftsInsertRow row) db := by
  have hpurged : FtsPurged (· == k) (execute (ftsDeleteRow k) db) := by
    refine ⟨h.deleteRow (by simp), fun k' hk' => ?_⟩
    rw [execute_ftsDeleteRow]
    simp [hk']
  have he' : (execute (ftsDeleteRow k) db).memories.find k = some e := by
    rwa [execute_ftsDeleteRow]
  have hmatches := (hpurged.insertRow (by simp) he' hkey hrow).matches fun k' hk' => by
    rw [minus_singleton] at hk'
    cases hk'
  rw [execute_ftsDeleteRow, execute_ftsInsertRow] at hmatches
  refine ⟨_, _, ?_, fun _ => hmatches⟩
  rw [execute_append, execute_ftsDeleteRow, execute_ftsInsertRow]

/-- Dropping the vector of a row, or not. -/
theorem execute_dropVector (drop : Bool) (k : RowKey) (db : Db) :
    ∃ vectors, execute (if drop then [deleteVector k] else []) db = { db with vectors } := by
  cases drop with
  | true => exact ⟨db.vectors.discard (· == k), rfl⟩
  | false => exact ⟨db.vectors, rfl⟩

/-- The parts of a consistent store, as the calls below leave them. -/
theorem Consistent.of_parts {b : Backend} {db : Db} (hkeyed : RowsKeyed db)
    (hfts : b.ftsAvailable = true → FtsMatches db)
    (htags : PostingsOutside nowhere rebuiltTags db.memories db.memoryTags)
    (hanchors : PostingsOutside nowhere rebuiltAnchors db.memories db.anchorPostings) :
    Consistent b db :=
  ⟨hkeyed, hfts, (rebuildMemoryTags_iff db).mpr htags, (rebuildAnchorPostings_iff db).mpr hanchors⟩

/-- What a write of rows leaves: the sidecars of the new rows, and the old edges. -/
structure Written (b : Backend) (db db' : Db) : Prop where
  consistent : Consistent b db'
  edges : db'.graphEdges = db.graphEdges

/-- `store` table by table. -/
theorem parts_storeStatements {b : Backend} {db : Db} (h : Indexed b db) (row : MemoryEntry) :
    ∃ fts map,
      execute (storeStatements b row) db =
        { db with
          memories := db.memories.put (rowKey row) row
          memoriesFts := fts
          memoriesFtsRowid := map
          memoryTags := db.memoryTags.filter (·.1 ≠ rowKey row) ∪
            ((tagPostings row.tags).map (rowKey row, ·)).toFinset
          anchorPostings := db.anchorPostings.filter (·.1 ≠ rowKey row) ∪
            ((anchorFiles row.anchors).map (rowKey row, ·)).toFinset } ∧
      (b.ftsAvailable = true →
        FtsMatches { insertOrReplace row db with memoriesFts := fts, memoriesFtsRowid := map }) ∧
      (b.ftsAvailable = false → fts = db.memoriesFts ∧ map = db.memoriesFtsRowid) := by
  have hfind : (db.memories.put (rowKey row) row).find (rowKey row) = some row :=
    Table.find_put_self _ _ _
  have hput := find_put_outside db.memories (rowKey row) row
  cases hb : b.ftsAvailable with
  | true =>
      obtain ⟨fts, map, hexec, hmatches⟩ := reindexes_row (b := b)
        ((h.fts hb).outside h.keyed (· == rowKey row) hput) hfind rfl rfl
      refine ⟨fts, map, ?_, fun _ => hmatches hb, fun h => by cases h⟩
      rw [storeStatements, hb, if_pos rfl, List.append_assoc, execute_cons, execute_append]
      rw [show insertOrReplace row db =
        { db with memories := db.memories.put (rowKey row) row } from rfl, hexec,
        execute_replacePostings]
  | false =>
      refine ⟨db.memoriesFts, db.memoriesFtsRowid, ?_, fun h => (by cases h), fun _ => ⟨rfl, rfl⟩⟩
      rw [storeStatements, hb, if_neg (by decide), List.nil_append, execute_cons,
        execute_replacePostings]
      rfl

theorem indexed_storeStatements {b : Backend} {db : Db} (h : Indexed b db) (row : MemoryEntry) :
    Indexed b (execute (storeStatements b row) db) := by
  obtain ⟨fts, map, hexec, hmatches, -⟩ := parts_storeStatements h row
  rw [hexec]
  refine ⟨rowsKeyed_put h.keyed rfl, fun hb => ?_⟩
  obtain ⟨hmapped, hcurrent, howned⟩ := hmatches hb
  exact ⟨hmapped, hcurrent, howned⟩

/-- `store`. -/
theorem written_storeStatements {b : Backend} {db : Db} (h : Consistent b db) {row : MemoryEntry}
    (htags : TrimsAlike row.tags) : Written b db (execute (storeStatements b row) db) := by
  have hfind : (db.memories.put (rowKey row) row).find (rowKey row) = some row :=
    Table.find_put_self _ _ _
  have hput := find_put_outside db.memories (rowKey row) row
  have hpost := ((rebuildMemoryTags_iff db).mp h.tags).outside hput
  have hanch := ((rebuildAnchorPostings_iff db).mp h.anchors).outside hput
  obtain ⟨fts, map, hexec, hmatches, -⟩ := parts_storeStatements h.indexed row
  rw [hexec]
  refine ⟨.of_parts (rowsKeyed_put h.keyed rfl) (fun hb => ?_) ?_ ?_, rfl⟩
  · obtain ⟨hmapped, hcurrent, howned⟩ := hmatches hb
    exact ⟨hmapped, hcurrent, howned⟩
  · exact (hpost.replace hfind (mem_tagPostings htags)).everywhere (minus_singleton _)
  · have hfiles : ∀ v, v ∈ anchorFiles row.anchors ↔ v ∈ rebuiltAnchors row := fun _ => Iff.rfl
    exact (hanch.replace hfind hfiles).everywhere (minus_singleton _)

theorem rowKey_patched (row : MemoryEntry) (fields : Patch) :
    rowKey (row.patched fields) = rowKey row := rfl

section Patched

variable {digest : SyncContent → String} {row existing : MemoryEntry} {fields : Patch}
  {now : Datetime}

theorem tags_patched :
    (row.patched (updateFields digest existing fields now)).tags =
      (fields .tags).getD row.tags := by
  rw [← updateFields_other digest existing fields now (by decide : Column.tags ∉ ownColumns)]
  rfl

theorem anchors_patched :
    (row.patched (updateFields digest existing fields now)).anchors =
      (fields .anchors).getD row.anchors := by
  rw [← updateFields_other digest existing fields now (by decide : Column.anchors ∉ ownColumns)]
  rfl

theorem ftsRow_patched {k : RowKey} (hread : rowToEntry row = some existing)
    (hkey : rowKey row = k) :
    ftsRow (row.patched (updateFields digest existing fields now)) =
      updatedFtsRow k existing fields := by
  have hcontent : existing.content = row.content := rowToEntry_eq hread ▸ rfl
  have hdetail : existing.detail = row.detail := rowToEntry_eq hread ▸ rfl
  have htags : existing.tags = row.tags := rowToEntry_eq hread ▸ rfl
  have hrow : ftsRow (row.patched (updateFields digest existing fields now)) =
      { key := rowKey row
        content := (updateFields digest existing fields now .content).getD row.content
        detail := (updateFields digest existing fields now .detail).getD row.detail
        tags := Library.Json.dumps (.arr
          (((updateFields digest existing fields now .tags).getD row.tags).map .str)) } := rfl
  rw [hrow, hkey, updatedFtsRow, hcontent, hdetail, htags,
    updateFields_other digest existing fields now (by decide : Column.content ∉ ownColumns),
    updateFields_other digest existing fields now (by decide : Column.detail ∉ ownColumns),
    updateFields_other digest existing fields now (by decide : Column.tags ∉ ownColumns)]

/-- An update that names none of the indexed fields leaves the text of the FTS row. -/
theorem updatedFtsRow_unnamed {k : RowKey} (hread : rowToEntry row = some existing)
    (hkey : rowKey row = k) (hnames : namesText fields = false) :
    updatedFtsRow k existing fields = ftsRow row := by
  have hcontent : existing.content = row.content := rowToEntry_eq hread ▸ rfl
  have hdetail : existing.detail = row.detail := rowToEntry_eq hread ▸ rfl
  have htags : existing.tags = row.tags := rowToEntry_eq hread ▸ rfl
  simp only [namesText, Patch.names, Bool.or_eq_false_iff, Option.isSome_eq_false_iff,
    Option.isNone_iff_eq_none] at hnames
  obtain ⟨⟨hc, hd⟩, ht⟩ := hnames
  simp only [updatedFtsRow, ftsRow, hc, hd, ht, Option.getD_none, hcontent, hdetail, htags, hkey]

end Patched

/-- Postings of a field that an update does not name stay. -/
theorem PostingsOutside.kept {values : MemoryEntry → List String}
    {rows : Table RowKey MemoryEntry} {postings : Finset (RowKey × String)}
    (h : PostingsOutside nowhere values rows postings) {k : RowKey} {row row' : MemoryEntry}
    (hrow : rows.find k = some row) (hsame : values row' = values row) :
    PostingsOutside nowhere values (rows.put k row') postings := by
  intro k' v hk'
  rw [h k' v hk']
  by_cases hkk : k' = k
  · subst hkk
    simp [hrow, hsame]
  · simp [hkk]

theorem FtsMatches.kept {db : Db} (h : FtsMatches db) {k : RowKey} {row row' : MemoryEntry}
    (hrow : db.memories.find k = some row) (hsame : ftsRow row' = ftsRow row) :
    FtsMatches { db with memories := db.memories.put k row' } := by
  refine ⟨fun k' => ?_, fun k' e rowid he hid => ?_, h.owned⟩
  · rw [h.mapped k']
    by_cases hkk : k' = k
    · subst hkk
      simp [hrow]
    · simp [hkk]
  · by_cases hkk : k' = k
    · subst hkk
      simp only [Table.find_put_self, Option.some.injEq] at he
      rw [← he, hsame]
      exact h.current k' row rowid hrow hid
    · simp only [Table.find_put, hkk, if_false] at he
      exact h.current k' e rowid he hid

section Written

variable (db : Db) {rows : Table RowKey MemoryEntry} {k : RowKey} {row written : MemoryEntry}

theorem retagged (h : PostingsOutside nowhere rebuiltTags rows db.memoryTags)
    (hmemories : db.memories = rows.put k written) (hrow : rows.find k = some row)
    (tags : Option (List String)) (hwritten : written.tags = tags.getD row.tags)
    (htrims : TrimsAlike (tags.getD [])) :
    ∃ postings, execute (tags.elim [] (replaceTagPostings k)) db =
        { db with memoryTags := postings } ∧
      PostingsOutside nowhere rebuiltTags db.memories postings := by
  cases tags with
  | none =>
      refine ⟨db.memoryTags, rfl, ?_⟩
      rw [hmemories]
      exact h.kept hrow (by rw [rebuiltTags, hwritten]; rfl)
  | some tags =>
      obtain rfl : written.tags = tags := hwritten
      refine ⟨_, execute_replaceTagPostings k written.tags db, ?_⟩
      rw [hmemories]
      exact ((h.outside (find_put_outside rows k written)).replace (Table.find_put_self _ _ _)
        (mem_tagPostings htrims)).everywhere (minus_singleton _)

theorem reanchored (h : PostingsOutside nowhere rebuiltAnchors rows db.anchorPostings)
    (hmemories : db.memories = rows.put k written) (hrow : rows.find k = some row)
    (anchors : Option (List Anchor)) (hwritten : written.anchors = anchors.getD row.anchors) :
    ∃ postings, execute (anchors.elim [] (replaceAnchorPostings k)) db =
        { db with anchorPostings := postings } ∧
      PostingsOutside nowhere rebuiltAnchors db.memories postings := by
  cases anchors with
  | none =>
      refine ⟨db.anchorPostings, rfl, ?_⟩
      rw [hmemories]
      exact h.kept hrow (by rw [rebuiltAnchors, hwritten]; rfl)
  | some anchors =>
      obtain rfl : written.anchors = anchors := hwritten
      have hfiles : ∀ v, v ∈ anchorFiles written.anchors ↔ v ∈ rebuiltAnchors written :=
        fun _ => Iff.rfl
      refine ⟨_, execute_replaceAnchorPostings k written.anchors db, ?_⟩
      rw [hmemories]
      exact ((h.outside (find_put_outside rows k written)).replace (Table.find_put_self _ _ _)
        hfiles).everywhere (minus_singleton _)

end Written

/-- The FTS statements of an update, which are left out when no indexed field is named. -/
theorem reindexes_update {b : Backend} {db : Db} (h : Indexed b db) {k : RowKey}
    {row written existing : MemoryEntry} {fields : Patch} (hrow : db.memories.find k = some row)
    (hread : rowToEntry row = some existing) (hkey : rowKey written = k)
    (hwritten : ftsRow written = updatedFtsRow k existing fields)
    (vectors : Table RowKey StoredVector) :
    Reindexes b
      (if namesText fields && b.ftsAvailable then
        ftsDeleteRow k ++ ftsInsertRow (updatedFtsRow k existing fields)
      else [])
      { db with memories := db.memories.put k written, vectors } := by
  cases hnames : namesText fields with
  | true =>
      refine reindexes_of_available fun hb => ?_
      obtain ⟨hmapped, hcurrent, howned, hdistinct⟩ :=
        (h.fts hb).outside h.keyed (· == k) (find_put_outside db.memories k written)
      exact reindexes_row ⟨hmapped, hcurrent, howned, hdistinct⟩ (Table.find_put_self _ _ _) hkey
        hwritten.symm
  | false =>
      refine ⟨db.memoriesFts, db.memoriesFtsRowid, rfl, fun hb => ?_⟩
      have hsame : ftsRow written = ftsRow row :=
        hwritten.trans (updatedFtsRow_unnamed hread (h.keyed k row hrow) hnames)
      obtain ⟨hmapped, hcurrent, howned⟩ := (h.fts hb).kept hrow hsame
      exact ⟨hmapped, hcurrent, howned⟩

theorem indexed_updateStatements {digest : SyncContent → String} {b : Backend} {db : Db}
    (h : Indexed b db) {k : RowKey} {row existing : MemoryEntry} {fields : Patch} {now : Datetime}
    (hrow : db.memories.find k = some row) (hread : rowToEntry row = some existing) :
    Indexed b (execute (updateStatements digest b existing k fields now) db) := by
  have hkey : rowKey row = k := h.keyed k row hrow
  obtain ⟨written, hwritten⟩ :
      ∃ written, written = row.patched (updateFields digest existing fields now) := ⟨_, rfl⟩
  have hkeyed : rowKey written = k := by rw [hwritten, rowKey_patched, hkey]
  have hupdate : updateMemories k (updateFields digest existing fields now) db =
      { db with memories := db.memories.put k written } := by
    simp only [updateMemories, hrow, hwritten]
  obtain ⟨vectors, hvec⟩ := execute_dropVector (prunesVector existing fields && b.vecAvailable) k
    { db with memories := db.memories.put k written }
  obtain ⟨fts, map, hfts, hmatches⟩ := reindexes_update h hrow hread hkeyed
    (hwritten ▸ ftsRow_patched hread hkey) vectors
  have htags : ∀ db : Db, ∃ tags, execute ((fields .tags).elim [] (replaceTagPostings k)) db =
      { db with memoryTags := tags } := by
    cases fields .tags with
    | none => exact fun db => ⟨db.memoryTags, rfl⟩
    | some tags => exact fun db => ⟨_, execute_replaceTagPostings k tags db⟩
  have hanchors : ∀ db : Db, ∃ files,
      execute ((fields .anchors).elim [] (replaceAnchorPostings k)) db =
        { db with anchorPostings := files } := by
    cases fields .anchors with
    | none => exact fun db => ⟨db.anchorPostings, rfl⟩
    | some anchors => exact fun db => ⟨_, execute_replaceAnchorPostings k anchors db⟩
  rw [updateStatements, execute_cons, hupdate, execute_append, execute_append, execute_append, hvec,
    hfts]
  obtain ⟨tags, htagged⟩ := htags _
  rw [htagged]
  obtain ⟨files, hanchored⟩ := hanchors _
  rw [hanchored]
  refine ⟨rowsKeyed_put h.keyed hkeyed, fun hb => ?_⟩
  obtain ⟨hmapped, hcurrent, howned⟩ := hmatches hb
  exact ⟨hmapped, hcurrent, howned⟩

/-- `update`. -/
theorem written_updateStatements {digest : SyncContent → String} {b : Backend} {db : Db}
    (h : Consistent b db) {k : RowKey} {row existing : MemoryEntry} {fields : Patch}
    {now : Datetime} (hrow : db.memories.find k = some row) (hread : rowToEntry row = some existing)
    (htags : TrimsAlike ((fields .tags).getD [])) :
    Written b db (execute (updateStatements digest b existing k fields now) db) := by
  have hkey : rowKey row = k := h.keyed k row hrow
  obtain ⟨written, hwritten⟩ :
      ∃ written, written = row.patched (updateFields digest existing fields now) := ⟨_, rfl⟩
  have hkeyed : rowKey written = k := by rw [hwritten, rowKey_patched, hkey]
  have hupdate : updateMemories k (updateFields digest existing fields now) db =
      { db with memories := db.memories.put k written } := by
    simp only [updateMemories, hrow, hwritten]
  obtain ⟨vectors, hvec⟩ := execute_dropVector (prunesVector existing fields && b.vecAvailable) k
    { db with memories := db.memories.put k written }
  obtain ⟨fts, map, hfts, hmatches⟩ := reindexes_update h.indexed hrow hread hkeyed
    (hwritten ▸ ftsRow_patched hread hkey) vectors
  obtain ⟨tags, htagged, hpost⟩ := retagged
    { db with
      memories := db.memories.put k written, vectors, memoriesFts := fts, memoriesFtsRowid := map }
    ((rebuildMemoryTags_iff db).mp h.tags) rfl hrow (fields .tags) (hwritten ▸ tags_patched) htags
  obtain ⟨files, hanchored, hanch⟩ := reanchored
    { db with
      memories := db.memories.put k written, vectors, memoriesFts := fts, memoriesFtsRowid := map
      memoryTags := tags }
    ((rebuildAnchorPostings_iff db).mp h.anchors) rfl hrow (fields .anchors)
    (hwritten ▸ anchors_patched)
  rw [updateStatements, execute_cons, hupdate, execute_append, execute_append, execute_append, hvec,
    hfts, htagged, hanchored]
  refine ⟨.of_parts (rowsKeyed_put h.keyed hkeyed) (fun hb => ?_) hpost hanch, rfl⟩
  obtain ⟨hmapped, hcurrent, howned⟩ := hmatches hb
  exact ⟨hmapped, hcurrent, howned⟩

end TrwMemory.Storage

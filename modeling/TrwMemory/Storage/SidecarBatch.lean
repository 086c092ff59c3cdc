import TrwMemory.Storage.SidecarCalls

/-!
A batch keeps the sidecars. The last entry of each key is the row that the batch
leaves; its FTS row is written once, after the FTS rows of all the keys are gone, and
its postings once.
-/
namespace TrwMemory.Storage

open Library.Keyed

theorem rowKey_of_find {rows : List MemoryEntry} {k : RowKey} {e : MemoryEntry}
    (h : (rows.reverse.find? fun row => rowKey row = k) = some e) : rowKey e = k := by
  simpa using List.find?_some h

theorem finalEntries_keys (rows : List MemoryEntry) :
    (finalEntries rows).map rowKey = (rows.map rowKey).eraseDups := by
  have hkeys : ∀ keys : List RowKey, (∀ k ∈ keys, k ∈ rows.map rowKey) →
      (keys.filterMap fun k => rows.reverse.find? fun row => rowKey row = k).map rowKey = keys := by
    intro keys hmem
    induction keys with
    | nil => rfl
    | cons k keys ih =>
        obtain ⟨row, hrow, hkey⟩ := List.mem_map.mp (hmem k List.mem_cons_self)
        have hsome : (rows.reverse.find? fun row => rowKey row = k).isSome = true := by
          rw [List.find?_isSome]
          exact ⟨row, List.mem_reverse.mpr hrow, by simpa using hkey⟩
        obtain ⟨e, he⟩ := Option.isSome_iff_exists.mp hsome
        have hrest := ih fun k' hk' => hmem k' (List.mem_cons_of_mem k hk')
        simp only [List.filterMap_cons, he, List.map_cons, rowKey_of_find he, hrest]
  exact hkeys _ fun k hk => mem_eraseDups.mp hk

theorem finalEntries_last {rows : List MemoryEntry} {e : MemoryEntry} (h : e ∈ finalEntries rows) :
    (rows.reverse.find? fun row => rowKey row = rowKey e) = some e := by
  obtain ⟨k, -, he⟩ := List.mem_filterMap.mp h
  rw [← rowKey_of_find he] at he
  exact he

theorem execute_insertRows (rows : List MemoryEntry) (db : Db) :
    ∃ memories, execute (rows.map insertOrReplace) db = { db with memories } ∧
      ∀ k, memories.find k =
        (rows.reverse.find? fun row => rowKey row = k).or (db.memories.find k) := by
  induction rows generalizing db with
  | nil => exact ⟨db.memories, rfl, fun k => rfl⟩
  | cons row rows ih =>
      obtain ⟨memories, hexec, hfind⟩ := ih (insertOrReplace row db)
      refine ⟨memories, by rw [List.map_cons, execute_cons, hexec]; rfl, fun k => ?_⟩
      rw [hfind k, List.reverse_cons, List.find?_append, insertOrReplace, Table.find_put]
      by_cases hk : k = rowKey row
      · simp [hk]
      · simp [hk, Ne.symm hk]

/-- Statements on the FTS tables. -/
def FtsOnly (statements : List Statement) : Prop :=
  ∀ db, ∃ fts map,
    execute statements db = { db with memoriesFts := fts, memoriesFtsRowid := map }

theorem FtsOnly.append {first rest : List Statement} (h : FtsOnly first) (h' : FtsOnly rest) :
    FtsOnly (first ++ rest) := by
  intro db
  obtain ⟨fts, map, hfirst⟩ := h db
  rw [execute_append, hfirst]
  exact h' _

theorem FtsOnly.flatMap {α : Type} {f : α → List Statement} (values : List α)
    (h : ∀ a ∈ values, FtsOnly (f a)) : FtsOnly (values.flatMap f) := by
  induction values with
  | nil => exact fun db => ⟨db.memoriesFts, db.memoriesFtsRowid, rfl⟩
  | cons a values ih =>
      rw [List.flatMap_cons]
      exact (h a List.mem_cons_self).append (ih fun b hb => h b (List.mem_cons_of_mem a hb))

theorem ftsOnly_purge (ns : String) (ids : List String) : FtsOnly (purgeFtsRowsFor ns ids) :=
  fun db => ⟨_, _, execute_purgeFtsRowsFor ns ids db⟩

theorem ftsOnly_insert (row : FtsRow) : FtsOnly (ftsInsertRow row) :=
  fun db => ⟨_, _, execute_ftsInsertRow row db⟩

theorem ftsOnly_storeManyFts (final : List MemoryEntry) : FtsOnly (storeManyFts final) := by
  have hinserts : ∀ (rows : List FtsRow) (db : Db),
      ∃ fts, execute (rows.map ftsInsert) db = { db with memoriesFts := fts } := by
    intro rows
    induction rows with
    | nil => exact fun db => ⟨db.memoriesFts, rfl⟩
    | cons row rows ih =>
        intro db
        obtain ⟨fts, hexec⟩ := ih (ftsInsert row db)
        exact ⟨fts, hexec⟩
  have hpurges : FtsOnly ((final.map MemoryEntry.ns).eraseDups.flatMap fun ns =>
      purgeFtsRowsFor ns ((final.filter fun e => e.ns == ns).map MemoryEntry.id)) :=
    .flatMap _ fun ns _ => ftsOnly_purge ns _
  refine (hpurges.append fun db => ?_).append fun db => ⟨_, _, rfl⟩
  obtain ⟨fts, hexec⟩ := hinserts (final.map ftsRow) db
  rw [List.map_map] at hexec
  exact ⟨fts, db.memoriesFtsRowid, hexec⟩

/-- Purging namespace by namespace. -/
theorem ftsPurged_namespaces {p : RowKey → Bool} {idsOf : String → List String}
    (hids : ∀ ns k, keyed ns (idsOf ns) k = true → p k = true) (namespaces : List String)
    {db : Db} (h : FtsOutside p db) :
    FtsOutside p (execute (namespaces.flatMap fun ns => purgeFtsRowsFor ns (idsOf ns)) db) ∧
      ∀ k, (db.memoriesFtsRowid.find k = none ∨
          ∃ ns ∈ namespaces, keyed ns (idsOf ns) k = true) →
        (execute (namespaces.flatMap fun ns => purgeFtsRowsFor ns (idsOf ns))
          db).memoriesFtsRowid.find k = none := by
  induction namespaces generalizing db with
  | nil => exact ⟨h, fun k hk => hk.elim id fun ⟨_, hns, _⟩ => by cases hns⟩
  | cons ns namespaces ih =>
      have hpurged := h.purgeFtsRowsFor (hids ns)
      obtain ⟨hrest, hnone⟩ := ih hpurged
      rw [List.flatMap_cons, execute_append]
      refine ⟨hrest, fun k hk => hnone k ?_⟩
      rw [execute_purgeFtsRowsFor, Table.find_discard]
      rcases hk with hk | ⟨ns', hns', hk⟩
      · simp [hk]
      · rcases List.mem_cons.mp hns' with rfl | hns'
        · simp [hk]
        · exact .inr ⟨ns', hns', hk⟩

/-- Indexing the rows of a batch again, key by key. -/
theorem ftsPurged_inserts (entries : List MemoryEntry) {p : RowKey → Bool} {db : Db}
    (h : FtsPurged p db) (hnodup : (entries.map rowKey).Nodup)
    (hrows : ∀ e ∈ entries, p (rowKey e) = true ∧ db.memories.find (rowKey e) = some e) :
    ∃ q, FtsPurged q (execute ((entries.map ftsRow).flatMap ftsInsertRow) db) ∧
      ∀ k, q k = true → p k = true ∧ k ∉ entries.map rowKey := by
  induction entries generalizing p db with
  | nil => exact ⟨p, h, fun k hk => ⟨hk, List.not_mem_nil⟩⟩
  | cons e entries ih =>
      obtain ⟨hfresh, hnodup⟩ := List.nodup_cons.mp hnodup
      obtain ⟨hp, he⟩ := hrows e List.mem_cons_self
      have hinserted := h.insertRow hp he rfl rfl
      obtain ⟨fts, map, hexec⟩ := ftsOnly_insert (ftsRow e) db
      have hrest : ∀ e' ∈ entries, minus p (rowKey e) (rowKey e') = true ∧
          (execute (ftsInsertRow (ftsRow e)) db).memories.find (rowKey e') = some e' := by
        intro e' he'
        obtain ⟨hp', hfind⟩ := hrows e' (List.mem_cons_of_mem e he')
        have hne : rowKey e' ≠ rowKey e := fun heq =>
          hfresh (heq ▸ List.mem_map_of_mem he')
        refine ⟨by simp [minus, hp', hne], ?_⟩
        rw [hexec]
        exact hfind
      obtain ⟨q, hq, hqkeys⟩ := ih hinserted hnodup hrest
      rw [List.map_cons, List.flatMap_cons, execute_append]
      refine ⟨q, hq, fun k hk => ?_⟩
      obtain ⟨hminus, hnot⟩ := hqkeys k hk
      simp only [minus, Bool.and_eq_true, bne_iff_ne, ne_eq] at hminus
      refine ⟨hminus.1, ?_⟩
      rw [List.map_cons, List.mem_cons]
      exact fun hmem => hmem.elim hminus.2 hnot

/-- `purge_fts_rows_for` is called with the ids of each namespace of the batch. -/
theorem keyed_finalEntries {final : List MemoryEntry} {ns : String} {k : RowKey} :
    keyed ns ((final.filter fun e => e.ns == ns).map MemoryEntry.id) k = true ↔
      k.ns = ns ∧ k ∈ final.map rowKey := by
  simp only [keyed, Bool.and_eq_true, beq_iff_eq, List.contains_iff_mem, List.mem_map,
    List.mem_filter]
  constructor
  · rintro ⟨rfl, e, ⟨he, hns⟩, hid⟩
    refine ⟨rfl, e, he, ?_⟩
    cases k
    simp only [rowKey, RowKey.mk.injEq]
    exact ⟨hns, hid⟩
  · rintro ⟨rfl, e, he, rfl⟩
    exact ⟨rfl, e, ⟨he, rfl⟩, rfl⟩

theorem reindexes_storeManyFts {b : Backend} {p : RowKey → Bool} {final : List MemoryEntry}
    {db : Db} (h : FtsOutside p db) (hp : ∀ k, p k = true ↔ k ∈ final.map rowKey)
    (hnodup : (final.map rowKey).Nodup)
    (hrows : ∀ e ∈ final, db.memories.find (rowKey e) = some e) :
    Reindexes b (storeManyFts final) db := by
  obtain ⟨idsOf, hidsOf⟩ : ∃ idsOf : String → List String, idsOf = fun ns =>
      (final.filter fun e => e.ns == ns).map MemoryEntry.id := ⟨_, rfl⟩
  obtain ⟨purges, hpurges⟩ : ∃ purges, purges = (final.map MemoryEntry.ns).eraseDups.flatMap
      fun ns => purgeFtsRowsFor ns (idsOf ns) := ⟨_, rfl⟩
  have hkeyed : ∀ {ns k}, keyed ns (idsOf ns) k = true ↔ k.ns = ns ∧ k ∈ final.map rowKey := by
    intro ns k
    rw [hidsOf]
    exact keyed_finalEntries
  obtain ⟨hout, hnone⟩ := ftsPurged_namespaces
    (fun ns k hk => (hp k).mpr (hkeyed.mp hk).2) (final.map MemoryEntry.ns).eraseDups h
  rw [← hpurges] at hout hnone
  have hpurged : FtsPurged p (execute purges db) := by
    refine ⟨hout, fun k hk => hnone k (.inr ⟨k.ns, ?_, hkeyed.mpr ⟨rfl, (hp k).mp hk⟩⟩)⟩
    obtain ⟨e, he, rfl⟩ := List.mem_map.mp ((hp k).mp hk)
    exact mem_eraseDups.mpr (List.mem_map_of_mem he)
  have hpurgesOnly : FtsOnly purges := by
    rw [hpurges]
    exact .flatMap _ fun ns _ => ftsOnly_purge ns (idsOf ns)
  obtain ⟨fts, map, hexec⟩ := hpurgesOnly db
  have hrows' : ∀ e ∈ final, p (rowKey e) = true ∧
      (execute purges db).memories.find (rowKey e) = some e := by
    intro e he
    refine ⟨(hp _).mpr (List.mem_map_of_mem he), ?_⟩
    rw [hexec]
    exact hrows e he
  obtain ⟨q, hq, hqkeys⟩ := ftsPurged_inserts final hpurged hnodup hrows'
  have hmatches := hq.matches fun k hk =>
    absurd ((hp k).mp (hqkeys k hk).1) (hqkeys k hk).2
  have hmap : final.map rowKey = (final.map ftsRow).map FtsRow.key := by
    rw [List.map_map]
    rfl
  have hsteps : execute (storeManyFts final) db =
      execute ((final.map ftsRow).flatMap ftsInsertRow) (execute purges db) := by
    have hparts : storeManyFts final = purges ++ final.map (fun e => ftsInsert (ftsRow e)) ++
        [ftsMapMany (final.map rowKey)] := by
      rw [hpurges, hidsOf]
      rfl
    rw [← ftsMapMany_inserts, ← hmap, hparts, execute_append, execute_append, List.map_map]
    rfl
  have honly : FtsOnly ((final.map ftsRow).flatMap ftsInsertRow) :=
    .flatMap _ fun row _ => ftsOnly_insert row
  obtain ⟨fts', map', hexec'⟩ := (hpurgesOnly.append honly) db
  rw [execute_append] at hexec'
  rw [hexec'] at hmatches
  exact ⟨fts', map', hsteps.trans hexec', fun _ => hmatches⟩

/-- The postings after the rows were written one after the other. -/
def postRows (values : MemoryEntry → List String) (postings : Finset (RowKey × String))
    (rows : List MemoryEntry) : Finset (RowKey × String) :=
  rows.foldl (fun postings e =>
    postings.filter (·.1 ≠ rowKey e) ∪ ((values e).map (rowKey e, ·)).toFinset) postings

theorem postRows_concat (values : MemoryEntry → List String)
    (postings : Finset (RowKey × String)) (rows : List MemoryEntry) (e : MemoryEntry) :
    postRows values postings (rows ++ [e]) =
      (postRows values postings rows).filter (·.1 ≠ rowKey e) ∪
        ((values e).map (rowKey e, ·)).toFinset :=
  List.foldl_concat ..

/-- The last row of a key decides its postings. -/
theorem mem_postRows (values : MemoryEntry → List String) (postings : Finset (RowKey × String))
    (rows : List MemoryEntry) (k : RowKey) (v : String) :
    (k, v) ∈ postRows values postings rows ↔
      (rows.reverse.find? fun e => rowKey e = k).elim ((k, v) ∈ postings) (v ∈ values ·) := by
  induction rows using List.reverseRecOn with
  | nil => rfl
  | append_singleton rows e ih =>
      rw [postRows_concat, List.reverse_append, List.reverse_singleton, List.singleton_append,
        List.find?_cons]
      by_cases hk : rowKey e = k
      · subst hk
        simp
      · have hne : ¬k = rowKey e := fun h => hk h.symm
        have hkey : ¬rowKey e = k := hk
        simp only [Finset.mem_union, Finset.mem_filter, List.mem_toFinset, List.mem_map,
          Prod.mk.injEq, ih, hkey, decide_false, false_and, and_false, exists_false, or_false]
        exact and_iff_left hne

theorem execute_postings (rows : List MemoryEntry) (db : Db) :
    execute (rows.flatMap fun e =>
        replaceTagPostings (rowKey e) e.tags ++ replaceAnchorPostings (rowKey e) e.anchors) db =
      { db with
        memoryTags := postRows (fun e => tagPostings e.tags) db.memoryTags rows
        anchorPostings := postRows (fun e => anchorFiles e.anchors) db.anchorPostings rows } := by
  induction rows generalizing db with
  | nil => rfl
  | cons e rows ih =>
      rw [List.flatMap_cons, execute_append, execute_replacePostings, ih]
      rfl

/-- Writing the last row of each key posts what writing all the rows posts. -/
theorem postRows_finalEntries (values : MemoryEntry → List String)
    (postings : Finset (RowKey × String)) (rows : List MemoryEntry) :
    postRows values postings (finalEntries rows) = postRows values postings rows := by
  ext ⟨k, v⟩
  rw [mem_postRows, mem_postRows]
  have hlast : ((finalEntries rows).reverse.find? fun e => rowKey e = k) =
      rows.reverse.find? fun e => rowKey e = k := by
    cases hfinal : (finalEntries rows).reverse.find? fun e => rowKey e = k with
    | some e =>
        obtain rfl := rowKey_of_find hfinal
        exact (finalEntries_last
          (List.mem_reverse.mp (List.mem_of_find?_eq_some hfinal))).symm
    | none =>
        symm
        rw [List.find?_eq_none]
        intro e he hkey
        have hmem : k ∈ (finalEntries rows).map rowKey := by
          rw [finalEntries_keys, mem_eraseDups, List.mem_map]
          exact ⟨e, List.mem_reverse.mp he, by simpa using hkey⟩
        obtain ⟨e', he', hkey'⟩ := List.mem_map.mp hmem
        exact absurd (by simpa using hkey')
          (List.find?_eq_none.mp hfinal e' (List.mem_reverse.mpr he'))
  rw [hlast]

theorem execute_batchPostings (entries : List MemoryEntry) {p : RowKey → Bool} (db : Db)
    (htags : PostingsOutside p rebuiltTags db.memories db.memoryTags)
    (hanchors : PostingsOutside p rebuiltAnchors db.memories db.anchorPostings)
    (hrows : ∀ e ∈ entries, db.memories.find (rowKey e) = some e ∧ TrimsAlike e.tags) :
    ∃ tags files q,
      execute (entries.flatMap fun e => replaceTagPostings (rowKey e) e.tags ++
        replaceAnchorPostings (rowKey e) e.anchors) db =
        { db with memoryTags := tags, anchorPostings := files } ∧
      PostingsOutside q rebuiltTags db.memories tags ∧
      PostingsOutside q rebuiltAnchors db.memories files ∧
      ∀ k, q k = true → p k = true ∧ k ∉ entries.map rowKey := by
  induction entries generalizing p db with
  | nil =>
      exact ⟨db.memoryTags, db.anchorPostings, p, rfl, htags, hanchors,
        fun k hk => ⟨hk, List.not_mem_nil⟩⟩
  | cons e entries ih =>
      obtain ⟨he, htrims⟩ := hrows e List.mem_cons_self
      have hfiles : ∀ v, v ∈ anchorFiles e.anchors ↔ v ∈ rebuiltAnchors e := fun _ => Iff.rfl
      have hrest : ∀ e' ∈ entries, db.memories.find (rowKey e') = some e' ∧ TrimsAlike e'.tags :=
        fun e' he' => hrows e' (List.mem_cons_of_mem e he')
      obtain ⟨tags, files, q, hexec, hq, hq', hqkeys⟩ := ih
        { db with
          memoryTags := db.memoryTags.filter (·.1 ≠ rowKey e) ∪
            ((tagPostings e.tags).map (rowKey e, ·)).toFinset
          anchorPostings := db.anchorPostings.filter (·.1 ≠ rowKey e) ∪
            ((anchorFiles e.anchors).map (rowKey e, ·)).toFinset }
        (htags.replace he (mem_tagPostings htrims)) (hanchors.replace he hfiles) hrest
      refine ⟨tags, files, q, ?_, hq, hq', fun k hk => ?_⟩
      · rw [List.flatMap_cons, execute_append, execute_replacePostings]
        exact hexec
      · obtain ⟨hminus, hnot⟩ := hqkeys k hk
        simp only [minus, Bool.and_eq_true, bne_iff_ne, ne_eq] at hminus
        refine ⟨hminus.1, ?_⟩
        rw [List.map_cons, List.mem_cons]
        exact fun hmem => hmem.elim hminus.2 hnot

/-- The rows that a batch of `rows` leaves, and no others change. -/
structure Inserted (rows : List MemoryEntry) (db : Db) (memories : Table RowKey MemoryEntry) :
    Prop where
  find : ∀ k, memories.find k =
    (rows.reverse.find? fun row => rowKey row = k).or (db.memories.find k)

theorem Inserted.final {rows : List MemoryEntry} {db : Db} {memories : Table RowKey MemoryEntry}
    (h : Inserted rows db memories) {e : MemoryEntry} (he : e ∈ finalEntries rows) :
    memories.find (rowKey e) = some e := by
  rw [h.find, finalEntries_last he, Option.some_or]

/-- The keys of a batch. -/
def inBatch (rows : List MemoryEntry) (k : RowKey) : Bool :=
  decide (k ∈ (finalEntries rows).map rowKey)

theorem inBatch_iff {rows : List MemoryEntry} {k : RowKey} :
    inBatch rows k = true ↔ k ∈ (finalEntries rows).map rowKey := by
  rw [inBatch, decide_eq_true_iff]

theorem Inserted.outside {rows : List MemoryEntry} {db : Db}
    {memories : Table RowKey MemoryEntry} (h : Inserted rows db memories) (k : RowKey)
    (hk : inBatch rows k = false) : memories.find k = db.memories.find k := by
  rw [h.find k, List.find?_eq_none.mpr, Option.none_or]
  intro row hrow hkey
  have hin : inBatch rows k = true := by
    rw [inBatch_iff, finalEntries_keys, mem_eraseDups, List.mem_map]
    exact ⟨row, List.mem_reverse.mp hrow, by simpa using hkey⟩
  rw [hk] at hin
  cases hin

theorem Inserted.keyed {rows : List MemoryEntry} {db : Db} {memories : Table RowKey MemoryEntry}
    (h : Inserted rows db memories) (hkeyed : RowsKeyed db) :
    RowsKeyed { db with memories } := by
  intro k e he
  rw [show ({ db with memories } : Db).memories = memories from rfl, h.find k] at he
  cases hlast : rows.reverse.find? fun row => rowKey row = k with
  | none =>
      rw [hlast, Option.none_or] at he
      exact hkeyed k e he
  | some row =>
      rw [hlast, Option.some_or] at he
      exact Option.some.inj he ▸ rowKey_of_find hlast

/-- A batch table by table; its postings are still to be replaced. -/
theorem parts_storeManyStatements {b : Backend} {db : Db} (h : Indexed b db)
    (rows : List MemoryEntry) :
    ∃ memories fts map,
      Inserted rows db memories ∧
      execute (storeManyStatements b rows) db =
        execute ((finalEntries rows).flatMap fun e =>
            replaceTagPostings (rowKey e) e.tags ++ replaceAnchorPostings (rowKey e) e.anchors)
          { db with memories, memoriesFts := fts, memoriesFtsRowid := map } ∧
      (b.ftsAvailable = true →
        FtsMatches { db with memories, memoriesFts := fts, memoriesFtsRowid := map }) ∧
      (b.ftsAvailable = false → fts = db.memoriesFts ∧ map = db.memoriesFtsRowid) := by
  obtain ⟨memories, hexec, hfind⟩ := execute_insertRows rows db
  have hinserted : Inserted rows db memories := ⟨hfind⟩
  cases hb : b.ftsAvailable with
  | true =>
      obtain ⟨fts, map, hindexed, hmatches⟩ := reindexes_storeManyFts (b := b)
        ((h.fts hb).outside h.keyed (inBatch rows) hinserted.outside) (fun _ => inBatch_iff)
        (finalEntries_keys rows ▸ nodup_eraseDups _) (fun _ he => hinserted.final he)
      refine ⟨memories, fts, map, hinserted, ?_, fun _ => hmatches hb, fun h => by cases h⟩
      rw [storeManyStatements, hb, if_pos rfl, execute_append, execute_append, hexec, hindexed]
  | false =>
      refine ⟨memories, _, _, hinserted, ?_, fun h => (by cases h), fun _ => ⟨rfl, rfl⟩⟩
      rw [storeManyStatements, hb, if_neg (by decide), List.append_nil, execute_append, hexec]

theorem indexed_storeManyStatements {b : Backend} {db : Db} (h : Indexed b db)
    (rows : List MemoryEntry) : Indexed b (execute (storeManyStatements b rows) db) := by
  obtain ⟨memories, fts, map, hinserted, hexec, hmatches, -⟩ := parts_storeManyStatements h rows
  rw [hexec, execute_postings]
  refine ⟨hinserted.keyed h.keyed, fun hb => ?_⟩
  obtain ⟨hmapped, hcurrent, howned⟩ := hmatches hb
  exact ⟨hmapped, hcurrent, howned⟩

theorem written_storeManyStatements {b : Backend} {db : Db} (h : Consistent b db)
    {rows : List MemoryEntry} (htags : ∀ e ∈ finalEntries rows, TrimsAlike e.tags) :
    Written b db (execute (storeManyStatements b rows) db) := by
  obtain ⟨memories, fts, map, hinserted, hexec, hmatches, -⟩ :=
    parts_storeManyStatements h.indexed rows
  obtain ⟨tags, files, q, hpostings, hq, hq', hqkeys⟩ := execute_batchPostings (finalEntries rows)
    { db with memories, memoriesFts := fts, memoriesFtsRowid := map }
    (((rebuildMemoryTags_iff db).mp h.tags).outside hinserted.outside)
    (((rebuildAnchorPostings_iff db).mp h.anchors).outside hinserted.outside)
    (fun e he => ⟨hinserted.final he, htags e he⟩)
  have hnone : ∀ k, q k = false := fun k => by
    cases hk : q k with
    | false => rfl
    | true => exact absurd (inBatch_iff.mp (hqkeys k hk).1) (hqkeys k hk).2
  rw [hexec, hpostings]
  refine ⟨.of_parts (hinserted.keyed h.keyed) (fun hb => ?_) (hq.everywhere hnone)
    (hq'.everywhere hnone), rfl⟩
  obtain ⟨hmapped, hcurrent, howned⟩ := hmatches hb
  exact ⟨hmapped, hcurrent, howned⟩

end TrwMemory.Storage

import TrwMemory.Storage.BatchAgreement
import TrwMemory.Storage.SidecarRuns

/-!
When `store_many` agrees with `store`: it succeeds where storing the entries one after
the other would, with the same store and the same stamps on the caller's objects, and
leaves both alone where it is refused.

FTS rows are compared without their rowids, which the two number differently.
-/
namespace TrwMemory.Storage

open Library.Keyed Sync

/-- The rows of the FTS table, whatever rowid they have. -/
def ftsRows (db : Db) : List FtsRow := db.memoriesFts.rows.map Prod.snd

/-- Two stores hold the same rows, FTS rows, postings, edges and vectors. -/
structure SameStore (db db' : Db) : Prop where
  memories : ∀ k, db.memories.find k = db'.memories.find k
  fts : (ftsRows db).Perm (ftsRows db')
  tags : db.memoryTags = db'.memoryTags
  anchors : db.anchorPostings = db'.anchorPostings
  edges : db.graphEdges = db'.graphEdges
  vectors : db.vectors = db'.vectors

theorem SameStore.refl (db : Db) : SameStore db db :=
  ⟨fun _ => rfl, .refl _, rfl, rfl, rfl, rfl⟩

theorem mem_ftsRows {db : Db} {row : FtsRow} :
    row ∈ ftsRows db ↔ ∃ rowid, db.memoriesFts.find rowid = some row := by
  simp only [ftsRows, List.mem_map, Prod.exists, exists_eq_right, Table.mem_rows]

/-- No text is indexed twice. -/
theorem nodup_ftsRows {db : Db} (h : FtsMatches db) : (ftsRows db).Nodup := by
  refine List.Nodup.map_on ?_ (List.Nodup.of_map Prod.fst db.memoriesFts.nodup)
  intro row hrow row' hrow' hsame
  have hid := h.owned row.1 row.2 ((db.memoriesFts.mem_rows row.1 row.2).mp hrow)
  have hid' := h.owned row'.1 row'.2 ((db.memoriesFts.mem_rows row'.1 row'.2).mp hrow')
  rw [hsame, hid'] at hid
  exact Prod.ext (Option.some.inj hid).symm hsame

theorem mem_ftsRows_iff {db : Db} (h : FtsMatches db) {row : FtsRow} :
    row ∈ ftsRows db ↔ ∃ k e, db.memories.find k = some e ∧ row = ftsRow e := by
  rw [mem_ftsRows]
  constructor
  · rintro ⟨rowid, hrow⟩
    have hid := h.owned rowid row hrow
    obtain ⟨e, he⟩ := Option.isSome_iff_exists.mp
      ((h.mapped row.key).symm.trans (by rw [hid]; rfl))
    exact ⟨row.key, e, he,
      Option.some.inj (hrow.symm.trans (h.current row.key e rowid he hid))⟩
  · rintro ⟨k, e, he, rfl⟩
    obtain ⟨rowid, hid⟩ := Option.isSome_iff_exists.mp
      ((h.mapped k).trans (by rw [he]; rfl))
    exact ⟨rowid, h.current k e rowid he hid⟩

/-- The rows decide the FTS rows. -/
theorem ftsRows_perm {db db' : Db} (h : FtsMatches db) (h' : FtsMatches db')
    (hrows : ∀ k, db.memories.find k = db'.memories.find k) :
    (ftsRows db).Perm (ftsRows db') := by
  refine (List.perm_ext_iff_of_nodup (nodup_ftsRows h) (nodup_ftsRows h')).mpr fun row => ?_
  simp only [mem_ftsRows_iff h, mem_ftsRows_iff h', hrows]

variable {ρ : Type} [DecidableEq ρ]

/-- `store_many` agrees with `store`. -/
structure AgreesWithStore (digest : SyncContent → String) (b : Backend) (held : Held ρ)
    (refs : List ρ) : Prop where
  succeeds : (storeManyObjects digest b held refs).failure = none ↔
    ∃ after, storeEach digest b held refs = .ok after
  same : ∀ after, storeEach digest b held refs = .ok after →
    (storeManyObjects digest b held refs).held.objects = after.objects ∧
      SameStore (storeManyObjects digest b held refs).held.db after.db
  undone : (storeManyObjects digest b held refs).failure ≠ none →
    (storeManyObjects digest b held refs).held = held

variable {digest : SyncContent → String} {b : Backend} {held : Held ρ} {refs : List ρ}

instance (objects : ρ → MemoryEntry) (refs : List ρ) : Decidable (Bindable objects refs) :=
  inferInstanceAs (Decidable (∀ r ∈ refs, _))

theorem admitted_iff (digest : SyncContent → String) :
    Admitted held refs ↔
      (refs.map held.objects).forM validateEntryForWrite = .ok () ∧
        refuseNewViolations held.db
          (refs.map (stampSyncBookkeeping digest held.objects refs)) = .ok () := by
  have hre := restamped_stampSyncBookkeeping digest held.objects refs
  simp only [refuseNewViolations, forM_ok, List.forall_mem_map, (hre _).key,
    refuseViolation_restamped (hre _), Admitted]
  exact ⟨fun h => ⟨fun r hr => (h r hr).1, fun r hr => (h r hr).2⟩,
    fun h r hr => ⟨h.1 r hr, h.2 r hr⟩⟩

/-- A batch that its checks refuse leaves the store and the objects alone. -/
theorem storeManyObjects_refused (digest : SyncContent → String) (b : Backend)
    (h : ¬Admitted held refs) :
    ∃ error, storeManyObjects digest b held refs = ⟨some (.refused error), held⟩ := by
  have hne : refs.isEmpty = false := by
    cases refs with
    | nil => exact absurd (fun r hr => by cases hr) h
    | cons _ _ => rfl
  rw [admitted_iff digest, not_and] at h
  unfold storeManyObjects
  rw [hne, if_neg (by decide)]
  cases hv : (refs.map held.objects).forM validateEntryForWrite with
  | error error => exact ⟨error, rfl⟩
  | ok _ =>
      cases hr : refuseNewViolations held.db
          (refs.map (stampSyncBookkeeping digest held.objects refs)) with
      | ok _ => exact absurd hr (h hv)
      | error error =>
          have hrestored := restoreEntryState_stamped held.objects
            (stampSyncBookkeeping digest held.objects refs)
            (restamped_stampSyncBookkeeping digest held.objects refs) refs
            (stampSyncBookkeeping_absent digest held.objects refs)
          refine ⟨error, ?_⟩
          simp only [hr, hrestored]

/-- A batch that passes its checks stamps its objects; it is written when every row can
be bound. -/
theorem storeManyObjects_admitted (digest : SyncContent → String) (b : Backend)
    (h : Admitted held refs) (hne : refs ≠ []) :
    storeManyObjects digest b held refs =
      let stamped := stampSyncBookkeeping digest held.objects refs
      let rows := refs.map stamped
      if rows.all bindable then
        ⟨none, ⟨stamped, execute (storeManyStatements b rows) held.db⟩⟩
      else
        ⟨some .overflow,
          ⟨stamped, execute ((rows.takeWhile bindable).map insertOrReplace) held.db⟩⟩ := by
  obtain ⟨hv, hr⟩ := (admitted_iff digest).mp h
  unfold storeManyObjects
  rw [if_neg (by simpa using hne), hv]
  simp only [hr]

theorem all_bindable :
    (refs.map (stampSyncBookkeeping digest held.objects refs)).all bindable = true ↔
      ∀ r ∈ refs, bindable (numbered (held.objects r) (refs.count r)) = true := by
  rw [List.all_eq_true, List.forall_mem_map]
  exact forall₂_congr fun r _ => by rw [bindable_stamped]

omit [DecidableEq ρ] in
theorem storeManyRows_iff {rows : List MemoryEntry} :
    storeManyRows digest held.db (refs.map held.objects) = .ok rows ↔
      Admitted held refs ∧ rows = (refs.map held.objects).map (stampSync digest) := by
  have hchecks : Admitted held refs ↔
      (refs.map held.objects).forM validateEntryForWrite = .ok () ∧
        ((refs.map held.objects).forM fun e => refuseViolation (held.db.memories.find (rowKey e))
          e) =
          .ok () := by
    simp only [forM_ok, List.forall_mem_map, Admitted]
    exact ⟨fun h => ⟨fun r hr => (h r hr).1, fun r hr => (h r hr).2⟩,
      fun h r hr => ⟨h.1 r hr, h.2 r hr⟩⟩
  constructor
  · intro h
    obtain rfl := storeManyRows_ok h
    refine ⟨hchecks.mpr ?_, rfl⟩
    unfold storeManyRows at h
    cases hv : (refs.map held.objects).forM validateEntryForWrite with
    | error _ =>
        rw [hv] at h
        cases h
    | ok _ =>
        refine ⟨rfl, ?_⟩
        cases hr : (refs.map held.objects).forM fun e =>
            refuseViolation (held.db.memories.find (rowKey e)) e with
        | ok _ => rfl
        | error _ =>
            simp only [hv, bind, Except.bind] at h
            rw [hr] at h
            cases h
  · rintro ⟨hadmitted, rfl⟩
    obtain ⟨hv, hr⟩ := hchecks.mp hadmitted
    unfold storeManyRows
    simp only [hv, bind, Except.bind]
    rw [hr]
    rfl

/-- The stamps of a batch show on its objects. -/
theorem stamped_ne (hne : refs ≠ []) :
    stampSyncBookkeeping digest held.objects refs ≠ held.objects := by
  intro heq
  obtain ⟨r, hr⟩ := List.exists_mem_of_ne_nil refs hne
  have hseq := syncSeq_stampSyncBookkeeping digest held.objects refs r
  have hcount : 0 < refs.count r := List.count_pos_iff.mpr hr
  rw [heq] at hseq
  omega

omit [DecidableEq ρ] in
theorem find_stamped (objects stamped : ρ → MemoryEntry)
    (hre : ∀ r, Restamped (objects r) (stamped r)) (k : RowKey) :
    ((refs.map stamped).reverse.find? fun row => rowKey row = k) =
      (lastRef objects refs k).map stamped := by
  rw [← List.map_reverse, List.find?_map, lastRef]
  congr 2
  funext r
  simp [(hre r).key]

omit [DecidableEq ρ] in
theorem postRows_stamped (values : MemoryEntry → List String)
    (postings : Finset (RowKey × String)) (objects stamped : ρ → MemoryEntry)
    (hre : ∀ r, Restamped (objects r) (stamped r))
    (hvalues : ∀ {e e'}, Restamped e e' → values e' = values e) :
    postRows values postings (refs.map stamped) = postRows values postings (refs.map objects) := by
  induction refs using List.reverseRecOn with
  | nil => rfl
  | append_singleton refs r ih =>
      simp only [List.map_append, List.map_cons, List.map_nil, postRows_concat, ih, (hre r).key,
        hvalues (hre r)]

theorem sameStore_of_stored {after : Held ρ} (hindexed : Indexed b held.db)
    (h : StoredEach digest b held refs after) :
    SameStore
      (execute (storeManyStatements b
        (refs.map (stampSyncBookkeeping digest held.objects refs))) held.db) after.db := by
  obtain ⟨stamped, hstamped⟩ :
      ∃ stamped, stamped = stampSyncBookkeeping digest held.objects refs := ⟨_, rfl⟩
  have hre : ∀ r, Restamped (held.objects r) (stamped r) :=
    hstamped ▸ restamped_stampSyncBookkeeping digest held.objects refs
  have hbatch := indexed_storeManyStatements hindexed (refs.map stamped)
  obtain ⟨memories, fts, map, hinserted, hexec, -, hnone⟩ :=
    parts_storeManyStatements hindexed (refs.map stamped)
  rw [execute_postings, postRows_finalEntries, postRows_finalEntries,
    postRows_stamped _ _ held.objects stamped hre fun h => by rw [h.tags],
    postRows_stamped _ _ held.objects stamped hre fun h => by rw [h.anchors]] at hexec
  rw [← hstamped]
  have hmemories :
      ∀ k, (execute (storeManyStatements b (refs.map stamped)) held.db).memories.find k =
      after.db.memories.find k := by
    intro k
    rw [hexec, h.memories, h.objects, ← hstamped]
    exact (hinserted.find k).trans (by rw [find_stamped held.objects stamped hre])
  refine ⟨hmemories, ?_, ?_, ?_, ?_, ?_⟩
  · cases hb : b.ftsAvailable with
    | true => exact ftsRows_perm (hbatch.fts hb) (h.indexed.fts hb) hmemories
    | false =>
        rw [ftsRows, ftsRows, hexec, (h.noFts hb).1, (hnone hb).1]
  · rw [hexec, h.tags]
  · rw [hexec, h.anchors]
  · rw [hexec, h.edges]
  · rw [hexec, h.vectors]

/-- For distinct objects `store_many` is the call of that name. -/
theorem storeManyObjects_call (hnodup : refs.Nodup)
    (hbind : ∀ r ∈ refs, bindable (numbered (held.objects r) 1) = true) :
    (storeManyObjects digest b held refs).held.db =
      Call.run digest b held.db (.storeMany (refs.map held.objects)) := by
  by_cases hne : refs = []
  · subst hne
    rfl
  have hstamped : refs.map (stampSyncBookkeeping digest held.objects refs) =
      (refs.map held.objects).map (stampSync digest) := by
    rw [List.map_map]
    exact List.map_congr_left fun r hr =>
      stampSyncBookkeeping_nodup digest held.objects hnodup hr
  have hempty : (refs.map held.objects).isEmpty = false := by simpa using hne
  simp only [Call.run, Call.script, storeManyScript, hempty, Bool.false_eq_true, if_false]
  by_cases hadmitted : Admitted held refs
  · obtain ⟨hv, hr⟩ := (admitted_iff digest).mp hadmitted
    have hall : (refs.map (stampSyncBookkeeping digest held.objects refs)).all bindable = true :=
      all_bindable.mpr fun r hr => by
        rw [List.count_eq_one_of_mem hnodup hr]
        exact hbind r hr
    rw [hstamped] at hall
    rw [storeManyObjects_admitted digest b hadmitted hne, storeManyRows_iff.mpr ⟨hadmitted, rfl⟩]
    simp only [hstamped, hall, if_true, Except.map]
  · obtain ⟨error, hend⟩ := storeManyObjects_refused digest b hadmitted
    rw [hend]
    cases hrows : storeManyRows digest held.db (refs.map held.objects) with
    | error _ => rfl
    | ok rows => exact absurd (storeManyRows_iff.mp hrows).1 hadmitted

/-- The legacy row of a store that is older than the evidence check. -/
def legacyClaim : MemoryEntry :=
  { MemoryEntry.ofDefaults "a" "claim" "south" ⟨0, some 0⟩ a_ne_empty with confidence := .verified }

def legacyStore : Db := execute (storeStatements connection legacyClaim) Db.empty

theorem legacyStore_indexed : Indexed connection legacyStore :=
  indexed_storeStatements (consistent_of_empty []).indexed legacyClaim

/-- The claim again with a tag, and another entry. -/
def carriedObjects : Bool → MemoryEntry
  | true => { legacyClaim with tags := ["x"] }
  | false => MemoryEntry.ofDefaults "b" "text" "south" ⟨1, some 0⟩ b_ne_empty

/-- The entry with evidence first, then the legacy claim again. -/
def relapsingObjects : Bool → MemoryEntry
  | true => { legacyClaim with evidenceLevel := .observed }
  | false => legacyClaim

end TrwMemory.Storage

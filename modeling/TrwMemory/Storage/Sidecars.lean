import TrwMemory.Storage.Crud

/-!
What it means that the sidecars of the rows have not drifted, and how the groups of
statements keep it. While a call is under way the rows of some keys have changed and
their sidecars have not: `FtsOutside p` and `PostingsOutside p` say that nothing is
wrong outside the keys `p`, and every group of statements shrinks `p`.
-/
namespace TrwMemory.Storage

open Library.Keyed

/-- No key is out of step. -/
def nowhere : RowKey → Bool := fun _ => false

def minus (p : RowKey → Bool) (k : RowKey) : RowKey → Bool := fun k' => p k' && k' != k

theorem minus_eq_false {p : RowKey → Bool} {k k' : RowKey} :
    minus p k k' = false ↔ p k' = false ∨ k' = k := by
  cases hp : p k' <;> simp [minus, hp]

/-- Outside `p` the FTS rows are those of the rows; no FTS row and no rowid is filed
under two keys. -/
structure FtsOutside (p : RowKey → Bool) (db : Db) : Prop where
  mapped : ∀ k, p k = false →
    (db.memoriesFtsRowid.find k).isSome = (db.memories.find k).isSome
  current : ∀ k e rowid, p k = false → db.memories.find k = some e →
    db.memoriesFtsRowid.find k = some rowid → db.memoriesFts.find rowid = some (ftsRow e)
  owned : ∀ rowid row, db.memoriesFts.find rowid = some row →
    db.memoriesFtsRowid.find row.key = some rowid
  distinct : ∀ k k' rowid, db.memoriesFtsRowid.find k = some rowid →
    db.memoriesFtsRowid.find k' = some rowid → k = k'

/-- The keys `p` have no FTS row yet. -/
structure FtsPurged (p : RowKey → Bool) (db : Db) : Prop extends FtsOutside p db where
  absent : ∀ k, p k = true → db.memoriesFtsRowid.find k = none

/-- Rows, map and FTS rows correspond one to one, and the FTS rows carry the text of
the rows. -/
structure FtsMatches (db : Db) : Prop where
  mapped : ∀ k, (db.memoriesFtsRowid.find k).isSome = (db.memories.find k).isSome
  current : ∀ k e rowid, db.memories.find k = some e →
    db.memoriesFtsRowid.find k = some rowid → db.memoriesFts.find rowid = some (ftsRow e)
  owned : ∀ rowid row, db.memoriesFts.find rowid = some row →
    db.memoriesFtsRowid.find row.key = some rowid

/-- Rows are filed under the key they carry. -/
def RowsKeyed (db : Db) : Prop := ∀ k e, db.memories.find k = some e → rowKey e = k

theorem FtsMatches.distinct {db : Db} (h : FtsMatches db) (hkeyed : RowsKeyed db) {k k' : RowKey}
    {rowid : Nat} (hk : db.memoriesFtsRowid.find k = some rowid)
    (hk' : db.memoriesFtsRowid.find k' = some rowid) : k = k' := by
  have hsome : ∀ {key}, db.memoriesFtsRowid.find key = some rowid →
      ∃ e, db.memories.find key = some e := fun {key} hkey =>
    Option.isSome_iff_exists.mp ((h.mapped key).symm.trans (by rw [hkey]; rfl))
  obtain ⟨e, he⟩ := hsome hk
  obtain ⟨e', he'⟩ := hsome hk'
  have hrow : ftsRow e = ftsRow e' :=
    Option.some.inj ((h.current k e rowid he hk).symm.trans (h.current k' e' rowid he' hk'))
  have hkey : rowKey e = rowKey e' := congrArg FtsRow.key hrow
  rw [← hkeyed k e he, hkey, hkeyed k' e' he']

/-- The rows of `p` may change. -/
theorem FtsMatches.outside {db : Db} (h : FtsMatches db) (hkeyed : RowsKeyed db)
    (p : RowKey → Bool) {memories : Table RowKey MemoryEntry}
    (hsame : ∀ k, p k = false → memories.find k = db.memories.find k) :
    FtsOutside p { db with memories } where
  mapped k hk := (h.mapped k).trans (by rw [← hsame k hk])
  current k e rowid hk he := h.current k e rowid ((hsame k hk).symm.trans he)
  owned := h.owned
  distinct k k' rowid hk hk' := h.distinct hkeyed hk hk'

/-- Dropping the FTS rows of some keys of `p`. -/
theorem FtsOutside.purge {p q : RowKey → Bool} {db : Db} (h : FtsOutside p db)
    (hq : ∀ k, q k = true → p k = true) {drop : Nat → Bool}
    (hdrop : ∀ rowid, drop rowid = true ↔
      ∃ k, q k = true ∧ db.memoriesFtsRowid.find k = some rowid) :
    FtsOutside p { db with
      memoriesFts := db.memoriesFts.discard drop
      memoriesFtsRowid := db.memoriesFtsRowid.discard q } := by
  have hout : ∀ k, p k = false → q k = false := fun k hk => by
    cases hqk : q k with
    | false => rfl
    | true => rw [hq k hqk] at hk; cases hk
  refine ⟨fun k hk => ?_, fun k e rowid hk he hid => ?_, fun rowid row hrow => ?_,
    fun k k' rowid hk hk' => ?_⟩
  · simpa [hout k hk] using h.mapped k hk
  · simp only [Table.find_discard, hout k hk, Bool.false_eq_true, if_false] at hid
    have hkept : drop rowid = false := by
      by_contra hdropped
      obtain ⟨k', hk', hid'⟩ := (hdrop rowid).mp (by simpa using hdropped)
      rw [h.distinct k k' rowid hid hid', hq k' hk'] at hk
      cases hk
    simpa [hkept] using h.current k e rowid hk he hid
  · cases hkept : drop rowid with
    | true => simp [hkept] at hrow
    | false =>
        simp only [Table.find_discard, hkept, Bool.false_eq_true, if_false] at hrow
        have hid := h.owned rowid row hrow
        cases hqk : q row.key with
        | true => rw [(hdrop rowid).mpr ⟨row.key, hqk, hid⟩] at hkept; cases hkept
        | false => simpa [hqk] using hid
  · have hsub : ∀ key, (db.memoriesFtsRowid.discard q).find key = some rowid →
        db.memoriesFtsRowid.find key = some rowid := fun key hkey => by
      rw [Table.find_discard] at hkey
      split at hkey
      · cases hkey
      · exact hkey
    exact h.distinct k k' rowid (hsub k hk) (hsub k' hk')

theorem ftsKeyed_iff (db : Db) (ns : String) (ids : List String) (rowid : Nat) :
    ftsKeyed db ns ids rowid = true ↔
      ∃ k, keyed ns ids k = true ∧ db.memoriesFtsRowid.find k = some rowid := by
  simp only [ftsKeyed, List.any_eq_true, Bool.and_eq_true, beq_iff_eq]
  constructor
  · rintro ⟨row, hrow, hkey, rfl⟩
    exact ⟨row.1, hkey, (db.memoriesFtsRowid.mem_rows row.1 row.2).mp hrow⟩
  · rintro ⟨k, hkey, hid⟩
    exact ⟨(k, rowid), (db.memoriesFtsRowid.mem_rows k rowid).mpr hid, hkey, rfl⟩

theorem FtsOutside.purgeFtsRowsFor {p : RowKey → Bool} {db : Db} (h : FtsOutside p db)
    {ns : String} {ids : List String} (hq : ∀ k, keyed ns ids k = true → p k = true) :
    FtsOutside p (execute (purgeFtsRowsFor ns ids) db) := by
  rw [execute_purgeFtsRowsFor]
  exact h.purge hq (ftsKeyed_iff db ns ids)

theorem FtsOutside.deleteRow {p : RowKey → Bool} {db : Db} (h : FtsOutside p db) {k : RowKey}
    (hp : p k = true) : FtsOutside p (execute (ftsDeleteRow k) db) := by
  rw [execute_ftsDeleteRow]
  refine h.purge (fun k' hk' => ?_) (fun rowid => ?_)
  · rw [beq_iff_eq] at hk'
    exact hk' ▸ hp
  · simp

/-- Indexing a row of `p` again. -/
theorem FtsPurged.insertRow {p : RowKey → Bool} {db : Db} (h : FtsPurged p db) {k : RowKey}
    {row : FtsRow} {e : MemoryEntry} (hp : p k = true) (he : db.memories.find k = some e)
    (hkey : rowKey e = k) (hrow : row = ftsRow e) :
    FtsPurged (minus p k) (execute (ftsInsertRow row) db) := by
  have hrowkey : row.key = k := by
    rw [hrow]
    exact hkey
  have hused : ∀ k' rowid, db.memoriesFtsRowid.find k' = some rowid →
      rowid ≠ db.memoriesFts.nextKey := by
    intro k' rowid hid hnext
    have hout : p k' = false := by
      cases hp' : p k' with
      | false => rfl
      | true => rw [h.absent k' hp'] at hid; cases hid
    obtain ⟨e', he'⟩ := Option.isSome_iff_exists.mp
      ((h.mapped k' hout).symm.trans (by rw [hid]; rfl))
    have hfts := h.current k' e' rowid hout he' hid
    rw [hnext, Table.find_nextKey] at hfts
    cases hfts
  rw [execute_ftsInsertRow, hrowkey]
  refine ⟨⟨fun k' hk' => ?_, fun k' e' rowid hk' he' hid => ?_, fun rowid row' hrow' => ?_,
    fun k' k'' rowid hk' hk'' => ?_⟩, fun k' hk' => ?_⟩
  · rcases minus_eq_false.mp hk' with hout | rfl
    · by_cases hkk : k' = k
      · subst hkk
        simp [he]
      · simpa [hkk] using h.mapped k' hout
    · simp [he]
  · by_cases hkk : k' = k
    · subst hkk
      obtain rfl : e = e' := Option.some.inj (he.symm.trans he')
      simp only [Table.find_put_self, Option.some.injEq] at hid
      subst hid
      rw [Table.find_put_self, hrow]
    · simp only [Table.find_put, hkk, if_false] at hid
      have hout := (minus_eq_false.mp hk').resolve_right hkk
      simp [hused k' rowid hid, h.current k' e' rowid hout he' hid]
  · by_cases hnext : rowid = db.memoriesFts.nextKey
    · subst hnext
      simp only [Table.find_put_self, Option.some.injEq] at hrow'
      rw [← hrow', hrowkey, Table.find_put_self]
    · simp only [Table.find_put, hnext, if_false] at hrow'
      have hid := h.owned rowid row' hrow'
      have hne : row'.key ≠ k := by
        rintro heq
        rw [heq, h.absent k hp] at hid
        cases hid
      simpa [hne] using hid
  · by_cases hkk : k' = k
    · by_cases hkk' : k'' = k
      · rw [hkk, hkk']
      · simp only [hkk, Table.find_put_self, Option.some.injEq] at hk'
        simp only [Table.find_put, hkk', if_false] at hk''
        exact absurd hk'.symm (hused k'' rowid hk'')
    · simp only [Table.find_put, hkk, if_false] at hk'
      by_cases hkk' : k'' = k
      · simp only [hkk', Table.find_put_self, Option.some.injEq] at hk''
        exact absurd hk''.symm (hused k' rowid hk')
      · simp only [Table.find_put, hkk', if_false] at hk''
        exact h.distinct k' k'' rowid hk' hk''
  · have hne : k' ≠ k := by
      rintro rfl
      simp [minus] at hk'
    have hin : p k' = true := by
      simp only [minus, Bool.and_eq_true] at hk'
      exact hk'.1
    simpa [hne] using h.absent k' hin

theorem FtsPurged.matches {p : RowKey → Bool} {db : Db} (h : FtsPurged p db)
    (hgone : ∀ k, p k = true → db.memories.find k = none) : FtsMatches db := by
  have hout : ∀ k e, db.memories.find k = some e → p k = false := fun k e he => by
    cases hp : p k with
    | false => rfl
    | true => rw [hgone k hp] at he; cases he
  refine ⟨fun k => ?_, fun k e rowid he => h.current k e rowid (hout k e he) he, h.owned⟩
  cases hp : p k with
  | false => exact h.mapped k hp
  | true =>
      rw [h.absent k hp, hgone k hp]
      rfl

/-- Outside `p` the postings are the values of the rows. -/
def PostingsOutside (p : RowKey → Bool) (values : MemoryEntry → List String)
    (rows : Table RowKey MemoryEntry) (postings : Finset (RowKey × String)) : Prop :=
  ∀ k v, p k = false → ((k, v) ∈ postings ↔ ∃ e, rows.find k = some e ∧ v ∈ values e)

variable {p : RowKey → Bool} {values : MemoryEntry → List String}
  {rows rows' : Table RowKey MemoryEntry} {postings : Finset (RowKey × String)}

theorem PostingsOutside.outside (h : PostingsOutside nowhere values rows postings)
    (hsame : ∀ k, p k = false → rows'.find k = rows.find k) :
    PostingsOutside p values rows' postings := by
  intro k v hk
  rw [hsame k hk]
  exact h k v rfl

theorem PostingsOutside.replace (h : PostingsOutside p values rows postings) {k : RowKey}
    {e : MemoryEntry} (he : rows.find k = some e) {new : List String}
    (hnew : ∀ v, v ∈ new ↔ v ∈ values e) :
    PostingsOutside (minus p k) values rows
      (postings.filter (·.1 ≠ k) ∪ (new.map (k, ·)).toFinset) := by
  intro k' v hk'
  by_cases hkk : k' = k
  · subst hkk
    simp [he, hnew]
  · have hout := (minus_eq_false.mp hk').resolve_right hkk
    rw [← h k' v hout]
    simp [hkk, Ne.symm hkk]

theorem PostingsOutside.purge (h : PostingsOutside p values rows postings)
    (hgone : ∀ k, p k = true → rows.find k = none) :
    PostingsOutside nowhere values rows (postings.filter fun posting => !p posting.1) := by
  intro k v _
  cases hp : p k with
  | true => simp [hp, hgone k hp]
  | false =>
      rw [← h k v hp]
      simp [hp]

theorem PostingsOutside.everywhere (h : PostingsOutside p values rows postings)
    (hnone : ∀ k, p k = false) : PostingsOutside nowhere values rows postings :=
  fun k v _ => h k v (hnone k)

/-- The tags a rebuild would post. -/
def rebuiltTags (e : MemoryEntry) : List String := e.tags.filter fun tag => !sqlBlank tag

def rebuiltAnchors (e : MemoryEntry) : List String := anchorFiles e.anchors

/-- Deriving the postings again from the rows changes nothing. -/
theorem rebuilt_iff (values : MemoryEntry → List String) (rows : Table RowKey MemoryEntry)
    (postings : Finset (RowKey × String)) :
    (rows.rows.flatMap fun row => (values row.2).map fun v => (row.1, v)).toFinset = postings ↔
      PostingsOutside nowhere values rows postings := by
  have hmem : ∀ k v, (k, v) ∈ (rows.rows.flatMap fun row =>
      (values row.2).map fun v => (row.1, v)).toFinset ↔
        ∃ e, rows.find k = some e ∧ v ∈ values e := by
    intro k v
    simp only [List.mem_toFinset, List.mem_flatMap, List.mem_map, Prod.mk.injEq]
    constructor
    · rintro ⟨row, hrow, v, hv, rfl, rfl⟩
      exact ⟨row.2, (rows.mem_rows row.1 row.2).mp hrow, hv⟩
    · rintro ⟨e, he, hv⟩
      exact ⟨(k, e), (rows.mem_rows k e).mpr he, v, hv, rfl, rfl⟩
  constructor
  · intro heq k v _
    rw [← heq]
    exact hmem k v
  · intro h
    ext ⟨k, v⟩
    rw [hmem, h k v rfl]

theorem rebuildMemoryTags_iff (db : Db) :
    rebuildMemoryTags db = db.memoryTags ↔
      PostingsOutside nowhere rebuiltTags db.memories db.memoryTags :=
  rebuilt_iff rebuiltTags db.memories db.memoryTags

theorem rebuildAnchorPostings_iff (db : Db) :
    rebuildAnchorPostings db = db.anchorPostings ↔
      PostingsOutside nowhere rebuiltAnchors db.memories db.anchorPostings :=
  rebuilt_iff rebuiltAnchors db.memories db.anchorPostings

/-- Rows are filed under their keys, and the FTS tables are those of the rows. -/
structure Indexed (b : Backend) (db : Db) : Prop where
  keyed : RowsKeyed db
  fts : b.ftsAvailable = true → FtsMatches db

/-- The sidecars of a store are those of its rows. A connection without the FTS
module keeps no FTS rows. -/
structure Consistent (b : Backend) (db : Db) : Prop where
  keyed : RowsKeyed db
  fts : b.ftsAvailable = true → FtsMatches db
  tags : rebuildMemoryTags db = db.memoryTags
  anchors : rebuildAnchorPostings db = db.anchorPostings

theorem Consistent.indexed {b : Backend} {db : Db} (h : Consistent b db) : Indexed b db :=
  ⟨h.keyed, h.fts⟩

end TrwMemory.Storage

import TrwMemory.Storage.ListPaging

/-!
A store of entries as its callers see it: the rows under `(namespace, id)`, `get`,
`holds_id`, `store`, `delete` and `list_entries`. Reads serve the row as the mapper and
the evidence invariant make it; `store` stamps the sync columns.

A write that the backend refuses, and a read of a row that the model refuses, raise and
change nothing; the callers here treat them as any other step that fails. Texts, tags and
vectors kept beside the rows are in `Storage.Sidecars`.
-/
namespace TrwMemory.Storage

open Library.Keyed Library.Keyset Sync

theorem textOrNone_textOrNone (raw : Option String) :
    textOrNone (textOrNone raw) = textOrNone raw := by
  rw [textOrNone, textOrNone, Option.filter_filter]
  simp only [Bool.and_self]

theorem truncateNudgeLine_le (v : String) : (truncateNudgeLine v).toList.length ≤ 80 := by
  unfold truncateNudgeLine
  split
  · assumption
  · split
    · rename_i i hfind
      have hrange := List.mem_of_find?_eq_some hfind
      rw [List.mem_range'_1] at hrange
      rw [String.toList_ofList, List.length_append, List.length_take, List.length_singleton]
      omega
    · rw [String.toList_ofList, List.length_take]
      exact Nat.min_le_left _ _

theorem truncateNudgeLine_truncateNudgeLine (v : String) :
    truncateNudgeLine (truncateNudgeLine v) = truncateNudgeLine v :=
  if_pos (truncateNudgeLine_le v)

/-- An entry that was read, whatever metadata and sync columns it is given, is read back as it
is written. -/
theorem readBack_rewritten (row : MemoryEntry) (metadata : Metadata) (confidence : Confidence)
    (syncSeq : Int) (syncHash : String) :
    readBack { readBack row with metadata, confidence, syncSeq, syncHash, lastSyncedAt := none } =
      { readBack row with metadata, confidence, syncSeq, syncHash, lastSyncedAt := none } := by
  simp only [readBack, Datetime.parseDt_parseDt, textOrNone_textOrNone, Option.map_map,
    truncateNudgeLine_truncateNudgeLine, Option.map_none, Function.comp_def]

/-- `store` of an entry that was read and given other metadata. -/
theorem readOf_stampSync (digest : SyncContent → String) (row : MemoryEntry)
    (metadata : Metadata) :
    readOf (stampSync digest { readOf row with metadata }) =
      stampSync digest { readOf row with metadata } := by
  have hconforms := servedView_conforms (readBack row)
  obtain ⟨confidence, served, h⟩ := servedView_fields (readBack row)
  rw [readOf, readOf, stampSync, h, readBack_rewritten]
  apply servedView_of_conforms
  rwa [h] at hconforms

theorem readOf_ns (row : MemoryEntry) : (readOf row).ns = row.ns := servedView_ns (readBack row)

theorem rowKey_readOf (row : MemoryEntry) : rowKey (readOf row) = rowKey row := by
  rw [rowKey, readOf_id, readOf_ns, rowKey]

/-- Rows under the key that they carry. -/
structure EntryStore where
  table : Table RowKey MemoryEntry
  keyed : ∀ row ∈ table.rows, rowKey row.2 = row.1

namespace EntryStore

def empty : EntryStore := ⟨.empty, fun _ h => (by cases h)⟩

/-- `get`. -/
def get (s : EntryStore) (k : RowKey) : Option MemoryEntry := (s.table.find k).map readOf

/-- `holds_id`. -/
def holdsId (s : EntryStore) (k : RowKey) : Bool := (s.table.find k).isSome

/-- `INSERT OR REPLACE` of a row as it is. -/
def insert (s : EntryStore) (row : MemoryEntry) : EntryStore where
  table := s.table.put (rowKey row) row
  keyed := by
    intro other hother
    rw [Table.put, List.mem_append, List.mem_singleton] at hother
    cases hother with
    | inl hold => exact s.keyed other (List.mem_of_mem_filter hold)
    | inr hnew => rw [hnew]

/-- `store`. -/
def store (digest : SyncContent → String) (s : EntryStore) (entry : MemoryEntry) : EntryStore :=
  s.insert (stampSync digest entry)

/-- `DELETE` of the selected rows. -/
def discard (s : EntryStore) (p : RowKey → Bool) : EntryStore where
  table := s.table.discard p
  keyed := fun row hrow => s.keyed row (List.mem_of_mem_filter hrow)

/-- `delete`. -/
def delete (s : EntryStore) (k : RowKey) : EntryStore := s.discard (· == k)

/-- The rows of a namespace. -/
def rowsOf (s : EntryStore) (ns : String) : List MemoryEntry :=
  (s.table.rows.map Prod.snd).filter fun row => row.ns == ns

/-- `list_entries` of a namespace, with the filters of the query and of the ledger. -/
def listEntries (s : EntryStore) (p : MemoryEntry → Bool) (ns : String) (limit : Nat) :
    List MemoryEntry :=
  ((sortOn listKey ((s.rowsOf ns).filter p)).take limit).map readOf

/-- One `store` after the other. -/
def storeAll (digest : SyncContent → String) (s : EntryStore) (entries : List MemoryEntry) :
    EntryStore := entries.foldl (EntryStore.store digest) s

variable (s : EntryStore)

theorem rowKey_find {k : RowKey} {row : MemoryEntry} (h : s.table.find k = some row) :
    rowKey row = k :=
  s.keyed _ ((s.table.mem_rows k row).mpr h)

theorem rowKey_get {k : RowKey} {e : MemoryEntry} (h : s.get k = some e) : rowKey e = k := by
  obtain ⟨row, hrow, rfl⟩ := Option.map_eq_some_iff.mp h
  rw [rowKey_readOf, s.rowKey_find hrow]

theorem get_isSome (k : RowKey) : (s.get k).isSome = s.holdsId k := Option.isSome_map

theorem get_eq_none {k : RowKey} : s.get k = none ↔ s.holdsId k = false := by
  rw [← get_isSome, Option.isSome_eq_false_iff, Option.isNone_iff_eq_none]

@[simp]
theorem find_insert (row : MemoryEntry) (k : RowKey) :
    (s.insert row).table.find k = if k = rowKey row then some row else s.table.find k :=
  Table.find_put _ _ _ _

@[simp]
theorem find_store (digest : SyncContent → String) (entry : MemoryEntry) (k : RowKey) :
    (s.store digest entry).table.find k =
      if k = rowKey entry then some (stampSync digest entry) else s.table.find k :=
  Table.find_put _ _ _ _

@[simp]
theorem find_discard (p : RowKey → Bool) (k : RowKey) :
    (s.discard p).table.find k = if p k then none else s.table.find k :=
  Table.find_discard _ _ _

@[simp]
theorem find_delete (k k' : RowKey) :
    (s.delete k).table.find k' = if k' == k then none else s.table.find k' :=
  Table.find_discard _ _ _

theorem mem_rowsOf {ns : String} {row : MemoryEntry} :
    row ∈ s.rowsOf ns ↔ s.table.find ⟨ns, row.id⟩ = some row := by
  rw [rowsOf, List.mem_filter, List.mem_map, beq_iff_eq]
  constructor
  · rintro ⟨⟨⟨k, row⟩, hmem, rfl⟩, rfl⟩
    have hkey : (⟨row.ns, row.id⟩ : RowKey) = k := s.keyed _ hmem
    rw [← Table.mem_rows, hkey]
    exact hmem
  · intro hfind
    have hmem := (s.table.mem_rows _ _).mpr hfind
    exact ⟨⟨_, hmem, rfl⟩, congrArg RowKey.ns (s.keyed _ hmem)⟩

/-- Within a namespace an id names one row. -/
theorem rowsOf_inj {ns : String} {a b : MemoryEntry} (ha : a ∈ s.rowsOf ns)
    (hb : b ∈ s.rowsOf ns) (hid : a.id = b.id) : a = b := by
  rw [mem_rowsOf] at ha hb
  rw [hid] at ha
  exact Option.some.inj (ha.symm.trans hb)

theorem nodup_rowsOf (ns : String) : ((s.rowsOf ns).map MemoryEntry.id).Nodup := by
  rw [rowsOf]
  refine List.Nodup.map_on ?_ ((List.Nodup.filter _) ?_)
  · intro a ha b hb hid
    exact s.rowsOf_inj ha hb hid
  · refine List.Nodup.of_map rowKey ?_
    rw [List.map_map]
    have hkeys : s.table.rows.map (rowKey ∘ Prod.snd) = s.table.rows.map Prod.fst :=
      List.map_congr_left fun row hrow => s.keyed row hrow
    rw [hkeys]
    exact s.table.nodup

/-- A write in another namespace. -/
theorem rowsOf_store (digest : SyncContent → String) {entry : MemoryEntry} {ns : String}
    (h : entry.ns ≠ ns) : (s.store digest entry).rowsOf ns = s.rowsOf ns := by
  have hkeys : ∀ row ∈ s.table.rows, row.2.ns = row.1.ns :=
    fun row hrow => congrArg RowKey.ns (s.keyed row hrow)
  have hnew : ((stampSync digest entry).ns == ns) = false := beq_false_of_ne h
  have hrows : (s.store digest entry).table.rows =
      s.table.rows.filter (fun row => !decide (row.1 = rowKey (stampSync digest entry))) ++
        [(rowKey (stampSync digest entry), stampSync digest entry)] := rfl
  rw [rowsOf, rowsOf, hrows, List.map_append, List.filter_append, List.map_cons, List.map_nil,
    List.filter_cons_of_neg (by rw [hnew]; exact Bool.false_ne_true),
    List.filter_nil, List.append_nil, List.filter_map, List.filter_map, List.filter_filter]
  congr 1
  apply List.filter_congr
  intro row hrow
  cases hns : row.2.ns == ns with
  | false => simp [Function.comp_apply, hns]
  | true =>
      have hne : row.1 ≠ rowKey (stampSync digest entry) := by
        intro heq
        apply h
        rw [← beq_iff_eq.mp hns, hkeys row hrow, heq]
        rfl
      simp [Function.comp_apply, hns, hne]

theorem rowsOf_storeAll (digest : SyncContent → String) {entries : List MemoryEntry} {ns : String}
    (h : ∀ entry ∈ entries, entry.ns ≠ ns) :
    (s.storeAll digest entries).rowsOf ns = s.rowsOf ns := by
  induction entries generalizing s with
  | nil => rfl
  | cons entry entries ih =>
      rw [List.forall_mem_cons] at h
      exact (ih (s.store digest entry) h.2).trans (s.rowsOf_store digest h.1)

theorem find_storeAll_of_notMem (digest : SyncContent → String) {entries : List MemoryEntry}
    {k : RowKey} (h : k ∉ entries.map rowKey) :
    (s.storeAll digest entries).table.find k = s.table.find k := by
  induction entries generalizing s with
  | nil => rfl
  | cons entry entries ih =>
      rw [List.map_cons, List.mem_cons, not_or] at h
      refine (ih (s.store digest entry) h.2).trans ?_
      rw [find_store, if_neg h.1]

theorem find_storeAll_of_mem (digest : SyncContent → String) {entries : List MemoryEntry}
    (hnodup : (entries.map rowKey).Nodup) {entry : MemoryEntry} (h : entry ∈ entries) :
    (s.storeAll digest entries).table.find (rowKey entry) = some (stampSync digest entry) := by
  induction entries generalizing s with
  | nil => cases h
  | cons first entries ih =>
      rw [List.map_cons, List.nodup_cons] at hnodup
      rcases List.mem_cons.mp h with rfl | hrest
      · refine (find_storeAll_of_notMem (s.store digest entry) digest hnodup.1).trans ?_
        rw [find_store, if_pos rfl]
      · exact ih (s.store digest first) hnodup.2 hrest

/-- What a delete leaves of the namespace. -/
theorem rowsOf_delete (ns id : String) :
    (s.delete ⟨ns, id⟩).rowsOf ns = (s.rowsOf ns).filter fun row => row.id != id := by
  have hrows : (s.delete ⟨ns, id⟩).table.rows =
      s.table.rows.filter fun row => !(row.1 == ⟨ns, id⟩) := rfl
  rw [rowsOf, rowsOf, hrows, List.filter_map, List.filter_map, List.filter_map,
    List.filter_filter, List.filter_filter]
  congr 1
  apply List.filter_congr
  intro row hrow
  have hkey : row.1 = ⟨row.2.ns, row.2.id⟩ := (s.keyed row hrow).symm
  rw [Function.comp_apply, Function.comp_apply, hkey]
  cases hns : row.2.ns == ns with
  | false => rw [Bool.false_and, Bool.and_false]
  | true =>
      rw [Bool.true_and, Bool.and_true, bne, Bool.not_eq_eq_eq_not, Bool.not_not, Bool.eq_iff_iff,
        beq_iff_eq, beq_iff_eq, RowKey.mk.injEq]
      exact and_iff_right (beq_iff_eq.mp hns)

theorem mem_listEntries {p : MemoryEntry → Bool} {ns : String} {limit : Nat} {e : MemoryEntry}
    (h : e ∈ s.listEntries p ns limit) : ∃ row ∈ s.rowsOf ns, p row = true ∧ e = readOf row := by
  obtain ⟨row, hrow, rfl⟩ := List.mem_map.mp h
  obtain ⟨hmem, hp⟩ := List.mem_filter.mp ((mem_sortOn listKey).mp (List.mem_of_mem_take hrow))
  exact ⟨row, hmem, hp, rfl⟩

theorem nodup_listEntries (p : MemoryEntry → Bool) (ns : String) (limit : Nat) :
    ((s.listEntries p ns limit).map MemoryEntry.id).Nodup := by
  rw [listEntries, List.map_map]
  have hids : MemoryEntry.id ∘ readOf = MemoryEntry.id := funext readOf_id
  rw [hids]
  refine List.Nodup.sublist ((List.take_sublist _ _).map _) ?_
  refine ((sortOn_perm listKey _).map _).nodup_iff.mpr ?_
  exact (s.nodup_rowsOf ns).sublist (List.filter_sublist.map _)

/-- The row without the counter of its writes. -/
def unnumbered (row : MemoryEntry) : MemoryEntry := { row with syncSeq := 0 }

/-- The same entries under the same keys, the counters of their writes apart. -/
def SameEntries (t : EntryStore) : Prop :=
  ∀ k, (s.table.find k).map unnumbered = (t.table.find k).map unnumbered

theorem SameEntries.rfl {s : EntryStore} : s.SameEntries s := fun _ => Eq.refl _

theorem SameEntries.trans {s t u : EntryStore} (h : s.SameEntries t) (h' : t.SameEntries u) :
    s.SameEntries u := fun k => (h k).trans (h' k)

/-- The second of two writes of a key counts. -/
theorem store_again (digest : SyncContent → String) {old new : MemoryEntry}
    (h : rowKey old = rowKey new) :
    ((s.store digest old).store digest new).SameEntries (s.store digest new) := by
  intro k
  rw [find_store, find_store, find_store, h]
  split <;> rfl

/-- Storing a row that was just stored moves its counter only. -/
theorem store_stamped (digest : SyncContent → String) (entry : MemoryEntry) :
    (s.store digest (stampSync digest entry)).SameEntries (s.store digest entry) := by
  intro k
  rw [find_store, find_store]
  have hkey : rowKey (stampSync digest entry) = rowKey entry := rfl
  rw [hkey]
  split <;> rfl

theorem SameEntries.holdsId {s t : EntryStore} (h : s.SameEntries t) (k : RowKey) :
    s.holdsId k = t.holdsId k := by
  have hsome := congrArg Option.isSome (h k)
  rwa [Option.isSome_map, Option.isSome_map] at hsome

end EntryStore

end TrwMemory.Storage

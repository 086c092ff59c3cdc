import TrwMemory.Library.KeysetWalk
import TrwMemory.Models.Timestamps
import TrwMemory.Sync.PathAgreement

/-!
`list_entries` (`storage/_query_ops.py`) page by page, with the cursor that
`EntryCursor.from_entry` makes of the last entry of a page. SQLite orders and compares the
stored texts of `updated_at`; the cursor carries the text of the entry as it was read,
which is in UTC.

The filters of the call other than the namespace are left out, and so is the ledger. A row
whose shift to UTC overflows makes the call raise, and a row that the model refuses is
skipped (`storage/_resilient_fetch.py`).
-/
namespace TrwMemory.Storage

open Library.Keyset Security Sync

/-- `EntryCursor`. -/
structure EntryCursor where
  updatedAt : String
  entryId : String
  deriving DecidableEq, Repr

/-- `EntryCursor.from_entry`. -/
def EntryCursor.fromEntry (e : MemoryEntry) : EntryCursor := ⟨e.updatedAt.isoformat, e.id⟩

/-- `updated_at < ? OR (updated_at = ? AND id < ?)`. -/
def EntryCursor.selects (after : EntryCursor) (row : MemoryEntry) : Bool :=
  row.updatedAt.isoformat < after.updatedAt ||
    row.updatedAt.isoformat == after.updatedAt && row.id < after.entryId

/-- `ORDER BY updated_at DESC, id DESC`. -/
abbrev ListKey := (String ×ₗ String)ᵒᵈ

def EntryCursor.key (cursor : EntryCursor) : ListKey :=
  OrderDual.toDual (toLex (cursor.updatedAt, cursor.entryId))

def listKey (row : MemoryEntry) : ListKey := (EntryCursor.fromEntry row).key

/-- The rows of a namespace in the order of the listing. -/
def listing (store : MemoryRows) (ns : String) : List MemoryEntry :=
  sortOn listKey (store.rows.filter fun row => row.ns == ns)

/-- `list_entries`; `none` is an error that is raised. -/
def listEntries (store : MemoryRows) (ns : String) (limit : Nat) (after : Option EntryCursor) :
    Option (List MemoryEntry) :=
  let rows := (listing store ns).filter fun row => after.all fun cursor => cursor.selects row
  (fetchRows (rows.take limit)).toOption

/-- Whatever the limit, the pages of a listing end, and show each row of the namespace
once. -/
def PagingLossless (store : MemoryRows) (ns : String) : Prop :=
  ∀ limit, 0 < limit → ∃ pages,
    Walk (listEntries store ns limit) (fun e => some (EntryCursor.fromEntry e)) none pages ∧
      (pages.flatten.map MemoryEntry.id).Perm ((listing store ns).map MemoryEntry.id)

/-- What the cursor of a row is made from: its text once it was read. -/
def readCursor (row : MemoryEntry) : EntryCursor := ⟨row.updatedAt.parseDt.isoformat, row.id⟩

theorem selects_iff {cursor : EntryCursor} {row : MemoryEntry} :
    cursor.selects row = true ↔ cursor.key < listKey row := by
  rw [EntryCursor.selects, EntryCursor.key, listKey, EntryCursor.key, EntryCursor.fromEntry,
    OrderDual.toDual_lt_toDual, Prod.Lex.toLex_lt_toLex, Bool.or_eq_true, Bool.and_eq_true,
    decide_eq_true_eq, decide_eq_true_eq, beq_iff_eq]

theorem mem_listing {store : MemoryRows} {ns : String} {row : MemoryEntry} :
    row ∈ listing store ns ↔ row ∈ store.rows ∧ row.ns = ns := by
  rw [listing, mem_sortOn, List.mem_filter, beq_iff_eq]

/-- The ids of a namespace are distinct, so that the order has no ties. -/
theorem listing_strict (store : MemoryRows) (ns : String) :
    StrictlySorted listKey (listing store ns) := by
  apply sortOn_strict
  refine List.Nodup.map_on ?_ (store.primaryKey.of_map.filter _)
  intro a ha b hb hkey
  rw [List.mem_filter, beq_iff_eq] at ha hb
  have hid : a.id = b.id := congrArg (fun k => (ofLex (OrderDual.ofDual k)).2) hkey
  exact List.inj_on_of_nodup_map store.primaryKey ha.1 hb.1 (Prod.ext (ha.2.trans hb.2.symm) hid)

theorem readOf_cursor (row : MemoryEntry) :
    EntryCursor.fromEntry (readOf row) = readCursor row := by
  obtain ⟨confidence, metadata, h⟩ := servedView_fields (readBack row)
  rw [readOf, h]
  rfl

/-- Only rows that can be read are served. -/
theorem mem_fetchRows {rows served : List MemoryEntry} (h : fetchRows rows = .ok served)
    {e : MemoryEntry} (he : e ∈ served) : ∃ row ∈ rows, readable row = true ∧ e = readOf row := by
  rw [fetchRows_ok h, List.mem_map] at he
  obtain ⟨row, hrow, rfl⟩ := he
  obtain ⟨hmem, hreadable⟩ := List.mem_filter.mp hrow
  exact ⟨row, hmem, hreadable, rfl⟩

variable {store : MemoryRows} {ns : String}

/-- Where all rows can be read, a listing goes through the rows by their cursors. -/
theorem listEntries_eq (h : ∀ row ∈ listing store ns, readable row = true) (limit : Nat)
    (after : Option MemoryEntry) :
    listEntries store ns limit (after.map readCursor) =
      (cursorPage (listing store ns) (fun a => (readCursor a).selects) limit after).map
        (List.map readOf) := by
  have hpage : ∀ p : MemoryEntry → Bool,
      (fetchRows (((listing store ns).filter p).take limit)).toOption =
        some ((((listing store ns).filter p).take limit).map readOf) := by
    intro p
    rw [fetchRows_readable fun row hrow =>
      h row (List.mem_of_mem_filter (List.mem_of_mem_take hrow))]
    rfl
  cases after with
  | none =>
      have hall := hpage fun _ => true
      simp only [listEntries, Option.map_none, Option.all_none, cursorPage, Option.map_some]
      rw [hall, List.filter_true]
  | some a =>
      simp only [listEntries, Option.map_some, Option.all_some, cursorPage]
      exact hpage (readCursor a).selects

/-- The entries that a listing shows were read from rows of the namespace. -/
theorem listEntries_readable {limit : Nat} {after : Option EntryCursor} {shown : List MemoryEntry}
    (h : listEntries store ns limit after = some shown) {e : MemoryEntry} (he : e ∈ shown) :
    ∃ row ∈ listing store ns, readable row = true ∧ e = readOf row := by
  unfold listEntries at h
  dsimp only at h
  cases hfetch : fetchRows (((listing store ns).filter fun row =>
      after.all fun cursor => cursor.selects row).take limit) with
  | error _ => simp [hfetch, Except.toOption] at h
  | ok served =>
      rw [hfetch] at h
      obtain rfl := Option.some.inj h
      obtain ⟨row, hrow, hread⟩ := mem_fetchRows hfetch he
      exact ⟨row, List.mem_of_mem_filter (List.mem_of_mem_take hrow), hread⟩

theorem walk_readable {limit : Nat} {after : Option EntryCursor} {pages : List (List MemoryEntry)}
    (hwalk : Walk (listEntries store ns limit) (fun e => some (EntryCursor.fromEntry e)) after
      pages)
    {e : MemoryEntry} (he : e ∈ pages.flatten) :
    ∃ row ∈ listing store ns, readable row = true ∧ e = readOf row := by
  induction hwalk with
  | done _ => simp at he
  | more hshown _ _ ih =>
      rw [List.flatten_cons, List.mem_append] at he
      cases he with
      | inl he => exact listEntries_readable hshown he
      | inr he => exact ih he

theorem listing_id_inj {a b : MemoryEntry} (ha : a ∈ listing store ns) (hb : b ∈ listing store ns)
    (hid : a.id = b.id) : a = b := by
  obtain ⟨hmem, hns⟩ := mem_listing.mp ha
  obtain ⟨hmem', hns'⟩ := mem_listing.mp hb
  exact List.inj_on_of_nodup_map store.primaryKey hmem hmem' (Prod.ext (hns.trans hns'.symm) hid)

/-- A row that is shown was read. -/
theorem readable_of_lossless (h : PagingLossless store ns) :
    ∀ row ∈ listing store ns, readable row = true := by
  intro row hrow
  obtain ⟨pages, hwalk, hperm⟩ := h 1 Nat.one_pos
  have hid := hperm.symm.subset (List.mem_map_of_mem hrow)
  obtain ⟨e, he, heq⟩ := List.mem_map.mp hid
  obtain ⟨row', hrow', hread, rfl⟩ := walk_readable hwalk he
  rw [readOf_id] at heq
  exact listing_id_inj hrow' hrow heq ▸ hread

/-- Within a namespace rows are told apart by their ids. -/
theorem perm_of_ids {rows : List MemoryEntry} (hrows : ∀ a ∈ rows, a ∈ listing store ns) :
    (rows.map MemoryEntry.id).Perm ((listing store ns).map MemoryEntry.id) ↔
      rows.Perm (listing store ns) := by
  refine ⟨fun h => ?_, fun h => h.map _⟩
  have hnodup : (listing store ns).Nodup :=
    (sortOn_perm listKey _).nodup_iff.mpr (store.primaryKey.of_map.filter _)
  have hids : ((listing store ns).map MemoryEntry.id).Nodup :=
    hnodup.map_on fun a ha b hb => listing_id_inj ha hb
  refine (List.perm_ext_iff_of_nodup (h.nodup_iff.mpr hids).of_map hnodup).mpr fun a => ?_
  refine ⟨hrows a, fun ha => ?_⟩
  obtain ⟨b, hb, hid⟩ := List.mem_map.mp (h.symm.subset (List.mem_map_of_mem ha))
  exact listing_id_inj (hrows b hb) ha hid ▸ hb

theorem lossless_of_readable (h : ∀ row ∈ listing store ns, readable row = true) :
    PagingLossless store ns ↔
      Lossless (listing store ns) fun a b => (readCursor a).selects b := by
  apply forall_congr'
  intro limit
  apply imp_congr_right
  intro _
  have hwalk := walk_map_iff _ (listEntries store ns limit) some
    (fun e => some (EntryCursor.fromEntry e)) readOf (Option.map readCursor)
    (listEntries_eq h limit) (fun a => congrArg some (readOf_cursor a)) none
  have hids : ∀ pages : List (List MemoryEntry),
      (pages.map (List.map readOf)).flatten.map MemoryEntry.id =
        pages.flatten.map MemoryEntry.id := by
    intro pages
    rw [← List.map_flatten, List.map_map]
    exact List.map_congr_left fun a _ => readOf_id a
  constructor
  · rintro ⟨shown, hshown, hperm⟩
    obtain ⟨pages, hpages, rfl⟩ := (hwalk shown).mp hshown
    rw [hids, perm_of_ids fun a ha => mem_of_walk hpages ha] at hperm
    exact ⟨pages, hpages, hperm⟩
  · rintro ⟨pages, hpages, hperm⟩
    refine ⟨pages.map (List.map readOf), (hwalk _).mpr ⟨pages, hpages, rfl⟩, ?_⟩
    rw [hids]
    exact hperm.map _

/-- Paging loses and repeats nothing exactly when every row can be read and the text of
each row, once it was read, stands where the stored text stands among those of the rows. -/
theorem paging_iff (store : MemoryRows) (ns : String) :
    PagingLossless store ns ↔
      (∀ row ∈ listing store ns, readable row = true) ∧
        ∀ a ∈ listing store ns, ∀ b ∈ listing store ns,
          (readCursor a).selects b = (EntryCursor.fromEntry a).selects b := by
  have hup : ∀ a ∈ listing store ns,
      UpClosed listKey (listing store ns) fun b => (readCursor a).selects b := by
    intro a _ b _ c _ hselects hlt
    exact selects_iff.mpr ((selects_iff.mp hselects).trans hlt)
  have hexact : Lossless (listing store ns) (fun a b => (readCursor a).selects b) ↔
      ∀ a ∈ listing store ns, ∀ b ∈ listing store ns,
        (readCursor a).selects b = (EntryCursor.fromEntry a).selects b := by
    refine (lossless_iff (listing_strict store ns) hup).trans ?_
    apply forall₂_congr
    intro a _
    apply forall₂_congr
    intro b _
    exact (iff_congr .rfl selects_iff.symm).trans Bool.eq_iff_iff.symm
  constructor
  · intro h
    have hread := readable_of_lossless h
    exact ⟨hread, hexact.mp ((lossless_of_readable hread).mp h)⟩
  · rintro ⟨hread, hselects⟩
    exact (lossless_of_readable hread).mpr (hexact.mpr hselects)

/-- A timestamp in UTC has one text. -/
theorem readCursor_utc {row : MemoryEntry} (h : row.updatedAt.offset = some 0) :
    readCursor row = EntryCursor.fromEntry row := by
  have hparse : row.updatedAt.parseDt = row.updatedAt := by
    cases hd : row.updatedAt with
    | mk wall offset =>
        rw [hd] at h
        subst h
        simp [Datetime.parseDt]
  rw [readCursor, hparse, EntryCursor.fromEntry]

/-- The walk by `EntryCursor.from_entry`, on every store; timestamps in UTC suffice for
its cursors. -/
theorem listEntries_lossless_iff (store : MemoryRows) (ns : String) :
    (PagingLossless store ns ↔
      (∀ row ∈ listing store ns, readable row = true) ∧
        ∀ a ∈ listing store ns, ∀ b ∈ listing store ns,
          (readCursor a).selects b = (EntryCursor.fromEntry a).selects b) ∧
    ((∀ row ∈ listing store ns, row.updatedAt.offset = some 0) →
      ∀ a ∈ listing store ns, ∀ b ∈ listing store ns,
        (readCursor a).selects b = (EntryCursor.fromEntry a).selects b) := by
  refine ⟨paging_iff store ns, ?_⟩
  intro hutc a ha b _
  rw [readCursor_utc (hutc a ha)]

/-- A row that was written two hours behind UTC. -/
def westernRow : MemoryEntry :=
  { MemoryEntry.ofDefaults "a" "text" "south" ⟨0, some 0⟩ a_ne_empty with
    updatedAt := ⟨63840000000000000, some (-7200000000)⟩ }

/-- Its cursor is above its stored text: the page after it shows it again. -/
theorem westernRow_repeats :
    listEntries ⟨[westernRow], by decide⟩ "south" 1 (some (readCursor westernRow)) =
        some [readOf westernRow] ∧
      ¬ PagingLossless ⟨[westernRow], by decide⟩ "south" := by
  refine ⟨by decide +kernel, ?_⟩
  rw [paging_iff]
  decide +kernel

end TrwMemory.Storage

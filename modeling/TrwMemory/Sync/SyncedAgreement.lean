import TrwMemory.Security.EvidenceRuns
import TrwMemory.Sync.PathAgreement

/-!
The synced lookups of `sync/delta.py` and when their two paths agree: exactly when every row
of the namespace shifts to UTC, and every row that the SQL selects can be read, is not
blocked, and is asked for as it is read; for the lookup of one row, exactly when there is
also no second one. The SQL path does not ask the ledger, and takes the row that its scan
meets first.
-/
namespace TrwMemory.Sync

open Storage Security

/-- `remote_id IN (…) OR id IN (…)`. -/
def asked (remoteIds ids : List String) (e : MemoryEntry) : Bool :=
  e.remoteId.any remoteIds.contains || ids.contains e.id

/-- The rows that a statement selects, in the order of its scan. -/
def selectSynced (scan : List MemoryEntry) (ns : String) (remoteIds ids : List String) :
    List MemoryEntry :=
  scan.filter fun row => row.ns == ns && asked remoteIds ids row

/-- `find_synced_entry` over a connection: `LIMIT 1`. -/
def findSyncedEntrySql (scan : List MemoryEntry) (ns remoteId : String) (ids : List String) :
    Except MapError (Option MemoryEntry) :=
  match (selectSynced scan ns [remoteId] ids).head? with
  | none => .ok none
  | some row => (readServed row).map some

/-- `count` of a backend that reads each row. -/
def countListed (listing : List MemoryEntry) (ns : String) : Except MapError Nat :=
  (fetchRows (listing.filter fun row => row.ns == ns)).map List.length

/-- `list_entries` of a namespace, on rows in the order of the listing. -/
def listNamespace (blocks : MemoryEntry → Bool) (listing : List MemoryEntry) (ns : String)
    (limit : Nat) : Except MapError (List MemoryEntry) :=
  (fetchRows (listing.filter fun row => row.ns == ns)).map fun entries =>
    (entries.filter fun e => !blocks e).take limit

/-- The listing of both lookups: as many entries as the namespace counts. -/
def listCounted (blocks : MemoryEntry → Bool) (listing : List MemoryEntry) (ns : String) :
    Except MapError (List MemoryEntry) := do
  let count ← countListed listing ns
  listNamespace blocks listing ns (max count 1)

/-- `find_synced_entry` without a connection. -/
def findSyncedEntryListed (blocks : MemoryEntry → Bool) (listing : List MemoryEntry)
    (ns remoteId : String) (ids : List String) : Except MapError (Option MemoryEntry) :=
  (listCounted blocks listing ns).map (List.find? (asked [remoteId] ids))

/-- `found[entry.id] = entry`. -/
def setFound (found : List MemoryEntry) (e : MemoryEntry) : List MemoryEntry :=
  if found.any fun other => other.id == e.id then
    found.map fun other => if other.id == e.id then e else other
  else found ++ [e]

def FIND_MANY_CHUNK : Nat := 400

def chunk (values : List String) (i : Nat) : List String :=
  (values.drop (i * FIND_MANY_CHUNK)).take FIND_MANY_CHUNK

/-- The statements of `find_synced_entries`. -/
def rounds (remoteIds ids : List String) : Nat :=
  (max (max remoteIds.length ids.length) 1 + (FIND_MANY_CHUNK - 1)) / FIND_MANY_CHUNK

def collect (found : List MemoryEntry) (row : MemoryEntry) : Except MapError (List MemoryEntry) :=
  (readServed row).map (setFound found)

/-- `find_synced_entries` over a connection; `scan i` is what statement `i` scans. -/
def findSyncedEntriesSql (scan : Nat → List MemoryEntry) (ns : String)
    (remoteIds ids : List String) : Except MapError (List MemoryEntry) :=
  (List.range (rounds remoteIds ids)).foldlM
    (fun found i =>
      (selectSynced (scan i) ns (chunk remoteIds i) (chunk ids i)).foldlM collect found)
    []

/-- `find_synced_entries` without a connection. -/
def findSyncedEntriesListed (blocks : MemoryEntry → Bool) (listing : List MemoryEntry)
    (ns : String) (remoteIds ids : List String) : Except MapError (List MemoryEntry) :=
  (listCounted blocks listing ns).map (List.filter (asked remoteIds ids))

/-- The entries of the namespace that are served. -/
def servedNamespace (blocks : MemoryEntry → Bool) (listing : List MemoryEntry) (ns : String) :
    List MemoryEntry :=
  (fetchServed (listing.filter fun row => row.ns == ns)).filter fun e => !blocks e

theorem servedView_asked (remoteIds ids : List String) (e : MemoryEntry) :
    asked remoteIds ids (servedView e) = asked remoteIds ids e := by
  obtain ⟨confidence, metadata, h⟩ := servedView_fields e
  rw [h]
  rfl

theorem mem_fetchServed {rows : List MemoryEntry} {served : MemoryEntry} :
    served ∈ fetchServed rows ↔ ∃ row ∈ rows, readServed row = .ok served := by
  simp only [fetchServed, List.mem_filterMap, Option.map_eq_some_iff, readServed_ok,
    eq_comm (a := served)]

theorem readServed_ns {row served : MemoryEntry} (h : readServed row = .ok served) :
    served.ns = row.ns ∧ served.id = row.id := by
  obtain ⟨e, he, rfl⟩ := readServed_ok.mp h
  obtain ⟨confidence, metadata, hserved⟩ := servedView_fields e
  rw [hserved, rowToEntry_eq he]
  exact ⟨rfl, rfl⟩

theorem fetchServed_eq (rows : List MemoryEntry) :
    fetchServed rows = (rows.filter readable).map readOf := by
  induction rows with
  | nil => rfl
  | cons row rows ih =>
      rw [fetchServed, List.filterMap_cons, ← fetchServed, ih]
      cases hread : rowToEntry row with
      | none =>
          have hreadable : readable row = false := by
            rw [readable, mapRow, hread]
            cases shifts row <;> rfl
          rw [List.filter_cons_of_neg (by simp [hreadable])]
          rfl
      | some e =>
          have hreadable : readable row = true := by
            rw [readable, mapRow, hread, rowToEntry_shifts hread]
            rfl
          rw [List.filter_cons_of_pos hreadable, List.map_cons, readOf, ← rowToEntry_eq hread]
          rfl

/-- No row of the namespace has a timestamp that overflows. -/
def NamespaceShifts (rows : List MemoryEntry) (ns : String) : Prop :=
  ∀ row ∈ rows, row.ns = ns → shifts row = true

instance (rows : List MemoryEntry) (ns : String) : Decidable (NamespaceShifts rows ns) :=
  inferInstanceAs (Decidable (∀ row ∈ rows, _))

/-- A listing of as many entries as are counted leaves out none, and raises where one of
them overflows. -/
theorem listCounted_eq {blocks : MemoryEntry → Bool} {listing : List MemoryEntry} {ns : String}
    (h : NamespaceShifts listing ns) :
    listCounted blocks listing ns = .ok (servedNamespace blocks listing ns) := by
  have hfetch : fetchRows (listing.filter fun row => row.ns == ns) =
      .ok (fetchServed (listing.filter fun row => row.ns == ns)) := by
    rw [fetchServed_eq]
    apply fetchRows_shifts
    intro row hrow
    obtain ⟨hmem, hns⟩ := List.mem_filter.mp hrow
    exact h row hmem (beq_iff_eq.mp hns)
  rw [listCounted, countListed, hfetch]
  change listNamespace blocks listing ns _ = _
  rw [listNamespace, hfetch]
  refine congrArg Except.ok (List.take_of_length_le ?_)
  exact (List.length_filter_le _ _).trans (Nat.le_max_left _ 1)

theorem shifts_of_listCounted {blocks : MemoryEntry → Bool} {listing entries : List MemoryEntry}
    {ns : String} (h : listCounted blocks listing ns = .ok entries) :
    NamespaceShifts listing ns := by
  intro row hrow hns
  cases hshifts : shifts row with
  | true => rfl
  | false =>
      have hmem : row ∈ listing.filter fun row => row.ns == ns :=
        List.mem_filter.mpr ⟨hrow, beq_iff_eq.mpr hns⟩
      rw [listCounted, countListed, fetchRows_overflow hmem hshifts] at h
      cases h

theorem mem_servedNamespace {blocks : MemoryEntry → Bool} {listing : List MemoryEntry}
    {ns : String} {served : MemoryEntry} :
    served ∈ servedNamespace blocks listing ns ↔
      ∃ row ∈ listing, row.ns = ns ∧ readServed row = .ok served ∧ blocks served = false := by
  simp only [servedNamespace, List.mem_filter, mem_fetchServed, beq_iff_eq, Bool.not_eq_true',
    and_assoc]
  constructor
  · rintro ⟨⟨row, hrow, hns, hread⟩, hblocks⟩
    exact ⟨row, hrow, hns, hread, hblocks⟩
  · rintro ⟨row, hrow, hns, hread, hblocks⟩
    exact ⟨⟨row, hrow, hns, hread⟩, hblocks⟩

/-- The row is served to whoever asks for it. An empty remote id is read as none. -/
def clearRow (blocks : MemoryEntry → Bool) (remoteIds ids : List String) (row : MemoryEntry) :
    Bool :=
  (rowToEntry row).any fun e => asked remoteIds ids e && !blocks (servedView e)

theorem clearRow_iff {blocks : MemoryEntry → Bool} {remoteIds ids : List String}
    {row : MemoryEntry} :
    clearRow blocks remoteIds ids row = true ↔
      ∃ served, readServed row = .ok served ∧ asked remoteIds ids served = true ∧
        blocks served = false := by
  simp only [clearRow, Option.any_eq_true, readServed_ok, Bool.and_eq_true, Bool.not_eq_true']
  constructor
  · rintro ⟨e, he, hasked, hblocks⟩
    exact ⟨servedView e, ⟨e, he, rfl⟩, (servedView_asked _ _ e).trans hasked, hblocks⟩
  · rintro ⟨_, ⟨e, he, rfl⟩, hasked, hblocks⟩
    exact ⟨e, he, (servedView_asked _ _ e).symm.trans hasked, hblocks⟩

/-- What is asked for as it is read is selected by the SQL. -/
theorem asked_of_read {remoteIds ids : List String} {row served : MemoryEntry}
    (hread : readServed row = .ok served) (h : asked remoteIds ids served = true) :
    asked remoteIds ids row = true := by
  obtain ⟨e, he, rfl⟩ := readServed_ok.mp hread
  rw [servedView_asked, rowToEntry_eq he] at h
  simp only [asked, readBack, textOrNone, Bool.or_eq_true, Option.any_eq_true,
    Option.filter_eq_some_iff] at h ⊢
  refine h.imp_left ?_
  rintro ⟨remote, ⟨hremote, -⟩, hmem⟩
  exact ⟨remote, hremote, hmem⟩

theorem mem_selectSynced {scan : List MemoryEntry} {ns : String} {remoteIds ids : List String}
    {row : MemoryEntry} :
    row ∈ selectSynced scan ns remoteIds ids ↔
      row ∈ scan ∧ row.ns = ns ∧ asked remoteIds ids row = true := by
  rw [selectSynced, List.mem_filter, Bool.and_eq_true, beq_iff_eq]

/-- The entries that a listing serves of those asked for. -/
def servedSelection (blocks : MemoryEntry → Bool) (listing : List MemoryEntry) (ns : String)
    (remoteIds ids : List String) : List MemoryEntry :=
  (servedNamespace blocks listing ns).filter (asked remoteIds ids)

/-- What the listing answers: the rows selected that are served to whoever asks. -/
theorem mem_servedSelection {blocks : MemoryEntry → Bool} {listing : List MemoryEntry}
    {ns : String} {remoteIds ids : List String} {served : MemoryEntry} :
    served ∈ servedSelection blocks listing ns remoteIds ids ↔
      ∃ row ∈ selectSynced listing ns remoteIds ids,
        readServed row = .ok served ∧ asked remoteIds ids served = true ∧
          blocks served = false := by
  rw [servedSelection, List.mem_filter, mem_servedNamespace]
  constructor
  · rintro ⟨⟨row, hrow, hns, hread, hblocks⟩, hasked⟩
    exact ⟨row, mem_selectSynced.mpr ⟨hrow, hns, asked_of_read hread hasked⟩, hread, hasked,
      hblocks⟩
  · rintro ⟨row, hrow, hread, hasked, hblocks⟩
    obtain ⟨hmem, hns, -⟩ := mem_selectSynced.mp hrow
    exact ⟨⟨row, hmem, hns, hread, hblocks⟩, hasked⟩

/-- Where the namespace shifts, both lookups answer from the selection; where it does not,
neither answers. -/
theorem findSyncedEntryListed_eq {blocks : MemoryEntry → Bool} {listing : List MemoryEntry}
    {ns : String} (h : NamespaceShifts listing ns) (remoteId : String) (ids : List String) :
    findSyncedEntryListed blocks listing ns remoteId ids =
      .ok (servedSelection blocks listing ns [remoteId] ids).head? := by
  rw [findSyncedEntryListed, listCounted_eq h, servedSelection, List.head?_filter]
  rfl

theorem findSyncedEntriesListed_eq {blocks : MemoryEntry → Bool} {listing : List MemoryEntry}
    {ns : String} (h : NamespaceShifts listing ns) (remoteIds ids : List String) :
    findSyncedEntriesListed blocks listing ns remoteIds ids =
      .ok (servedSelection blocks listing ns remoteIds ids) := by
  rw [findSyncedEntriesListed, listCounted_eq h]
  rfl

theorem shifts_of_map_listCounted {β : Type} {blocks : MemoryEntry → Bool}
    {listing : List MemoryEntry} {ns : String} {answer : List MemoryEntry → β} {found : β}
    (h : (listCounted blocks listing ns).map answer = .ok found) : NamespaceShifts listing ns := by
  cases hlisted : listCounted blocks listing ns with
  | error error =>
      rw [hlisted] at h
      cases h
  | ok entries => exact shifts_of_listCounted hlisted

namespace MemoryRows

variable (store : MemoryRows) (blocks : MemoryEntry → Bool) (ns : String)

/-- The two paths of `find_synced_entry` answer alike, and nothing that the ledger blocks. -/
def FindAgrees (remoteId : String) (ids : List String) : Prop :=
  ∀ scan listing, scan.Perm store.rows → listing.Perm store.rows →
    ∃ found, findSyncedEntrySql scan ns remoteId ids = .ok found ∧
      findSyncedEntryListed blocks listing ns remoteId ids = .ok found ∧
      ∀ e ∈ found, blocks e = false

/-- The two paths of `find_synced_entries` answer alike, and nothing that the ledger
blocks. -/
def FindManyAgrees (remoteIds ids : List String) : Prop :=
  ∀ scan listing, (∀ i, (scan i).Perm store.rows) → listing.Perm store.rows →
    ∃ found listed, findSyncedEntriesSql scan ns remoteIds ids = .ok found ∧
      findSyncedEntriesListed blocks listing ns remoteIds ids = .ok listed ∧
      found.Perm listed ∧ ∀ e ∈ found, blocks e = false

/-- Every row that is selected is clear. -/
def SelectionClear (remoteIds ids : List String) : Prop :=
  ∀ row ∈ selectSynced store.rows ns remoteIds ids, clearRow blocks remoteIds ids row = true

instance (remoteIds ids : List String) : Decidable (store.SelectionClear blocks ns remoteIds ids) :=
  inferInstanceAs (Decidable (∀ row ∈ selectSynced store.rows ns remoteIds ids, _))

variable {store blocks ns} {remoteIds ids : List String}

/-- Two rows of a namespace that are read as one id are one row. -/
theorem selected_inj {row row' served served' : MemoryEntry}
    (hrow : row ∈ selectSynced store.rows ns remoteIds ids)
    (hrow' : row' ∈ selectSynced store.rows ns remoteIds ids) (hread : readServed row = .ok served)
    (hread' : readServed row' = .ok served') (hid : served.id = served'.id) : row = row' := by
  obtain ⟨hmem, hns, -⟩ := mem_selectSynced.mp hrow
  obtain ⟨hmem', hns', -⟩ := mem_selectSynced.mp hrow'
  rw [(readServed_ns hread).2, (readServed_ns hread').2] at hid
  exact List.inj_on_of_nodup_map store.primaryKey hmem hmem' (Prod.ext (hns.trans hns'.symm) hid)

theorem selectSynced_perm {scan : List MemoryEntry} (h : scan.Perm store.rows) :
    (selectSynced scan ns remoteIds ids).Perm (selectSynced store.rows ns remoteIds ids) :=
  h.filter _

/-- A selected row that the scan meets first is the answer. -/
theorem findSyncedEntrySql_first {remoteId : String} {row : MemoryEntry}
    (hrow : row ∈ selectSynced store.rows ns [remoteId] ids) :
    findSyncedEntrySql (row :: store.rows.erase row) ns remoteId ids =
      (readServed row).map some := by
  obtain ⟨-, hns, hasked⟩ := mem_selectSynced.mp hrow
  rw [findSyncedEntrySql, selectSynced, List.filter_cons_of_pos (by simp [hns, hasked])]
  rfl

theorem findAgrees_iff {remoteId : String} :
    store.FindAgrees blocks ns remoteId ids ↔
      NamespaceShifts store.rows ns ∧
        (selectSynced store.rows ns [remoteId] ids).length ≤ 1 ∧
        store.SelectionClear blocks ns [remoteId] ids := by
  constructor
  · intro h
    obtain ⟨answer, -, hanswer, -⟩ := h _ _ (.refl _) (.refl _)
    have hshifts : NamespaceShifts store.rows ns := shifts_of_map_listCounted hanswer
    have hfirst : ∀ row ∈ selectSynced store.rows ns [remoteId] ids,
        ∃ served, readServed row = .ok served ∧
          (servedSelection blocks store.rows ns [remoteId] ids).head? = some served := by
      intro row hrow
      have hperm := List.perm_cons_erase (mem_selectSynced.mp hrow).1
      obtain ⟨found, hsql, hlisted, -⟩ := h _ store.rows hperm.symm (.refl _)
      rw [findSyncedEntryListed_eq hshifts] at hlisted
      rw [findSyncedEntrySql_first hrow] at hsql
      cases hread : readServed row with
      | error _ => simp [hread, Except.map] at hsql
      | ok served =>
          rw [hread] at hsql
          exact ⟨served, rfl, (Except.ok.inj hlisted).trans (Except.ok.inj hsql).symm⟩
    have hsame : ∀ row ∈ selectSynced store.rows ns [remoteId] ids,
        ∀ row' ∈ selectSynced store.rows ns [remoteId] ids, row = row' := by
      intro row hrow row' hrow'
      obtain ⟨served, hread, hlisted⟩ := hfirst row hrow
      obtain ⟨served', hread', hlisted'⟩ := hfirst row' hrow'
      obtain rfl := Option.some.inj (hlisted.symm.trans hlisted')
      exact selected_inj hrow hrow' hread hread' rfl
    refine ⟨hshifts, ?_, ?_⟩
    · have hnodup : (selectSynced store.rows ns [remoteId] ids).Nodup :=
        store.primaryKey.of_map.filter _
      rcases hrows : selectSynced store.rows ns [remoteId] ids with _ | ⟨row, _ | ⟨row', rest⟩⟩
      · simp
      · simp
      · rw [hrows] at hnodup hsame
        simp [hsame row (by simp) row' (by simp)] at hnodup
    · intro row hrow
      obtain ⟨served, hread, hlisted⟩ := hfirst row hrow
      obtain ⟨-, -, -, hasked, hblocks⟩ :=
        mem_servedSelection.mp (List.mem_of_head? hlisted)
      exact clearRow_iff.mpr ⟨served, hread, hasked, hblocks⟩
  · rintro ⟨hshifts, hlength, hclear⟩ scan listing hscan hlisting
    have hselected : (selectSynced scan ns [remoteId] ids).Perm
        (selectSynced store.rows ns [remoteId] ids) := selectSynced_perm hscan
    rw [findSyncedEntryListed_eq fun row hrow => hshifts row (hlisting.subset hrow)]
    cases hrows : selectSynced store.rows ns [remoteId] ids with
    | nil =>
        rw [hrows] at hselected
        refine ⟨none, ?_, ?_, by simp⟩
        · rw [findSyncedEntrySql, hselected.eq_nil]
          rfl
        · rw [Except.ok.injEq, List.head?_eq_none_iff, List.eq_nil_iff_forall_not_mem]
          intro served hserved
          obtain ⟨row, hrow, -⟩ := mem_servedSelection.mp hserved
          have hmem := (selectSynced_perm hlisting).subset hrow
          rw [hrows] at hmem
          cases hmem
    | cons row rest =>
        obtain rfl : rest = [] := by
          rw [hrows] at hlength
          exact List.eq_nil_of_length_eq_zero (by simpa using hlength)
        obtain ⟨served, hread, hasked, hblocks⟩ :=
          clearRow_iff.mp (hclear row (by rw [hrows]; exact List.mem_singleton_self row))
        refine ⟨some served, ?_, ?_, ?_⟩
        · rw [hrows] at hselected
          rw [findSyncedEntrySql, hselected.eq_singleton]
          change (readServed row).map some = _
          rw [hread]
          rfl
        · have hall : ∀ other ∈ servedSelection blocks listing ns [remoteId] ids,
              other = served := by
            intro other hother
            obtain ⟨row', hrow', hread', -⟩ := mem_servedSelection.mp hother
            have hmem := (selectSynced_perm hlisting).subset hrow'
            rw [hrows, List.mem_singleton] at hmem
            subst hmem
            exact Except.ok.inj (hread'.symm.trans hread)
          have hmem : served ∈ servedSelection blocks listing ns [remoteId] ids :=
            mem_servedSelection.mpr ⟨row, (selectSynced_perm hlisting).symm.subset (by
              rw [hrows]
              exact List.mem_singleton_self row), hread, hasked, hblocks⟩
          cases hlisted : servedSelection blocks listing ns [remoteId] ids with
          | nil =>
              rw [hlisted] at hmem
              cases hmem
          | cons other others =>
              rw [hlisted] at hall
              rw [List.head?_cons, hall other List.mem_cons_self]
        · intro e he
          obtain rfl := Option.some.inj he
          exact hblocks

theorem foldlM_collect_ok {rows found out : List MemoryEntry} :
    rows.foldlM collect found = .ok out ↔
      (∀ row ∈ rows, ∃ served, readServed row = .ok served) ∧
        out = (fetchServed rows).foldl setFound found := by
  induction rows generalizing found with
  | nil => simp [fetchServed, pure, Except.pure, eq_comm]
  | cons row rows ih =>
      rw [List.foldlM_cons, collect, List.forall_mem_cons]
      cases hrow : rowToEntry row with
      | none =>
          have hread : ∀ served, readServed row ≠ .ok served := by
            intro served h
            obtain ⟨e, he, -⟩ := readServed_ok.mp h
            rw [hrow] at he
            cases he
          cases hserved : readServed row with
          | error _ => simp [Except.map, bind, Except.bind]
          | ok served => exact absurd hserved (hread served)
      | some e =>
          have hread : readServed row = .ok (servedView e) := readServed_ok.mpr ⟨e, hrow, rfl⟩
          have hfetch : fetchServed (row :: rows) = servedView e :: fetchServed rows := by
            rw [fetchServed, List.filterMap_cons, hrow]
            rfl
          rw [hread, hfetch, List.foldl_cons]
          refine ih.trans (and_congr_left' ?_)
          exact ⟨fun h => ⟨⟨_, rfl⟩, h⟩, And.right⟩

/-- An entry under an id that only it has is set once. -/
theorem setFound_eq {found : List MemoryEntry} {e : MemoryEntry}
    (hinj : ∀ other ∈ found, other.id = e.id → other = e) :
    setFound found e = if e ∈ found then found else found ++ [e] := by
  unfold setFound
  by_cases hmem : e ∈ found
  · have hany : (found.any fun other => other.id == e.id) = true :=
      List.any_eq_true.mpr ⟨e, hmem, beq_self_eq_true e.id⟩
    rw [if_pos hany, if_pos hmem]
    refine (List.map_congr_left fun other hother => ?_).trans (List.map_id found)
    split
    · rename_i hid
      exact (hinj other hother (beq_iff_eq.mp hid)).symm
    · rfl
  · rw [if_neg, if_neg hmem]
    rw [List.any_eq_true]
    rintro ⟨other, hother, hid⟩
    exact hmem (hinj other hother (beq_iff_eq.mp hid) ▸ hother)

theorem foldl_setFound {found entries : List MemoryEntry} (hnodup : found.Nodup)
    (hinj : ∀ a ∈ found ++ entries, ∀ b ∈ found ++ entries, a.id = b.id → a = b) :
    (entries.foldl setFound found).Nodup ∧
      ∀ e, e ∈ entries.foldl setFound found ↔ e ∈ found ++ entries := by
  induction entries generalizing found with
  | nil => simpa using hnodup
  | cons entry entries ih =>
      have hentry : entry ∈ found ++ entry :: entries := by simp
      rw [List.foldl_cons, setFound_eq fun other hother =>
        hinj other (List.mem_append_left _ hother) entry hentry]
      split
      · rename_i hmem
        have hsame : ∀ e, e ∈ found ++ entries ↔ e ∈ found ++ entry :: entries := by
          intro e
          simp only [List.mem_append, List.mem_cons]
          constructor
          · exact Or.imp_right .inr
          · rintro (h | rfl | h)
            · exact .inl h
            · exact .inl hmem
            · exact .inr h
        obtain ⟨hfound, hiff⟩ := ih hnodup fun a ha b hb =>
          hinj a ((hsame a).mp ha) b ((hsame b).mp hb)
        exact ⟨hfound, fun e => (hiff e).trans (hsame e)⟩
      · rename_i hmem
        have hnodup' : (found ++ [entry]).Nodup := by
          rw [List.nodup_append]
          refine ⟨hnodup, List.nodup_singleton entry, fun a ha b hb heq => ?_⟩
          obtain rfl := List.mem_singleton.mp hb
          exact hmem (heq ▸ ha)
        rw [List.append_cons found entry entries] at hinj ⊢
        exact ih hnodup' hinj

/-- Every key is in some statement. -/
theorem exists_chunk {values : List String} {n : Nat} (h : values.length ≤ n * FIND_MANY_CHUNK)
    {value : String} : (∃ i < n, value ∈ chunk values i) ↔ value ∈ values := by
  constructor
  · rintro ⟨i, -, hvalue⟩
    exact List.mem_of_mem_drop (List.mem_of_mem_take hvalue)
  · intro hvalue
    obtain ⟨j, hj, rfl⟩ := List.getElem_of_mem hvalue
    have hpos : 0 < FIND_MANY_CHUNK := by decide
    refine ⟨j / FIND_MANY_CHUNK, (Nat.div_lt_iff_lt_mul hpos).mpr (hj.trans_le h), ?_⟩
    have hmod := Nat.mod_lt j hpos
    have hdiv := Nat.div_add_mod' j FIND_MANY_CHUNK
    rw [chunk, List.mem_take_iff_getElem]
    refine ⟨j % FIND_MANY_CHUNK, ?_, ?_⟩
    · rw [List.length_drop]
      omega
    · rw [List.getElem_drop]
      congr 1

theorem rounds_le (remoteIds ids : List String) :
    remoteIds.length ≤ rounds remoteIds ids * FIND_MANY_CHUNK ∧
      ids.length ≤ rounds remoteIds ids * FIND_MANY_CHUNK := by
  unfold rounds FIND_MANY_CHUNK
  omega

/-- What the statements select, one after the other. -/
def selectPage (scan : Nat → List MemoryEntry) (ns : String) (remoteIds ids : List String) :
    List MemoryEntry :=
  (List.range (rounds remoteIds ids)).flatMap fun i =>
    selectSynced (scan i) ns (chunk remoteIds i) (chunk ids i)

/-- The statements together select the rows of one statement over all keys. -/
theorem mem_selectPage {scan : Nat → List MemoryEntry} {row : MemoryEntry}
    (hscan : ∀ i, (scan i).Perm store.rows) :
    row ∈ selectPage scan ns remoteIds ids ↔ row ∈ selectSynced store.rows ns remoteIds ids := by
  obtain ⟨hremote, hids⟩ := rounds_le remoteIds ids
  simp only [selectPage, List.mem_flatMap, List.mem_range, mem_selectSynced, (hscan _).mem_iff]
  constructor
  · rintro ⟨i, hi, hrow, hns, hasked⟩
    refine ⟨hrow, hns, ?_⟩
    simp only [asked, Bool.or_eq_true, Option.any_eq_true, List.contains_iff_mem] at hasked ⊢
    refine hasked.imp ?_ fun h => (exists_chunk hids).mp ⟨i, hi, h⟩
    exact fun ⟨remote, hremote', h⟩ => ⟨remote, hremote', (exists_chunk hremote).mp ⟨i, hi, h⟩⟩
  · rintro ⟨hrow, hns, hasked⟩
    simp only [asked, Bool.or_eq_true, Option.any_eq_true, List.contains_iff_mem] at hasked ⊢
    rcases hasked with ⟨remote, hremote', h⟩ | h
    · obtain ⟨i, hi, h⟩ := (exists_chunk hremote).mpr h
      exact ⟨i, hi, hrow, hns, .inl ⟨remote, hremote', h⟩⟩
    · obtain ⟨i, hi, h⟩ := (exists_chunk hids).mpr h
      exact ⟨i, hi, hrow, hns, .inr h⟩

theorem foldlM_flatMap_collect (statements : List Nat)
    (select : Nat → List MemoryEntry) (found : List MemoryEntry) :
    statements.foldlM (fun found i => (select i).foldlM collect found) found =
      (statements.flatMap select).foldlM collect found := by
  induction statements generalizing found with
  | nil => rfl
  | cons i statements ih =>
      rw [List.flatMap_cons, List.foldlM_append, List.foldlM_cons]
      exact bind_congr ih

theorem findSyncedEntriesSql_ok {scan : Nat → List MemoryEntry} {found : List MemoryEntry} :
    findSyncedEntriesSql scan ns remoteIds ids = .ok found ↔
      (∀ row ∈ selectPage scan ns remoteIds ids, ∃ served, readServed row = .ok served) ∧
        found = (fetchServed (selectPage scan ns remoteIds ids)).foldl setFound [] := by
  rw [findSyncedEntriesSql, foldlM_flatMap_collect, ← selectPage, foldlM_collect_ok]

/-- The SQL path answers each row that it selects, once. -/
theorem mem_findSyncedEntriesSql {scan : Nat → List MemoryEntry} {found : List MemoryEntry}
    (hscan : ∀ i, (scan i).Perm store.rows)
    (h : findSyncedEntriesSql scan ns remoteIds ids = .ok found) :
    found.Nodup ∧ ∀ served, served ∈ found ↔
      ∃ row ∈ selectSynced store.rows ns remoteIds ids, readServed row = .ok served := by
  obtain ⟨-, rfl⟩ := findSyncedEntriesSql_ok.mp h
  have hserved : ∀ served, served ∈ fetchServed (selectPage scan ns remoteIds ids) ↔
      ∃ row ∈ selectSynced store.rows ns remoteIds ids, readServed row = .ok served := by
    intro served
    simp only [mem_fetchServed, mem_selectPage hscan]
  obtain ⟨hnodup, hmem⟩ := foldl_setFound List.nodup_nil (by
    intro a ha b hb hid
    obtain ⟨row, hrow, hread⟩ := (hserved a).mp ha
    obtain ⟨row', hrow', hread'⟩ := (hserved b).mp hb
    obtain rfl := selected_inj hrow hrow' hread hread' hid
    exact Except.ok.inj (hread.symm.trans hread'))
  exact ⟨hnodup, fun served => (hmem served).trans (hserved served)⟩

theorem servedSelection_nodup {listing : List MemoryEntry}
    (hlisting : listing.Perm store.rows) :
    (servedSelection blocks listing ns remoteIds ids).Nodup := by
  have hkeys : (listing.map fun e => (e.ns, e.id)).Nodup :=
    (hlisting.map _).nodup_iff.mpr store.primaryKey
  have hserved : (fetchServed (listing.filter fun row => row.ns == ns)).Nodup := by
    refine List.Pairwise.filterMap _ ?_ ((List.pairwise_map.mp hkeys).filter _)
    intro row row' hne served hserved served' hserved' heq
    subst heq
    obtain ⟨e, he, rfl⟩ := Option.map_eq_some_iff.mp hserved
    obtain ⟨e', he', hsame⟩ := Option.map_eq_some_iff.mp hserved'
    obtain ⟨hns, hid⟩ := readServed_ns (readServed_ok.mpr ⟨e, he, rfl⟩)
    obtain ⟨hns', hid'⟩ := readServed_ns (readServed_ok.mpr ⟨e', he', hsame.symm⟩)
    exact hne (Prod.ext (hns.symm.trans hns') (hid.symm.trans hid'))
  exact (hserved.filter _).filter _

theorem findManyAgrees_iff :
    store.FindManyAgrees blocks ns remoteIds ids ↔
      NamespaceShifts store.rows ns ∧ store.SelectionClear blocks ns remoteIds ids := by
  constructor
  · intro h
    have hscan : ∀ _ : Nat, store.rows.Perm store.rows := fun _ => .refl _
    obtain ⟨found, listed, hsql, hlisted, hperm, -⟩ :=
      h (fun _ => store.rows) store.rows hscan (.refl _)
    have hshifts : NamespaceShifts store.rows ns := shifts_of_map_listCounted hlisted
    rw [findSyncedEntriesListed_eq hshifts] at hlisted
    obtain rfl := Except.ok.inj hlisted
    refine ⟨hshifts, fun row hrow => ?_⟩
    obtain ⟨served, hread⟩ :=
      (findSyncedEntriesSql_ok.mp hsql).1 row ((mem_selectPage hscan).mpr hrow)
    have hfound := ((mem_findSyncedEntriesSql hscan hsql).2 served).mpr ⟨row, hrow, hread⟩
    obtain ⟨-, -, -, hasked, hblocks⟩ := mem_servedSelection.mp (hperm.subset hfound)
    exact clearRow_iff.mpr ⟨served, hread, hasked, hblocks⟩
  · rintro ⟨hshifts, hclear⟩ scan listing hscan hlisting
    have hreadable : ∀ row ∈ selectPage scan ns remoteIds ids,
        ∃ served, readServed row = .ok served := by
      intro row hrow
      obtain ⟨served, hread, -⟩ := clearRow_iff.mp (hclear row ((mem_selectPage hscan).mp hrow))
      exact ⟨served, hread⟩
    have hsql := findSyncedEntriesSql_ok.mpr ⟨hreadable, rfl⟩
    obtain ⟨hnodup, hmem⟩ := mem_findSyncedEntriesSql hscan hsql
    have hlisted : ∀ served, served ∈ servedSelection blocks listing ns remoteIds ids ↔
        ∃ row ∈ selectSynced store.rows ns remoteIds ids, readServed row = .ok served := by
      intro served
      rw [mem_servedSelection]
      constructor
      · rintro ⟨row, hrow, hread, -⟩
        exact ⟨row, (selectSynced_perm hlisting).subset hrow, hread⟩
      · rintro ⟨row, hrow, hread⟩
        obtain ⟨served', hread', hasked, hblocks⟩ := clearRow_iff.mp (hclear row hrow)
        obtain rfl := Except.ok.inj (hread.symm.trans hread')
        exact ⟨row, (selectSynced_perm hlisting).symm.subset hrow, hread, hasked, hblocks⟩
    have hsame : ∀ served, served ∈ (fetchServed (selectPage scan ns remoteIds ids)).foldl
        setFound [] ↔ served ∈ servedSelection blocks listing ns remoteIds ids :=
      fun served => (hmem served).trans (hlisted served).symm
    refine ⟨_, _, hsql, findSyncedEntriesListed_eq (fun row hrow =>
      hshifts row (hlisting.subset hrow)) remoteIds ids, ?_, ?_⟩
    · exact (List.perm_ext_iff_of_nodup hnodup (servedSelection_nodup hlisting)).mpr hsame
    · intro served hserved
      obtain ⟨-, -, -, -, hblocks⟩ := mem_servedSelection.mp ((hsame served).mp hserved)
      exact hblocks

end MemoryRows

end TrwMemory.Sync

import TrwMemory.Lifecycle.ConsolidationRows
import TrwMemory.Lifecycle.ConsolidationRuns

/-!
How a cluster's write step ends where nobody else writes its rows. Every row reads at every moment
as it was read, or as archived into the new entry; archival and its undoing move it between the
two, and nothing else of it. So a step that reports `written` has archived all of them, and one that
reports a failure has put all of them back.
-/
namespace TrwMemory.Lifecycle.Consolidator

open Library Library.Jobs Storage Sync Tools

variable {τ : Type} {c : Consolidator τ}

/-- Nobody else writes the rows of `keys`, or the new one. -/
def LeavesRows (c : Consolidator τ) (hex ns : String) (keys : List RowKey) : Prop :=
  ∀ n s k, k = newKey hex ns ∨ k ∈ keys → (c.setting.others n s).table.find k = s.table.find k

/-- The row of `k` as it was and as it is. -/
def At (F : MemoryEntry → MemoryEntry → Prop) (s₀ s : EntryStore) (k : RowKey) : Prop :=
  ∃ row₀ row, s₀.table.find k = some row₀ ∧ s.table.find k = some row ∧ F row₀ row

section Store

variable {s₀ s : EntryStore} {k : RowKey} {F G : MemoryEntry → MemoryEntry → Prop}

theorem At.mono (h : At G s₀ s k) (hF : ∀ row₀ row, G row₀ row → F row₀ row) : At F s₀ s k := by
  obtain ⟨row₀, row, hfind₀, hfind, hG⟩ := h
  exact ⟨row₀, row, hfind₀, hfind, hF _ _ hG⟩

theorem At.of_find {s' : EntryStore} (h : At F s₀ s k) (hfind : s'.table.find k = s.table.find k) :
    At F s₀ s' k := by
  obtain ⟨row₀, row, hfind₀, hrow, hF⟩ := h
  exact ⟨row₀, row, hfind₀, hfind.trans hrow, hF⟩

/-- The snapshot of a row is the row as it was served. -/
theorem snapshot_of_reads {e row₀ : MemoryEntry} (h : c.reads s₀ k = .ok (some e))
    (hfind : s₀.table.find k = some row₀) : e = servedView (readBack row₀) := by
  rw [reads, hfind] at h
  obtain ⟨stored, existing, hstored, hread, -, rfl⟩ := readRow_some h
  obtain rfl := Option.some.inj hstored
  rw [rowToEntry_eq hread]

theorem shifts_of_reads {e row₀ : MemoryEntry} (h : c.reads s₀ k = .ok (some e))
    (hfind : s₀.table.find k = some row₀) : shifts row₀ = true := by
  rw [reads, hfind] at h
  obtain ⟨stored, existing, hstored, hread, -, -⟩ := readRow_some h
  obtain rfl := Option.some.inj hstored
  exact rowToEntry_shifts hread

/-- An update of a row: it leaves the store, and then does not return an entry, or it makes of the
row what `F` says. -/
theorem At.updateEntry (fields : Patch) (now : Datetime) (h : At G s₀ s k)
    (hF : ∀ row₀ row existing, s₀.table.find k = some row₀ → G row₀ row →
      rowToEntry (row.patched (updateFields c.digest existing fields now)) =
        some (readBack (row.patched (updateFields c.digest existing fields now))) →
      F row₀ (row.patched (updateFields c.digest existing fields now))) :
    (((c.updateEntry k fields now).run s).2 = s ∧
      ((c.updateEntry k fields now).run s).1 ≠ .ok true ∧
      (((c.updateEntry k fields now).run s).1 = .ok false → c.reads s k = .ok none)) ∨
    At F s₀ ((c.updateEntry k fields now).run s).2 k := by
  obtain ⟨row₀, row, hfind₀, hfind, hG⟩ := h
  rcases updateEntry_cases (c := c) (s := s) (k := k) fields now with
    hleft | ⟨stored, existing, written, hstored, -, rfl, hback, hrun⟩
  · exact .inl hleft
  · rw [hfind] at hstored
    obtain rfl := Option.some.inj hstored
    refine .inr ⟨row₀, _, hfind₀, ?_, hF row₀ row existing hfind₀ hG hback⟩
    rw [hrun, EntryStore.find_insert, rowKey_patched, s.rowKey_find hfind, if_pos rfl]

end Store

/-- The rows of the cluster between the creation and the end: each stands as it was or archived,
the new row is there, and those of `done` are as `F` says. -/
structure Mid (s₀ : EntryStore) (hex ns : String) (keys : List RowKey) (closeAt : Datetime)
    (row : MemoryEntry) (F : MemoryEntry → MemoryEntry → Prop) (done : List RowKey)
    (s : EntryStore) : Prop where
  stands : ∀ k ∈ keys, At (Standing (consolidatedId hex) closeAt) s₀ s k
  created : s.table.find (newKey hex ns) = some row
  did : ∀ k ∈ done, At F s₀ s k

section Mid

variable {s₀ s s' : EntryStore} {hex ns : String} {keys done : List RowKey} {closeAt : Datetime}
  {row : MemoryEntry} {F : MemoryEntry → MemoryEntry → Prop}

theorem Mid.of_find (h : Mid s₀ hex ns keys closeAt row F done s) (hdone : done ⊆ keys)
    (hfind : ∀ k, k = newKey hex ns ∨ k ∈ keys → s'.table.find k = s.table.find k) :
    Mid s₀ hex ns keys closeAt row F done s' where
  stands k hk := (h.stands k hk).of_find (hfind k (.inr hk))
  created := (hfind _ (.inl rfl)).trans h.created
  did k hk := (h.did k hk).of_find (hfind k (.inr (hdone hk)))

theorem LeavesRows.mid (hleaves : c.LeavesRows hex ns keys) (hdone : done ⊆ keys) :
    c.setting.Stable (Mid s₀ hex ns keys closeAt row F done) :=
  fun n s hs => hs.of_find hdone (hleaves n s)

theorem Mid.nothing (h : Mid s₀ hex ns keys closeAt row F done s)
    (G : MemoryEntry → MemoryEntry → Prop) : Mid s₀ hex ns keys closeAt row G [] s :=
  ⟨h.stands, h.created, nofun⟩

/-- A row of `keys` is written so that it still stands. -/
theorem Mid.write {k : RowKey} (h : Mid s₀ hex ns keys closeAt row F done s)
    (hnew : newKey hex ns ∉ keys) (hk : k ∈ keys)
    (hother : ∀ k', k' ≠ k → s'.table.find k' = s.table.find k') (hself : At F s₀ s' k)
    (hF : ∀ row₀ row, F row₀ row → Standing (consolidatedId hex) closeAt row₀ row) :
    Mid s₀ hex ns keys closeAt row F (done ++ [k]) s' := by
  refine ⟨fun k' hk' => ?_, ?_, fun k' hk' => ?_⟩
  · by_cases hkk : k' = k
    · rw [hkk]
      exact hself.mono hF
    · exact (h.stands k' hk').of_find (hother k' hkk)
  · have hne : newKey hex ns ≠ k := by
      rintro rfl
      exact hnew hk
    rw [hother _ hne]
    exact h.created
  · by_cases hkk : k' = k
    · rwa [hkk]
    · rcases List.mem_append.mp hk' with hold | hlast
      · exact (h.did k' hold).of_find (hother k' hkk)
      · exact absurd (List.mem_singleton.mp hlast) hkk

/-- One turn of the archival. -/
theorem archive_mid {entry : MemoryEntry} (hleaves : c.LeavesRows hex ns keys)
    (hnew : newKey hex ns ∉ keys) (hkey : rowKey entry ∈ keys) (hdone : done ⊆ keys)
    (hentry : c.reads s₀ (rowKey entry) = .ok (some entry)) (now : Datetime) :
    Triple (Mid s₀ hex ns keys closeAt row (Archived (consolidatedId hex) closeAt) done)
      (call c.setting (c.updateEntry (rowKey entry)
        (closeFields (consolidatedId hex) closeAt now entry) now))
      (fun updated s =>
        Mid s₀ hex ns keys closeAt row (Archived (consolidatedId hex) closeAt) [] s ∧
        (updated = true → Mid s₀ hex ns keys closeAt row (Archived (consolidatedId hex) closeAt)
          (done ++ [rowKey entry]) s))
      (Mid s₀ hex ns keys closeAt row (Archived (consolidatedId hex) closeAt) []) := by
  have hop : ∀ s, Mid s₀ hex ns keys closeAt row (Archived (consolidatedId hex) closeAt) done s →
      let r := (c.updateEntry (rowKey entry) (closeFields (consolidatedId hex) closeAt now entry)
        now).run s
      (r.2 = s ∧ r.1 ≠ .ok true) ∨
        Mid s₀ hex ns keys closeAt row (Archived (consolidatedId hex) closeAt)
          (done ++ [rowKey entry]) r.2 := by
    intro s hs r
    rcases (hs.stands _ hkey).updateEntry (c := c)
        (closeFields (consolidatedId hex) closeAt now entry) now fun row₀ row existing hfind₀
          hstands hback => archived_of_close (consolidatedId_ne hex) hstands
            (snapshot_of_reads hentry hfind₀) hback with
      ⟨hsame, hnot, -⟩ | hself
    · exact .inl ⟨hsame, hnot⟩
    · exact .inr (hs.write hnew hkey (fun k' hk' => find_updateEntry _ now hk') hself
        fun _ _ => .archived)
  refine Triple.call (hleaves.mid hdone) (fun s hs => ?_) (fun s hs => hs.nothing _)
    fun _ s hs => ?_
  · have hend := hop s hs
    rcases hrun : (c.updateEntry (rowKey entry) (closeFields (consolidatedId hex) closeAt now entry)
      now).run s with ⟨result, t⟩
    rw [hrun] at hend
    rcases hend with ⟨hsame, hnot⟩ | hmid
    · obtain rfl : t = s := hsame
      cases result with
      | error e => exact hs.nothing _
      | ok updated => exact ⟨hs.nothing _, fun htrue => absurd (by rw [htrue]) hnot⟩
    · cases result with
      | error e => exact hmid.nothing _
      | ok updated => exact ⟨hmid.nothing _, fun _ => hmid⟩
  · rcases hop s hs with ⟨hsame, -⟩ | hmid
    · rw [hsame]
      exact hs.nothing _
    · exact hmid.nothing _

/-- `_archive_originals`: it archives every row, or raises and leaves rows that stand. -/
theorem archiveOriginals_mid {current : List MemoryEntry} (hleaves : c.LeavesRows hex ns keys)
    (hnew : newKey hex ns ∉ keys) (hkeys : current.map rowKey ⊆ keys)
    (hcurrent : ∀ e ∈ current, c.reads s₀ (rowKey e) = .ok (some e)) :
    Triple (Mid s₀ hex ns keys closeAt row (Archived (consolidatedId hex) closeAt) [])
      (c.archiveOriginals current (consolidatedId hex) closeAt)
      (fun _ => Mid s₀ hex ns keys closeAt row (Archived (consolidatedId hex) closeAt)
        (current.map rowKey))
      (Mid s₀ hex ns keys closeAt row (Archived (consolidatedId hex) closeAt) []) := by
  refine Triple.transaction (hleaves.mid (List.nil_subset _)) ?_ (fun _ hs => hs)
    fun _ _ _ hs => hs.nothing _
  refine Triple.each (fun done => Mid s₀ hex ns keys closeAt row
    (Archived (consolidatedId hex) closeAt) (done.map rowKey)) ?_
  intro done entry rest hitems
  have hmem : entry ∈ current := hitems ▸ List.mem_append_right done List.mem_cons_self
  have hdone : done.map rowKey ⊆ keys := fun k hk => hkeys <| by
    rw [hitems, List.map_append]
    exact List.mem_append_left _ hk
  refine Triple.bind (Q := fun _ => Mid s₀ hex ns keys closeAt row
    (Archived (consolidatedId hex) closeAt) (done.map rowKey)) (Triple.reading fun _ _ hs => hs)
      fun now => ?_
  refine Triple.bind (archive_mid hleaves hnew (hkeys (List.mem_map_of_mem hmem)) hdone
    (hcurrent entry hmem) now) fun updated => Triple.ite (fun htrue => ?_) fun _ => ?_
  · refine Triple.pure fun s hs => ?_
    rw [List.map_append]
    exact hs.2 htrue
  · exact Triple.fail fun s hs => hs.1

/-- What a read of a row finds between the creation and the end. -/
theorem Mid.reads {entry : MemoryEntry} (h : Mid s₀ hex ns keys closeAt row F done s)
    (hkey : rowKey entry ∈ keys) (hentry : c.reads s₀ (rowKey entry) = .ok (some entry)) :
    ∃ current, c.reads s (rowKey entry) = .ok (some current) ∧
      At (fun row₀ row => Standing (consolidatedId hex) closeAt row₀ row ∧
        current = servedView (readBack row)) s₀ s (rowKey entry) := by
  obtain ⟨row₀, row, hfind₀, hfind, hstands⟩ := h.stands _ hkey
  refine ⟨servedView (readBack row), ?_, row₀, row, hfind₀, hfind, hstands, rfl⟩
  rw [Consolidator.reads, hfind₀] at hentry
  rw [Consolidator.reads, hfind]
  exact hstands.served hentry

theorem textOrNone_current {row : MemoryEntry} :
    (servedView (readBack row)).consolidatedInto = textOrNone row.consolidatedInto := by
  obtain ⟨confidence, metadata, hserved⟩ := servedView_fields (readBack row)
  rw [hserved]
  rfl

/-- A row that reads as archived into the entry is archived, and the others are not. -/
theorem Standing.sameRead_of_ne {id : String} {row₀ row : MemoryEntry}
    (h : Standing id closeAt row₀ row) (hid : id ≠ "")
    (hne : (servedView (readBack row)).consolidatedInto ≠ some id) : SameRead row₀ row := by
  cases h with
  | kept same => exact same
  | archived h =>
      rw [textOrNone_current, h.into, textOrNone_ne hid] at hne
      exact absurd rfl hne

theorem Standing.archived_of_eq {id : String} {row₀ row : MemoryEntry}
    (h : Standing id closeAt row₀ row)
    (hinto : (servedView (readBack row₀)).consolidatedInto ≠ some id)
    (heq : (servedView (readBack row)).consolidatedInto = some id) :
    Archived id closeAt row₀ row := by
  cases h with
  | archived h => exact h
  | kept same =>
      have htexts := congrArg MemoryEntry.consolidatedInto same.view
      change textOrNone row.consolidatedInto = textOrNone row₀.consolidatedInto at htexts
      rw [textOrNone_current] at heq hinto
      exact absurd (htexts ▸ heq) hinto

/-- The update that undoes an archival. -/
theorem undo_mid {entry current : MemoryEntry} (hleaves : c.LeavesRows hex ns keys)
    (hnew : newKey hex ns ∉ keys) (hkey : rowKey entry ∈ keys) (hdone : done ⊆ keys)
    (hentry : c.reads s₀ (rowKey entry) = .ok (some entry))
    (hinto : entry.consolidatedInto ≠ some (consolidatedId hex))
    (hcurrent : current.consolidatedInto = some (consolidatedId hex)) (now : Datetime) :
    Triple (fun s => Mid s₀ hex ns keys closeAt row SameRead done s ∧
        c.reads s (rowKey entry) = .ok (some current))
      (call c.setting (c.updateEntry (rowKey entry)
        (undoFields (consolidatedId hex) entry current) now))
      (fun _ => Mid s₀ hex ns keys closeAt row SameRead (done ++ [rowKey entry]))
      (Mid s₀ hex ns keys closeAt row SameRead []) := by
  have hop : ∀ s, Mid s₀ hex ns keys closeAt row SameRead done s →
      c.reads s (rowKey entry) = .ok (some current) →
      let r := (c.updateEntry (rowKey entry) (undoFields (consolidatedId hex) entry current)
        now).run s
      (r.2 = s ∧ ∀ updated, r.1 ≠ .ok updated) ∨
        Mid s₀ hex ns keys closeAt row SameRead (done ++ [rowKey entry]) r.2 := by
    intro s hs hread r
    obtain ⟨found, hfound, hat⟩ := hs.reads (c := c) hkey hentry
    rw [hread] at hfound
    obtain rfl := Option.some.inj (Except.ok.inj hfound)
    rcases hat.updateEntry (c := c) (F := SameRead)
        (undoFields (consolidatedId hex) entry current) now fun row₀ row existing hfind₀
          hrow hback => ⟨kept_of_undo (consolidatedId_ne hex)
            (hrow.1.archived_of_eq (snapshot_of_reads hentry hfind₀ ▸ hinto) (hrow.2 ▸ hcurrent))
            (snapshot_of_reads hentry hfind₀) hrow.2,
            (rowToEntry_shifts hback).trans (shifts_of_reads hentry hfind₀).symm⟩ with
      ⟨hsame, hnot, habsent⟩ | hself
    · refine .inl ⟨hsame, fun updated hupdated => ?_⟩
      cases updated with
      | true => exact hnot hupdated
      | false =>
          rw [habsent hupdated] at hread
          cases hread
    · exact .inr (hs.write hnew hkey (fun k' hk' => find_updateEntry _ now hk') hself
        fun _ _ => .kept)
  have hstable : c.setting.Stable fun s => Mid s₀ hex ns keys closeAt row SameRead done s ∧
      c.reads s (rowKey entry) = .ok (some current) := by
    refine (hleaves.mid hdone).and fun n s hs => ?_
    rw [Consolidator.reads, hleaves n s _ (.inr hkey)]
    exact hs
  refine Triple.call hstable (fun s hs => ?_) (fun s hs => hs.1.nothing _) fun _ s hs => ?_
  · have hend := hop s hs.1 hs.2
    rcases hrun : (c.updateEntry (rowKey entry) (undoFields (consolidatedId hex) entry current)
      now).run s with ⟨result, t⟩
    rw [hrun] at hend
    rcases hend with ⟨hsame, hnot⟩ | hmid
    · obtain rfl : t = s := hsame
      cases result with
      | error e => exact hs.1.nothing _
      | ok updated => exact absurd rfl (hnot updated)
    · cases result with
      | error e => exact hmid.nothing _
      | ok updated => exact hmid
  · rcases hop s hs.1 hs.2 with ⟨hsame, -⟩ | hmid
    · rw [hsame]
      exact hs.1.nothing _
    · exact hmid.nothing _

/-- One turn of the undoing. -/
theorem restore_mid {entry : MemoryEntry} (hleaves : c.LeavesRows hex ns keys)
    (hnew : newKey hex ns ∉ keys) (hkey : rowKey entry ∈ keys) (hdone : done ⊆ keys)
    (hentry : c.reads s₀ (rowKey entry) = .ok (some entry))
    (hinto : entry.consolidatedInto ≠ some (consolidatedId hex)) :
    Triple (Mid s₀ hex ns keys closeAt row SameRead done)
      (c.restoreOriginal (consolidatedId hex) entry)
      (fun _ => Mid s₀ hex ns keys closeAt row SameRead (done ++ [rowKey entry]))
      (Mid s₀ hex ns keys closeAt row SameRead []) := by
  refine Triple.bind (Q := fun found s => Mid s₀ hex ns keys closeAt row SameRead done s ∧
    c.reads s (rowKey entry) = .ok found) ?_ fun found => ?_
  · refine Triple.call (hleaves.mid hdone) (fun s hs => ?_) (fun s hs => hs.nothing _)
      fun _ s hs => hs.nothing _
    unfold Program.run getEntry
    cases hread : c.reads s (rowKey entry) with
    | error error => exact hs.nothing _
    | ok found => exact ⟨hs, hread⟩
  · cases found with
    | none =>
        refine Triple.pure fun s hs => ?_
        obtain ⟨current, hread, -⟩ := hs.1.reads (c := c) hkey hentry
        rw [hs.2] at hread
        cases hread
    | some current =>
        refine Triple.ite (fun hnames => ?_) fun hnames => Triple.pure fun s hs => ?_
        · have hcurrent : current.consolidatedInto = some (consolidatedId hex) := by
            rw [Patch.names, undoFields_consolidatedInto] at hnames
            split at hnames
            · assumption
            · cases hnames
          refine Triple.bind (Q := fun _ s => Mid s₀ hex ns keys closeAt row SameRead done s ∧
            c.reads s (rowKey entry) = .ok (some current)) (Triple.reading fun _ _ hs => hs)
              fun now => ?_
          exact Triple.bind (undo_mid hleaves hnew hkey hdone hentry hinto hcurrent now) fun _ =>
            Triple.pure fun _ hs => hs
        · obtain ⟨found, hread, row₀, row, hfind₀, hfind, hstands, hfound⟩ :=
            hs.1.reads (c := c) hkey hentry
          rw [hs.2] at hread
          obtain rfl := Option.some.inj (Except.ok.inj hread)
          have hne : current.consolidatedInto ≠ some (consolidatedId hex) := fun heq => by
            rw [Patch.names, undoFields_consolidatedInto, if_pos heq] at hnames
            exact hnames rfl
          refine ⟨hs.1.stands, hs.1.created, fun k hk => ?_⟩
          rcases List.mem_append.mp hk with hold | hlast
          · exact hs.1.did k hold
          · rw [List.mem_singleton.mp hlast]
            exact ⟨row₀, row, hfind₀, hfind,
              hstands.sameRead_of_ne (consolidatedId_ne hex) (hfound ▸ hne)⟩

/-- `_restore_originals`. -/
theorem restoreOriginals_mid {current : List MemoryEntry} (hleaves : c.LeavesRows hex ns keys)
    (hnew : newKey hex ns ∉ keys) (hkeys : current.map rowKey ⊆ keys)
    (hcurrent : ∀ e ∈ current, c.reads s₀ (rowKey e) = .ok (some e))
    (hinto : ∀ e ∈ current, e.consolidatedInto ≠ some (consolidatedId hex)) :
    Triple (Mid s₀ hex ns keys closeAt row SameRead [])
      (c.restoreOriginals current (consolidatedId hex))
      (fun _ => Mid s₀ hex ns keys closeAt row SameRead (current.map rowKey))
      (Mid s₀ hex ns keys closeAt row SameRead []) := by
  refine Triple.transaction (hleaves.mid (List.nil_subset _)) ?_ (fun _ hs => hs)
    fun _ _ _ hs => hs.nothing _
  refine Triple.each (fun done => Mid s₀ hex ns keys closeAt row SameRead (done.map rowKey)) ?_
  intro done entry rest hitems
  have hmem : entry ∈ current := hitems ▸ List.mem_append_right done List.mem_cons_self
  have hdone : done.map rowKey ⊆ keys := fun k hk => hkeys <| by
    rw [hitems, List.map_append]
    exact List.mem_append_left _ hk
  rw [List.map_append]
  exact restore_mid hleaves hnew (hkeys (List.mem_map_of_mem hmem)) hdone (hcurrent entry hmem)
    (hinto entry hmem)

end Mid

variable {hex ns : String} {cluster : List MemoryEntry} {chosen : Summary}
  {vector : Option (List Rat)} {w : World EntryStore} {s₀ s : EntryStore} {k : RowKey}

variable (c) in
/-- The row of `k` reads as before, but for its sync bookkeeping. -/
def Same (s₀ s : EntryStore) (k : RowKey) : Prop :=
  (c.reads s k).map (Option.map unsynced) = (c.reads s₀ k).map (Option.map unsynced)

variable (c) in
/-- The row of `k` reads as archived. -/
def ArchivedAs (id : String) (closeAt : Datetime) (s₀ s : EntryStore) (k : RowKey) : Prop :=
  ∃ e₀ e updatedAt, c.reads s₀ k = .ok (some e₀) ∧ c.reads s k = .ok (some e) ∧
    unsynced e = unsynced (archivedView id closeAt updatedAt e₀)

theorem At.same (h : At SameRead s₀ s k) : c.Same s₀ s k := by
  obtain ⟨row₀, row, hfind₀, hfind, hsame⟩ := h
  rw [Same, reads, reads, hfind₀, hfind]
  exact readRow_congr hsame.view hsame.shift

theorem Archived.read {id : String} {closeAt : Datetime} {row₀ row : MemoryEntry} (hid : id ≠ "")
    (h : Archived id closeAt row₀ row) :
    unsynced (servedView (readBack row)) = unsynced (archivedView id closeAt.parseDt
      row.updatedAt.parseDt (servedView (readBack row₀))) := by
  have hwindow := h.window
  have hopen : (readBack row₀).invalidFrom.isNone = row₀.invalidFrom.isNone := Option.isNone_map
  have hread : unsynced (readBack row) = unsynced (archivedView id closeAt.parseDt
      row.updatedAt.parseDt (readBack row₀)) := by
    have hfrom := congrArg Prod.fst hwindow
    have hby := congrArg Prod.snd hwindow
    rw [unsynced_readBack, h.beyond, h.into, h.status, textOrNone_ne hid]
    dsimp only at hfrom hby
    rw [hfrom, hby, archivedView, hopen]
    cases row₀.invalidFrom.isNone <;> rfl
  rw [← servedView_unsynced, hread, servedView_unsynced, servedView_archivedView]

theorem At.archivedAs {id : String} {closeAt : Datetime} {e₀ : MemoryEntry} (hid : id ≠ "")
    (hread : c.reads s₀ k = .ok (some e₀)) (h : At (Archived id closeAt) s₀ s k) :
    c.ArchivedAs id closeAt.parseDt s₀ s k := by
  obtain ⟨row₀, row, hfind₀, hfind, harchived⟩ := h
  refine ⟨e₀, servedView (readBack row), row.updatedAt.parseDt, hread, ?_, ?_⟩
  · rw [reads, hfind₀] at hread
    rw [reads, hfind]
    exact (Standing.archived harchived).served hread
  · rw [harchived.read hid, snapshot_of_reads hread hfind₀]

/-- What a step that ends with an outcome has made of the rows. -/
def Settled [DecidableEq τ] (c : Consolidator τ) (hex ns : String) (cluster : List MemoryEntry)
    (vector : Option (List Rat)) (s₀ : EntryStore) : ClusterOutcome → EntryStore → Prop
  | .skipped, s => ∀ k, k = newKey hex ns ∨ k ∈ cluster.map rowKey →
      s.table.find k = s₀.table.find k
  | .written, s => ∃ new, IsNew hex ns cluster new ∧
      s.table.find (newKey hex ns) = some (stampSync c.digest new) ∧
      ∀ e ∈ cluster, c.ArchivedAs (consolidatedId hex) new.validFrom.parseDt s₀ s (rowKey e) ∧
        ∃ now, c.reads s₀ (rowKey e) = .ok (some now) ∧
          revisionOf c.token now = revisionOf c.token e
  | .failed _ _, s => (∀ e ∈ cluster, c.Same s₀ s (rowKey e)) ∧
      (¬ c.Loose vector → s.table.find (newKey hex ns) = none)

/-- Every row stands, whatever the new entry's window is. -/
def Stands (hex : String) (keys : List RowKey) (s₀ s : EntryStore) : Prop :=
  ∃ closeAt, ∀ k ∈ keys, At (Standing (consolidatedId hex) closeAt) s₀ s k

/-- The archival, or its undoing. -/
theorem archiveOrUndo_mid {current members : List MemoryEntry} {new : MemoryEntry}
    {ids : List String} (hleaves : c.LeavesRows hex ns (current.map rowKey))
    (hnew : newKey hex ns ∉ current.map rowKey) (hisNew : IsNew hex ns members new)
    (hcurrent : ∀ e ∈ current, c.reads s₀ (rowKey e) = .ok (some e))
    (hinto : ∀ e ∈ current, e.consolidatedInto ≠ some (consolidatedId hex)) :
    Triple (Mid s₀ hex ns (current.map rowKey) new.validFrom (stampSync c.digest new)
        (Archived (consolidatedId hex) new.validFrom) [])
      (c.archiveOrUndo ids current new)
      (fun outcome s => (outcome = .written ∧ Mid s₀ hex ns (current.map rowKey) new.validFrom
          (stampSync c.digest new) (Archived (consolidatedId hex) new.validFrom)
          (current.map rowKey) s) ∨
        ∃ ids error, outcome = .failed ids error ∧ (∀ k ∈ current.map rowKey, At SameRead s₀ s k) ∧
          s.table.find (newKey hex ns) = none)
      (Stands hex (current.map rowKey) s₀) := by
  have hid : new.id = consolidatedId hex := congrArg RowKey.id hisNew.key
  unfold archiveOrUndo
  rw [hid]
  refine Triple.bind (Triple.attempt (S := fun result s =>
    match result with
    | .ok _ => Mid s₀ hex ns (current.map rowKey) new.validFrom (stampSync c.digest new)
        (Archived (consolidatedId hex) new.validFrom) (current.map rowKey) s
    | .error _ => Mid s₀ hex ns (current.map rowKey) new.validFrom (stampSync c.digest new)
        SameRead [] s)
    (archiveOriginals_mid hleaves hnew (List.Subset.refl _) hcurrent)
    fun _ _ hs => hs.nothing _) fun result => ?_
  cases result with
  | ok u => exact Triple.pure fun s hs => .inl ⟨rfl, hs⟩
  | error error =>
      refine Triple.bind (Q := fun _ s => (∀ k ∈ current.map rowKey, At SameRead s₀ s k) ∧
        s.table.find (newKey hex ns) = none) ?_
          fun _ => Triple.pure fun s hs => .inr ⟨_, _, rfl, hs⟩
      unfold rollbackConsolidation
      rw [hid, hisNew.key]
      refine Triple.bind ((restoreOriginals_mid hleaves hnew (List.Subset.refl _) hcurrent
        hinto).mono (fun _ hs => hs) (fun _ _ hs => hs) fun s hs => ⟨_, hs.stands⟩) fun _ => ?_
      have hdelete : ∀ s, Mid s₀ hex ns (current.map rowKey) new.validFrom (stampSync c.digest new)
          SameRead (current.map rowKey) s → (∀ k ∈ current.map rowKey,
            At SameRead s₀ (s.delete (newKey hex ns)) k) ∧
          (s.delete (newKey hex ns)).table.find (newKey hex ns) = none := by
        refine fun s hs => ⟨fun k hk => (hs.did k hk).of_find ?_, ?_⟩
        · have hne : k ≠ newKey hex ns := by
            rintro rfl
            exact hnew hk
          rw [EntryStore.find_delete, beq_false_of_ne hne]
          rfl
        · rw [EntryStore.find_delete, beq_self_eq_true]
          rfl
      refine Triple.bind (Q := fun _ s => (∀ k ∈ current.map rowKey, At SameRead s₀ s k) ∧
        s.table.find (newKey hex ns) = none) (Triple.call (hleaves.mid (List.Subset.refl _))
          (fun s hs => hdelete s hs) (fun s hs => ⟨_, hs.stands⟩) fun _ s hs =>
            ⟨new.validFrom, fun k hk => ((hdelete s hs).1 k hk).mono fun _ _ => .kept⟩)
        fun deleted => ?_
      exact Triple.ite (fun _ => Triple.pure fun _ hs => hs) fun _ => Triple.fail fun _ hs =>
        ⟨new.validFrom, fun k hk => (hs.1 k hk).mono fun _ _ => .kept⟩

/-- A step that finds its rows unchanged has read them all. -/
theorem Current.keys [DecidableEq τ] {current : List MemoryEntry}
    (h : Current c (fun e now => c.reads s₀ (rowKey e) = .ok (some now)) cluster current) :
    current.map rowKey = cluster.map rowKey := by
  induction h with
  | nil => rfl
  | cons hhead _ ih => rw [List.map_cons, List.map_cons, ih, rowKey_reads hhead.1]

/-- Each snapshot is what is read of its own key, and is not archived into the entry. -/
theorem Current.snapshots [DecidableEq τ] {current : List MemoryEntry}
    (h : Current c (fun e now => c.reads s₀ (rowKey e) = .ok (some now)) cluster current)
    (hclear : ∀ e ∈ cluster, ¬ c.Into (consolidatedId hex) s₀ (rowKey e)) :
    (∀ e ∈ current, c.reads s₀ (rowKey e) = .ok (some e)) ∧
      ∀ e ∈ current, e.consolidatedInto ≠ some (consolidatedId hex) := by
  constructor
  · intro now hnow
    obtain ⟨e, he, hread⟩ := h.mem hnow
    rwa [rowKey_reads hread]
  · intro now hnow heq
    obtain ⟨e, he, hread⟩ := h.mem hnow
    exact hclear e he ⟨now, hread, heq⟩

theorem Stands.cases {e : MemoryEntry} {keys : List RowKey} (h : Stands hex keys s₀ s)
    (hkey : rowKey e ∈ keys) {e₀ : MemoryEntry} (hread : c.reads s₀ (rowKey e) = .ok (some e₀)) :
    c.Same s₀ s (rowKey e) ∨
      ∃ closeAt, c.ArchivedAs (consolidatedId hex) closeAt s₀ s (rowKey e) := by
  obtain ⟨closeAt, hstands⟩ := h
  obtain ⟨row₀, row, hfind₀, hfind, hrow⟩ := hstands _ hkey
  cases hrow with
  | kept same => exact .inl (At.same ⟨row₀, row, hfind₀, hfind, same⟩)
  | archived harchived =>
      exact .inr ⟨_, At.archivedAs (consolidatedId_ne hex) hread
        ⟨row₀, row, hfind₀, hfind, harchived⟩⟩

/-- Where nobody else writes the rows of a cluster and the new one, and nothing was archived into
it before: the outcome says what has become of each row; and a step that raises leaves each row as
it read, or as archived. -/
theorem writeCluster_settles [DecidableEq τ]
    (hleaves : c.LeavesRows hex ns (cluster.map rowKey))
    (hnone : w.store.table.find (newKey hex ns) = none)
    (hclear : ∀ e ∈ cluster, ¬ c.Into (consolidatedId hex) w.store (rowKey e)) :
    match (c.writeCluster hex ns cluster chosen vector).run w with
    | (.ok outcome, t) => c.Settled hex ns cluster vector w.store outcome t.store
    | (.error _, t) => ∀ e ∈ cluster, c.Same w.store t.store (rowKey e) ∨
        ∃ closeAt, c.ArchivedAs (consolidatedId hex) closeAt w.store t.store (rowKey e) := by
  have hsame : c.setting.Stable fun s => ∀ k, k = newKey hex ns ∨ k ∈ cluster.map rowKey →
      s.table.find k = w.store.table.find k :=
    fun n s hs k hk => (hleaves n s k hk).trans (hs k hk)
  have hkeyMem : ∀ e ∈ cluster, rowKey e ∈ cluster.map rowKey := fun e he =>
    List.mem_map_of_mem he
  have hunread : ∀ s, (∀ k, k = newKey hex ns ∨ k ∈ cluster.map rowKey →
      s.table.find k = w.store.table.find k) → ∀ e ∈ cluster, c.Same w.store s (rowKey e) :=
    fun s hs e he => by rw [Same, reads, hs _ (.inr (hkeyMem e he))]; rfl
  have htriple : Triple (fun s => ∀ k, k = newKey hex ns ∨ k ∈ cluster.map rowKey →
        s.table.find k = w.store.table.find k)
      (c.writeCluster hex ns cluster chosen vector)
      (c.Settled hex ns cluster vector w.store)
      (fun s => ∀ e ∈ cluster, c.Same w.store s (rowKey e) ∨
        ∃ closeAt, c.ArchivedAs (consolidatedId hex) closeAt w.store s (rowKey e)) := by
    refine writeCluster_triple
      (fun e now => c.reads w.store (rowKey e) = .ok (some now))
      (fun s => (∀ k ∈ cluster.map rowKey, s.table.find k = w.store.table.find k) ∧
        (¬ c.Loose vector → s.table.find (newKey hex ns) = none))
      (fun current new s => IsNew hex ns current new ∧
        (∀ k ∈ cluster.map rowKey, s.table.find k = w.store.table.find k) ∧
          s.table.find (newKey hex ns) = some (stampSync c.digest new))
      hsame ?_ (fun _ hs => hs) (fun s hs e he => .inl (hunread s hs e he)) ?_ ?_ ?_
    · intro s hs e he now hread
      rwa [reads, ← hs _ (.inr (hkeyMem e he))]
    · intro current hcurrent
      have hnew : newKey hex ns ∉ cluster.map rowKey := by
        intro hmem
        obtain ⟨e, he, hkey⟩ := List.mem_map.mp hmem
        obtain ⟨now, -, hread, -⟩ := hcurrent.covers he
        rw [hkey, reads, hnone] at hread
        cases hread
      refine (createConsolidatedEntry_triple hsame ?_ ?_ (fun s hs => ⟨fun k hk => hs k (.inr hk),
        fun _ => (hs _ (.inl rfl)).trans hnone⟩) fun hloose new s hs =>
          ⟨hs.1, fun hnot => absurd hloose hnot⟩)
      · exact fun new hisNew n s hs => ⟨fun k hk => (hleaves n s k (.inr hk)).trans (hs.1 k hk),
          (hleaves n s _ (.inl rfl)).trans hs.2⟩
      · intro new hisNew s hs
        have hkey : rowKey (stampSync c.digest new) = newKey hex ns := hisNew.key
        refine ⟨fun k hk => ?_, ?_⟩
        · have hne : k ≠ newKey hex ns := by
            rintro rfl
            exact hnew hk
          rw [EntryStore.find_insert, hkey, if_neg hne]
          exact hs k (.inr hk)
        · rw [EntryStore.find_insert, hkey, if_pos rfl]
    · intro ids error s hs
      exact ⟨fun e he => by rw [Same, reads, hs.1 _ (hkeyMem e he)]; rfl, hs.2⟩
    · intro current new ids hcurrent w' hw'
      have hkeys := hcurrent.keys
      obtain ⟨hread, hinto⟩ := hcurrent.snapshots hclear
      have hmid : Mid w.store hex ns (current.map rowKey) new.validFrom (stampSync c.digest new)
          (Archived (consolidatedId hex) new.validFrom) [] w'.store := by
        refine ⟨fun k hk => ?_, hw'.2.2, by simp⟩
        obtain ⟨e, he, rfl⟩ := List.mem_map.mp hk
        obtain ⟨row, existing, hfind, -⟩ := readRow_some (hread e he)
        exact ⟨row, row, hfind, (hw'.2.1 _ (hkeys ▸ hk)).trans hfind, .kept ⟨rfl, rfl⟩⟩
      have hnew : newKey hex ns ∉ current.map rowKey := by
        intro hmem
        obtain ⟨e, he, hkey⟩ := List.mem_map.mp hmem
        have hnow := hread e he
        rw [hkey, reads, hnone] at hnow
        cases hnow
      refine ((archiveOrUndo_mid (hkeys ▸ hleaves) hnew hw'.1 hread hinto).mono (fun _ hs => hs)
        (fun outcome s hs => ?_) fun s hs e he => ?_) w' hmid
      · rcases hs with ⟨rfl, hs⟩ | ⟨ids, error, rfl, hs⟩
        · refine ⟨new, ⟨hw'.1.key, hw'.1.into, ?_⟩, hs.created, fun e he => ?_⟩
          · have hids := congrArg (List.map RowKey.id) hkeys
            rw [List.map_map, List.map_map] at hids
            exact hw'.1.members.trans hids
          · obtain ⟨now, -, hnow, hrevision⟩ := hcurrent.covers he
            exact ⟨(hs.did _ (hkeys ▸ hkeyMem e he)).archivedAs (consolidatedId_ne hex) hnow,
              now, hnow, hrevision⟩
        · exact ⟨fun e he => (hs.1 _ (hkeys ▸ hkeyMem e he)).same, fun _ => hs.2⟩
      · obtain ⟨now, -, hnow, -⟩ := hcurrent.covers he
        exact hs.cases (hkeys ▸ hkeyMem e he) hnow
  have hrun := htriple w fun _ _ => rfl
  rcases hjob : (c.writeCluster hex ns cluster chosen vector).run w with ⟨result, t⟩
  rw [hjob] at hrun
  cases result with
  | ok outcome => exact hrun
  | error error => exact hrun

theorem writeCluster_settles_notes :
    reportsFailure (mergeNotes (fun _ s => s) secondFails).1 = true ∧
      (∀ e ∈ [firstNote, secondNote], (plainConsolidator (fun _ s => s) secondFails).Same
        notes.store (mergeNotes (fun _ s => s) secondFails).2.store (rowKey e)) ∧
      (mergeNotes (fun _ s => s) secondFails).2.store.table.find (newKey "1" "ns") = none := by
  have hreport : reportsFailure (mergeNotes (fun _ s => s) secondFails).1 = true := by
    decide +kernel
  have hsettles := @writeCluster_settles _ (plainConsolidator (fun _ s => s) secondFails) "1" "ns"
    [firstNote, secondNote] ⟨"one", ""⟩ none notes _ (fun _ _ _ _ => rfl) (by decide +kernel)
    fun e _ => clear_of_rows (by decide +kernel) (rowKey e)
  refine ⟨hreport, ?_⟩
  change match mergeNotes (fun _ s => s) secondFails with
    | (.ok outcome, t) => _
    | (.error _, t) => _ at hsettles
  rcases hrun : mergeNotes (fun _ s => s) secondFails with ⟨result, t⟩
  rw [hrun] at hsettles hreport
  cases result with
  | error error => cases hreport
  | ok outcome =>
      cases outcome with
      | written | skipped => cases hreport
      | failed ids error =>
          refine ⟨hsettles.1, hsettles.2 ?_⟩
          rintro (⟨n, hlate⟩ | ⟨hvector, -⟩ | ⟨entry, hraised⟩)
          · change secondFails n = some .after at hlate
            unfold secondFails at hlate
            split at hlate <;> cases hlate
          · cases hvector
          · cases hraised

end TrwMemory.Lifecycle.Consolidator

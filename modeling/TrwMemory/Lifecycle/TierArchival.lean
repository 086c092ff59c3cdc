import TrwMemory.Lifecycle.TierMoves

/-!
`cold_archive_entry` conserves the entry exactly under `ArchiveConserves`. Without the writes
of the warm tier an archival is the writing of its file, that and the removal of the file, or
that and the deletion of the row.
-/
namespace TrwMemory.Lifecycle

open Library.Keyed Storage Sync

theorem warmCleanup_placed (f : WarmFaults) (warm : WarmRow) :
    (warmCleanup f warm).2.filter TierWrite.placed = [] := by
  unfold warmCleanup
  split
  · rfl
  · cases f.purge <;> rfl
  · cases f.purge <;> rfl
  · rfl

/-- What the cleanup ends with. -/
theorem warmCleanup_result (f : WarmFaults) (warm : WarmRow) :
    if f.passesOn then ∃ raised, (warmCleanup f warm).1 = .error raised
    else (warmCleanup f warm).1 = .ok (f.confirmed warm) := by
  obtain ⟨remove, vectorStays, purge⟩ := f
  cases remove with
  | none => cases vectorStays <;> rfl
  | some raised =>
      cases raised with
      | os | value =>
          cases purge with
          | none => rfl
          | some raised => exact ⟨raised, rfl⟩
      | storage | runtime | other => exact ⟨_, rfl⟩

section Archival

variable {config : TierConfig} {s : TierState} {e : MemoryEntry}

/-- The state after the file is written. -/
def filed (s : TierState) (e : MemoryEntry) : TierState :=
  { s with archive := s.archive.put (archivePath e) ⟨e, s.warm.vector⟩ }

/-- The write of the file. -/
def fileWrite (s : TierState) (e : MemoryEntry) : TierWrite :=
  .writeArchive (archivePath e) ⟨e, s.warm.vector⟩

theorem find_filed (path : String) :
    (filed s e).archive.find path =
      if path = archivePath e then some ⟨e, s.warm.vector⟩ else s.archive.find path :=
  Table.find_put _ _ _ _

theorem conserved_nothing (k : RowKey) : Conserved config k s [] true where
  newest t ht := by
    rw [moments, List.mem_singleton] at ht
    rw [ht]
    exact (SamePlaces.refl s).newest
  unchanged _ := SamePlaces.refl s
  single h := by cases h

theorem filed_same (k : RowKey) : SamePlaces k s (filed s e) ↔ Same s e := by
  constructor
  · intro h
    have hpath := h.archive (archivePath e)
    rw [find_filed, if_pos rfl] at hpath
    exact hpath.symm
  · intro h
    refine ⟨rfl, fun path => ?_⟩
    rw [find_filed]
    split
    · rename_i hpath
      rw [hpath, h]
    · rfl

/-- An archival that fails with its file in place. -/
theorem conserved_filed :
    Conserved config (rowKey e) s [fileWrite s e] true ↔ Same s e := by
  constructor
  · intro h
    exact (filed_same _).mp (h.unchanged rfl)
  · intro h
    have hsame := (filed_same (rowKey e)).mpr h
    refine ⟨?_, fun _ => hsame, fun hf => (by cases hf)⟩
    intro t ht
    rcases List.mem_cons.mp ht with rfl | ht
    · exact (SamePlaces.refl t).newest
    · rw [List.mem_singleton.mp ht]
      exact hsame.newest

/-- An archival that fails and removes its file. -/
theorem conserved_unfiled :
    Conserved config (rowKey e) s [fileWrite s e, .unlinkArchive (archivePath e)] true ↔
      Free s e := by
  have hfind : ∀ path,
      (finish config s [fileWrite s e, .unlinkArchive (archivePath e)]).archive.find path =
        if path = archivePath e then none else s.archive.find path := by
    intro path
    change ((filed s e).archive.discard (· == archivePath e)).find path = _
    rw [Table.find_discard, find_filed]
    by_cases hpath : path = archivePath e
    · rw [if_pos (beq_iff_eq.mpr hpath), if_pos hpath]
    · rw [if_neg (mt beq_iff_eq.mp hpath), if_neg hpath, if_neg hpath]
  constructor
  · intro h
    have hpath := (h.unchanged rfl).archive (archivePath e)
    rw [hfind, if_pos rfl] at hpath
    exact hpath.symm
  · intro h
    have hsame : SamePlaces (rowKey e) s
        (finish config s [fileWrite s e, .unlinkArchive (archivePath e)]) := by
      refine ⟨rfl, fun path => ?_⟩
      rw [hfind]
      split
      · rename_i hpath
        rw [hpath, h]
      · rfl
    refine ⟨?_, fun _ => hsame, fun hf => (by cases hf)⟩
    intro t ht
    rcases List.mem_cons.mp ht with rfl | ht
    · exact (SamePlaces.refl t).newest
    rcases List.mem_cons.mp ht with rfl | ht
    · -- nothing was overwritten
      apply newest_of_held
      rintro held (hcanonical | ⟨path, record, hfind', hid, he⟩)
      · exact .inl hcanonical
      · refine .inr ⟨path, record, ?_, hid, he⟩
        change (filed s e).archive.find path = _
        rw [find_filed, if_neg, hfind']
        rintro rfl
        rw [Free, hfind'] at h
        cases h
    · rw [List.mem_singleton.mp ht]
      exact hsame.newest

/-- The state after the file is written and the row is deleted. -/
def archived (s : TierState) (e : MemoryEntry) : TierState :=
  { filed s e with canonical := s.canonical.delete (rowKey e) }

/-- Only files are left, the new one among them. -/
theorem newest_archived {t : TierState} (harchive : t.archive = (filed s e).archive)
    (hrow : t.canonical.table.find (rowKey e) = none) :
    NewestHeld (rowKey e) s t ↔ NotNewer s e := by
  constructor
  · intro h held hheld
    obtain ⟨e', hcanonical | ⟨path, record, hfind, hid, rfl⟩, hle⟩ := h held hheld
    · rw [hrow] at hcanonical
      cases hcanonical
    · rw [harchive, find_filed] at hfind
      split at hfind
      · obtain rfl := Option.some.inj hfind
        exact .inl hle
      · rename_i hpath
        exact .inr ⟨path, record, hpath, hfind, hid, hle⟩
  · intro h held hheld
    rcases h held hheld with hle | ⟨path, record, hpath, hfind, hid, hle⟩
    · refine ⟨e, .inr ⟨archivePath e, ⟨e, s.warm.vector⟩, ?_, rfl, rfl⟩, hle⟩
      rw [harchive, find_filed, if_pos rfl]
    · refine ⟨record.entry, .inr ⟨path, record, ?_, hid, rfl⟩, hle⟩
      rw [harchive, find_filed, if_neg hpath, hfind]

/-- While the row is still there, the file that was overwritten is all that can be lost. -/
theorem newest_filed (h : NotNewer s e) : NewestHeld (rowKey e) s (filed s e) := by
  intro held hheld
  rcases h held hheld with hle | ⟨path, record, hpath, hfind, hid, hle⟩
  · refine ⟨e, .inr ⟨archivePath e, ⟨e, s.warm.vector⟩, ?_, rfl, rfl⟩, hle⟩
    rw [find_filed, if_pos rfl]
  · refine ⟨record.entry, .inr ⟨path, record, ?_, hid, rfl⟩, hle⟩
    rw [find_filed, if_neg hpath, hfind]

theorem archived_filed {t : TierState} (harchive : t.archive = (filed s e).archive) :
    Archived t e.id := by
  refine ⟨archivePath e, ⟨e, s.warm.vector⟩, ?_, rfl⟩
  rw [harchive, find_filed, if_pos rfl]

theorem find_archived : (archived s e).canonical.table.find (rowKey e) = none := by
  change (s.canonical.delete (rowKey e)).table.find (rowKey e) = none
  rw [EntryStore.find_delete, if_pos (beq_iff_eq.mpr rfl)]

/-- An archival that deletes the row. -/
theorem conserved_archived :
    Conserved config (rowKey e) s [fileWrite s e, .deleteCanonical (rowKey e)] false ↔
      NotNewer s e := by
  have hnewest : NewestHeld (rowKey e) s (archived s e) ↔ NotNewer s e :=
    newest_archived rfl find_archived
  constructor
  · intro h
    exact hnewest.mp (h.newest _ (.tail _ (.tail _ (.head _))))
  · intro h
    refine ⟨?_, fun hf => (by cases hf), fun _ => ?_⟩
    · intro t ht
      rcases List.mem_cons.mp ht with rfl | ht
      · exact (SamePlaces.refl t).newest
      rcases List.mem_cons.mp ht with rfl | ht
      · exact newest_filed h
      · rw [List.mem_singleton.mp ht]
        exact hnewest.mpr h
    · change (archived s e).canonical.holdsId (rowKey e) = true ↔ ¬ Archived (archived s e) e.id
      rw [EntryStore.holdsId, find_archived]
      exact ⟨fun hf => (by cases hf), fun hnot => absurd (archived_filed rfl) hnot⟩

/-- An archival that takes the row for deleted. -/
theorem conserved_unverified :
    Conserved config (rowKey e) s [fileWrite s e] false ↔
      s.canonical.holdsId (rowKey e) = false ∧ NotNewer s e := by
  have hone : OnePlace (rowKey e) (filed s e) ↔ s.canonical.holdsId (rowKey e) = false := by
    rw [OnePlace, ← Bool.not_eq_true]
    have hfiled : Archived (filed s e) (rowKey e).id := archived_filed rfl
    exact ⟨fun h hrow => h.mp hrow hfiled, fun h => ⟨fun hrow => absurd hrow h,
      fun hnot => absurd hfiled hnot⟩⟩
  constructor
  · intro h
    have hrow := hone.mp (h.single rfl)
    have hnone : (filed s e).canonical.table.find (rowKey e) = none :=
      Option.isNone_iff_eq_none.mp (Option.isSome_eq_false_iff.mp hrow)
    exact ⟨hrow, (newest_archived rfl hnone).mp (h.newest _ (.tail _ (.head _)))⟩
  · rintro ⟨hrow, h⟩
    refine ⟨?_, fun hf => (by cases hf), fun _ => hone.mpr hrow⟩
    intro t ht
    rcases List.mem_cons.mp ht with rfl | ht
    · exact (SamePlaces.refl t).newest
    · rw [List.mem_singleton.mp ht]
      exact newest_filed h

/-- An archival that deletes the row and fails. -/
theorem not_conserved_deleted (hrow : s.canonical.holdsId (rowKey e) = true) :
    ¬ Conserved config (rowKey e) s [fileWrite s e, .deleteCanonical (rowKey e)] true := by
  intro h
  have hcanonical := (h.unchanged rfl).canonical
  have hnone : (archived s e).canonical.table.find (rowKey e) = none := find_archived
  rw [show finish config s [fileWrite s e, .deleteCanonical (rowKey e)] = archived s e from rfl,
    hnone] at hcanonical
  rw [EntryStore.holdsId, ← hcanonical] at hrow
  cases hrow

theorem placed_fileWrite (writes warm : List TierWrite)
    (hwarm : warm.filter TierWrite.placed = []) :
    (fileWrite s e :: warm ++ writes).filter TierWrite.placed =
      fileWrite s e :: writes.filter TierWrite.placed := by
  rw [List.cons_append, List.filter_cons_of_pos rfl, List.filter_append, hwarm, List.nil_append]

theorem conserved_rollback (f : ArchiveFaults) :
    Conserved config (rowKey e) s (fileWrite s e :: rollbackArchive f s e) true ↔
      if f.undo.isSome then Same s e else Free s e := by
  rw [conserved_placed]
  cases hundo : f.undo with
  | none =>
      rw [rollbackArchive, hundo]
      exact conserved_unfiled
  | some raised =>
      rw [rollbackArchive, hundo]
      cases raised <;> exact conserved_filed

theorem readsAbsent_of_absent {canonical : EntryStore} {k : RowKey}
    (h : canonical.holdsId k = false) : readsAbsent config canonical k = true := by
  rw [readsAbsent, (canonical.get_eq_none).mpr h]

/-- How the deletion of the row and its verification end. -/
theorem removeSource_spec (f : ArchiveFaults) (canonical : EntryStore) (k : RowKey) :
    if f.delete.isNone && canonical.holdsId k then
      if f.verify.all Raised.suppressed then
        removeSource config f canonical k = (.ok true, [.deleteCanonical k])
      else ∃ raised, removeSource config f canonical k = (.error raised, [.deleteCanonical k])
    else if f.delete.any (fun r => !r.suppressed) || f.verify.any (fun r => !r.suppressed) then
      ∃ raised, removeSource config f canonical k = (.error raised, [])
    else removeSource config f canonical k =
      (.ok (f.verify.isNone && readsAbsent config canonical k), []) := by
  obtain ⟨prepare, warm, unlink, delete, verify, undo⟩ := f
  cases delete with
  | none =>
      cases hrow : canonical.holdsId k with
      | true =>
          simp only [removeSource, hrow]
          cases verify with
          | none => rfl
          | some raised => cases raised <;> first | rfl | exact ⟨_, rfl⟩
      | false =>
          simp only [removeSource, hrow, readsAbsent_of_absent hrow]
          cases verify with
          | none => rfl
          | some raised => cases raised <;> first | rfl | exact ⟨_, rfl⟩
  | some first =>
      simp only [removeSource]
      cases verify with
      | none => cases first <;> first | rfl | exact ⟨_, rfl⟩
      | some raised => cases first <;> cases raised <;> first | rfl | exact ⟨_, rfl⟩

/-- Up to the warm tier's writes. -/
theorem conserved_fileWrite (writes warm : List TierWrite) (failed : Bool)
    (hwarm : warm.filter TierWrite.placed = []) :
    Conserved config (rowKey e) s (fileWrite s e :: warm ++ writes) failed ↔
      Conserved config (rowKey e) s (fileWrite s e :: writes) failed := by
  rw [conserved_placed, placed_fileWrite writes warm hwarm, ← List.filter_cons_of_pos,
    ← conserved_placed]
  rfl

/-- The archival after its file is written and the warm tier is clean. -/
theorem source_conserved_iff (f : ArchiveFaults) (warm : List TierWrite)
    (hwarm : warm.filter TierWrite.placed = []) :
    let ended : List TierWrite × Option Raised :=
      match removeSource config f s.canonical (rowKey e) with
      | (.error raised, source) => (fileWrite s e :: warm ++ source, some raised)
      | (.ok true, source) => (fileWrite s e :: warm ++ source, none)
      | (.ok false, source) =>
          (fileWrite s e :: warm ++ source ++ rollbackArchive f s e, some .storage)
    Conserved config (rowKey e) s ended.1 ended.2.isSome ↔ SourceConserves config f s e := by
  have hspec := @removeSource_spec config f s.canonical (rowKey e)
  unfold SourceConserves
  split at hspec
  · rename_i hdeleted
    rw [if_pos hdeleted]
    have hrow : s.canonical.holdsId (rowKey e) = true := (Bool.and_eq_true_iff.mp hdeleted).2
    split at hspec
    · rename_i hverify
      rw [hspec]
      refine (conserved_fileWrite _ warm false hwarm).trans (conserved_archived.trans ?_)
      exact ⟨fun h => ⟨hverify, h⟩, fun h => h.2⟩
    · rename_i hverify
      obtain ⟨raised, hremove⟩ := hspec
      rw [hremove]
      refine iff_of_false ?_ (fun h => hverify h.1)
      exact fun h => not_conserved_deleted hrow ((conserved_fileWrite _ warm true hwarm).mp h)
  · rename_i hdeleted
    rw [if_neg hdeleted]
    split at hspec
    · rename_i hraised
      rw [if_pos hraised]
      obtain ⟨raised, hremove⟩ := hspec
      rw [hremove]
      exact (conserved_fileWrite _ warm true hwarm).trans conserved_filed
    · rename_i hraised
      rw [if_neg hraised, hspec]
      cases f.verify.isNone && readsAbsent config s.canonical (rowKey e) with
      | true => exact (conserved_fileWrite _ warm false hwarm).trans conserved_unverified
      | false =>
          dsimp only
          rw [List.append_nil]
          exact (conserved_fileWrite _ warm true hwarm).trans (conserved_rollback f)

/-- When an archival conserves the entry. -/
theorem archive_conserved_iff (config : TierConfig) (f : ArchiveFaults) (s : TierState)
    (e : MemoryEntry) :
    Conserved config (rowKey e) s (coldArchiveEntry config f s e).1
      (coldArchiveEntry config f s e).2.isSome ↔ ArchiveConserves config f s e := by
  have hplaced := warmCleanup_placed f.warm s.warm
  have hresult := warmCleanup_result f.warm s.warm
  unfold coldArchiveEntry ArchiveConserves
  cases f.prepare with
  | some raised => exact iff_of_true (conserved_nothing _) trivial
  | none =>
      generalize warmCleanup f.warm s.warm = cleanup at hplaced hresult ⊢
      obtain ⟨result, warm⟩ := cleanup
      cases hpasses : f.warm.passesOn with
      | true =>
          rw [hpasses] at hresult
          obtain ⟨raised, hraised⟩ := hresult
          obtain rfl : result = .error raised := hraised
          have hfiled := @conserved_fileWrite config s e [] warm true hplaced
          rw [List.append_nil] at hfiled
          exact hfiled.trans conserved_filed
      | false =>
          rw [hpasses] at hresult
          obtain rfl : result = .ok (f.warm.confirmed s.warm) := hresult
          cases f.warm.confirmed s.warm with
          | true => exact source_conserved_iff f warm hplaced
          | false =>
              cases f.unlink with
              | none =>
                  exact (conserved_fileWrite _ warm true hplaced).trans conserved_unfiled
              | some raised =>
                  have hfiled := @conserved_fileWrite config s e [] warm
                    true hplaced
                  rw [List.append_nil] at hfiled
                  exact hfiled.trans conserved_filed

end Archival

end TrwMemory.Lifecycle

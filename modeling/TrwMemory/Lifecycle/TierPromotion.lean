import TrwMemory.Lifecycle.TierArchival

/-!
`cold_promote` conserves the entry exactly under `PromoteConserves`, and with it what both
moves do. Without the writes of the warm tier a promotion is a restored row, that and up to two
deletions of it, or that and the removal of the archive file.
-/
namespace TrwMemory.Lifecycle

open Library.Keyed Storage Sync Security

theorem restoredEntry_fields (record : ArchiveRecord) (now : Datetime) :
    (restoredEntry record now).id = record.entry.id ∧
      (restoredEntry record now).ns = record.entry.ns ∧
      (restoredEntry record now).updatedAt = record.entry.updatedAt := by
  obtain ⟨confidence, metadata, hserved⟩ :=
    servedView_fields { record.entry with lastAccessedAt := some now }
  rw [restoredEntry, hserved]
  exact ⟨rfl, rfl, rfl⟩

/-- The file of a promotion is one of the archive, and of the id. -/
theorem archivedFile_spec {f : PromoteFaults} {s : TierState} {id path : String}
    {record : ArchiveRecord} (h : archivedFile f s id = some (path, record)) :
    s.archive.find path = some record ∧ record.entry.id = id := by
  have hfound := List.find?_some h
  rw [Bool.and_eq_true, beq_iff_eq] at hfound
  exact ⟨(s.archive.mem_rows path record).mp (List.mem_of_find?_eq_some h), hfound.2⟩

section Rollback

variable {config : TierConfig} {k : RowKey}

/-- The second deletion of a rollback, and its verification. -/
def deleteAgain (f : PromoteFaults) (k : RowKey) (first : List TierWrite)
    (reads : Bool → Bool) : List TierWrite × Option Raised :=
  match f.forceDelete with
  | some .other => (first, some .other)
  | forceDelete =>
      let second := first ++ if forceDelete.isNone then [TierWrite.deleteCanonical k] else []
      match verifyRemoved (reads forceDelete.isNone) f.verifyAgain with
      | .error raised => (second, some raised)
      | .ok _ => (second, none)

theorem deleteAgain_writes (f : PromoteFaults) (first : List TierWrite) (reads : Bool → Bool) :
    (deleteAgain f k first reads).1 =
      first ++ if f.forceDelete.isNone then [.deleteCanonical k] else [] := by
  rw [deleteAgain]
  split
  · rename_i hother
    rw [hother]
    exact (List.append_nil first).symm
  · dsimp only
    split <;> rfl

/-- The rollback after a first deletion that carries on. -/
theorem rollbackRestored_eq {f : PromoteFaults} {restored : EntryStore}
    (h : f.delete ≠ some .other) :
    rollbackRestored config f restored k =
      let first := if f.delete.isNone then [TierWrite.deleteCanonical k] else []
      match verifyRemoved (f.delete.isNone || readsAbsent config restored k) f.verify with
      | .error raised => (first, some raised)
      | .ok true => (first, none)
      | .ok false => deleteAgain f k first fun removed =>
          f.delete.isNone || removed || readsAbsent config restored k := by
  rw [rollbackRestored]
  split
  · contradiction
  · rfl

/-- A rollback is some deletions of the row, one at least where it works. -/
theorem rollbackRestored_spec (f : PromoteFaults) (restored : EntryStore) :
    ∃ n, (rollbackRestored config f restored k).1 = List.replicate n (.deleteCanonical k) ∧
      (0 < n ↔ RollbackWorks config f restored k) := by
  by_cases hother : f.delete = some .other
  · refine ⟨0, by rw [rollbackRestored, hother]; rfl, ?_⟩
    refine iff_of_false (Nat.lt_irrefl 0) ?_
    rintro (hnone | ⟨hnot, -⟩)
    · rw [hother] at hnone
      cases hnone
    · exact hnot hother
  rw [rollbackRestored_eq hother]
  cases hdelete : f.delete with
  | none =>
      -- the first deletion is carried out, whatever comes after it
      have hworks : RollbackWorks config f restored k := .inl hdelete
      dsimp only [Option.isNone_none]
      split
      · exact ⟨1, rfl, iff_of_true Nat.one_pos hworks⟩
      · exact ⟨1, rfl, iff_of_true Nat.one_pos hworks⟩
      · rw [deleteAgain_writes]
        cases f.forceDelete with
        | none => exact ⟨2, rfl, iff_of_true Nat.two_pos hworks⟩
        | some raised => exact ⟨1, rfl, iff_of_true Nat.one_pos hworks⟩
  | some raised =>
      have hsome : f.delete ≠ none := by rw [hdelete]; exact Option.some_ne_none raised
      dsimp only [Option.isNone_some]
      rw [Bool.false_or]
      have hagain : RollbackWorks config f restored k ↔ f.forceDelete = none ∧
          verifyRemoved (readsAbsent config restored k) f.verify = .ok false := by
        have hverify : (f.verify.any Raised.suppressed = true ∨
            f.verify = none ∧ readsAbsent config restored k = false) ↔
            verifyRemoved (readsAbsent config restored k) f.verify = .ok false := by
          cases f.verify with
          | none => simp [verifyRemoved]
          | some raised => cases raised <;> simp [verifyRemoved, Raised.suppressed]
        rw [← hverify]
        exact ⟨fun h => (h.resolve_left hsome).2, fun h => .inr ⟨hother, h⟩⟩
      rw [hagain]
      cases hverify : verifyRemoved (readsAbsent config restored k) f.verify with
      | error raised => exact ⟨0, rfl, by simp⟩
      | ok removed =>
          cases removed with
          | true => exact ⟨0, rfl, by simp⟩
          | false =>
              dsimp only
              rw [deleteAgain_writes]
              cases f.forceDelete with
              | none => exact ⟨1, rfl, by simp⟩
              | some raised => exact ⟨0, rfl, by simp⟩

theorem undoPromotion_failed (f : PromoteFaults) (restored : EntryStore) (warm : Option WarmRow) :
    (undoPromotion config f restored k warm).2.failed = true := by
  unfold undoPromotion
  split
  · rfl
  · dsimp only
    split <;> rfl

theorem placed_deletes (n : Nat) :
    (List.replicate n (TierWrite.deleteCanonical k)).filter TierWrite.placed =
      List.replicate n (.deleteCanonical k) := by
  rw [List.filter_replicate]
  rfl

/-- Undoing deletes the row where the cleanup of the warm tier ends and the rollback works. -/
theorem undoPromotion_spec (f : PromoteFaults) (restored : EntryStore) (warm : Option WarmRow) :
    ∃ n, (undoPromotion config f restored k warm).1.filter TierWrite.placed =
        List.replicate n (.deleteCanonical k) ∧
      (0 < n ↔ (warm.isSome → f.warm.passesOn = false) ∧ RollbackWorks config f restored k) := by
  obtain ⟨n, hrollback, hworks⟩ := @rollbackRestored_spec config k f restored
  unfold undoPromotion
  cases warm with
  | none =>
      refine ⟨n, ?_, by rw [hworks]; exact ⟨fun h => ⟨fun hf => (by cases hf), h⟩, fun h => h.2⟩⟩
      rw [← placed_deletes n, ← hrollback]
      generalize rollbackRestored config f restored k = rollback
      obtain ⟨writes, raised⟩ := rollback
      cases raised <;> rfl
  | some warm =>
      have hplaced := warmCleanup_placed f.warm warm
      have hresult := warmCleanup_result f.warm warm
      rw [Option.map_some]
      generalize warmCleanup f.warm warm = cleanup at hplaced hresult ⊢
      obtain ⟨result, cleaned⟩ := cleanup
      cases hpasses : f.warm.passesOn with
      | true =>
          rw [hpasses] at hresult
          obtain ⟨raised, hraised⟩ := hresult
          obtain rfl : result = .error raised := hraised
          refine ⟨0, hplaced, iff_of_false (Nat.lt_irrefl 0) ?_⟩
          intro h
          cases h.1 rfl
      | false =>
          rw [hpasses] at hresult
          obtain rfl : result = .ok (f.warm.confirmed warm) := hresult
          refine ⟨n, ?_, by rw [hworks]; exact ⟨fun h => ⟨fun _ => rfl, h⟩, fun h => h.2⟩⟩
          have hcleaned : (cleaned ++ List.replicate n (TierWrite.deleteCanonical k)).filter
              TierWrite.placed = List.replicate n (.deleteCanonical k) := by
            rw [List.filter_append, hplaced, List.nil_append, placed_deletes]
          rw [← hcleaned, ← hrollback]
          generalize rollbackRestored config f restored k = rollback
          obtain ⟨writes, raised⟩ := rollback
          cases raised <;> rfl

end Rollback

section Promotion

variable {config : TierConfig} {s : TierState} {k : RowKey}

theorem absent_find (hrow : s.canonical.holdsId k = false) : s.canonical.table.find k = none :=
  Option.isNone_iff_eq_none.mp (Option.isSome_eq_false_iff.mp hrow)

/-- Without a canonical row the archive alone counts. -/
theorem newest_of_archive {t : TierState} (hrow : s.canonical.holdsId k = false)
    (h : t.archive = s.archive) : NewestHeld k s t := by
  apply newest_of_held
  rintro e (hcanonical | ⟨path, record, hfind, hid, he⟩)
  · rw [absent_find hrow] at hcanonical
    cases hcanonical
  · exact .inr ⟨path, record, by rw [h, hfind], hid, he⟩

theorem finish_deletes (t : TierState) (n : Nat) :
    (finish config t (List.replicate n (.deleteCanonical k))).archive = t.archive ∧
      (finish config t (List.replicate n (.deleteCanonical k))).canonical.table.find k =
        if 0 < n then none else t.canonical.table.find k := by
  induction n generalizing t with
  | zero => exact ⟨rfl, rfl⟩
  | succ n ih =>
      rw [List.replicate_succ]
      obtain ⟨harchive, hfind⟩ := ih ((TierWrite.deleteCanonical k).apply config t)
      refine ⟨harchive, hfind.trans ?_⟩
      have hdeleted :
          ((TierWrite.deleteCanonical k).apply config t).canonical.table.find k = none := by
        change (t.canonical.delete k).table.find k = none
        rw [EntryStore.find_delete, if_pos (beq_iff_eq.mpr rfl)]
      rw [hdeleted, ite_self, if_pos (Nat.succ_pos n)]

theorem moments_deletes (t : TierState) (n : Nat) :
    ∀ u ∈ moments config t (List.replicate n (.deleteCanonical k)), u.archive = t.archive := by
  induction n generalizing t with
  | zero =>
      intro u hu
      rw [List.mem_singleton.mp hu]
  | succ n ih =>
      intro u hu
      rw [List.replicate_succ] at hu
      rcases List.mem_cons.mp hu with rfl | hu
      · rfl
      · exact ih ((TierWrite.deleteCanonical k).apply config t) u hu

/-- A restored row and its deletions. -/
theorem conserved_undone {entry : MemoryEntry} (hrow : s.canonical.holdsId k = false)
    (hkey : rowKey entry = k) (n : Nat) :
    Conserved config k s (.storeCanonical entry :: List.replicate n (.deleteCanonical k)) true ↔
      0 < n := by
  obtain ⟨harchive, hfind⟩ := @finish_deletes config k
    ((TierWrite.storeCanonical entry).apply config s) n
  have hstored : ((TierWrite.storeCanonical entry).apply config s).canonical.table.find k =
      some (stampSync config.syncDigest entry) := by
    change (s.canonical.store config.syncDigest entry).table.find k = _
    rw [EntryStore.find_store, if_pos hkey.symm]
  constructor
  · intro h
    have hcanonical := (h.unchanged rfl).canonical
    rw [absent_find hrow] at hcanonical
    by_contra hn
    rw [if_neg hn, hstored] at hfind
    cases hfind.symm.trans hcanonical
  · intro hn
    rw [if_pos hn] at hfind
    refine ⟨?_, fun _ => ⟨hfind.trans (absent_find hrow).symm, ?_⟩, fun hf => (by cases hf)⟩
    · intro t ht
      rcases List.mem_cons.mp ht with rfl | ht
      · exact (SamePlaces.refl t).newest
      · exact newest_of_archive hrow
          (moments_deletes ((TierWrite.storeCanonical entry).apply config s) n t ht)
    · exact fun path => congrArg (Table.find · path) harchive

/-- A restored row whose file is removed. -/
theorem conserved_moved {entry : MemoryEntry} {path : String} {record : ArchiveRecord}
    (hrow : s.canonical.holdsId k = false) (hkey : rowKey entry = k)
    (hfile : s.archive.find path = some record)
    (hupdated : entry.updatedAt = record.entry.updatedAt) :
    Conserved config k s [.storeCanonical entry, .unlinkArchive path] false ↔
      ∀ path' record', s.archive.find path' = some record' → record'.entry.id = k.id →
        path' = path := by
  let moved := finish config s [.storeCanonical entry, .unlinkArchive path]
  have hstored : moved.canonical.table.find k = some (stampSync config.syncDigest entry) := by
    change (s.canonical.store config.syncDigest entry).table.find k = _
    rw [EntryStore.find_store, if_pos hkey.symm]
  have hleft : ∀ path', moved.archive.find path' =
      if path' = path then none else s.archive.find path' := by
    intro path'
    change (s.archive.discard (· == path)).find path' = _
    rw [Table.find_discard]
    by_cases hpath : path' = path
    · rw [if_pos (beq_iff_eq.mpr hpath), if_pos hpath]
    · rw [if_neg (mt beq_iff_eq.mp hpath), if_neg hpath]
  have hholds : moved.canonical.holdsId k = true := by
    rw [EntryStore.holdsId, hstored]
    rfl
  constructor
  · intro h path' record' hfind hid
    by_contra hpath
    refine (h.single rfl).mp hholds ⟨path', record', ?_, hid⟩
    change moved.archive.find path' = some record'
    rw [hleft, if_neg hpath, hfind]
  · intro h
    refine ⟨?_, fun hf => (by cases hf), fun _ => ⟨fun _ => ?_, fun _ => hholds⟩⟩
    · intro t ht
      rcases List.mem_cons.mp ht with rfl | ht
      · exact (SamePlaces.refl t).newest
      rcases List.mem_cons.mp ht with rfl | ht
      · exact newest_of_archive hrow rfl
      rw [List.mem_singleton.mp ht]
      rintro e (hcanonical | ⟨path', record', hfind, hid, rfl⟩)
      · rw [absent_find hrow] at hcanonical
        cases hcanonical
      · obtain rfl := h path' record' hfind hid
        rw [hfile] at hfind
        obtain rfl := Option.some.inj hfind
        refine ⟨_, .inl hstored, ?_⟩
        rw [stampSync, hupdated]
    · rintro ⟨path', record', hfind, hid⟩
      change moved.archive.find path' = some record' at hfind
      rw [hleft] at hfind
      split at hfind
      · cases hfind
      · rename_i hpath
        exact hpath (h path' record' hfind hid)

/-- A promotion that restores leaves a canonical row alone where there is none. -/
theorem promotionConserved_stored {e : MemoryEntry} {writes : List TierWrite} {failed : Bool} :
    PromotionConserved config k s (.storeCanonical e :: writes) failed ↔
      s.canonical.holdsId k = false ∧
        Conserved config k s (.storeCanonical e :: writes) failed := by
  constructor
  · intro h
    refine ⟨?_, h.toConserved⟩
    rw [← Bool.not_eq_true]
    intro hrow
    cases h.foreign hrow _ List.mem_cons_self
  · rintro ⟨hrow, h⟩
    refine ⟨h, fun hheld => ?_⟩
    rw [hrow] at hheld
    cases hheld

theorem promotionConserved_nothing : PromotionConserved config k s [] true :=
  ⟨conserved_nothing k, fun _ _ h => (by cases h)⟩

/-- A promotion that fails after it has restored the row. -/
theorem promotionConserved_undone {e : MemoryEntry} {undo : List TierWrite} {n : Nat}
    (hkey : rowKey e = k)
    (hundo : undo.filter TierWrite.placed = List.replicate n (.deleteCanonical k)) :
    PromotionConserved config k s (.storeCanonical e :: undo) true ↔
      s.canonical.holdsId k = false ∧ 0 < n := by
  rw [promotionConserved_stored, conserved_placed, List.filter_cons_of_pos rfl, hundo]
  exact and_congr_right fun hrow => conserved_undone hrow hkey n

/-- When a promotion conserves the entry. -/
theorem promote_conserved_iff (config : TierConfig) (f : PromoteFaults) (s : TierState)
    (k : RowKey) (now : Datetime) :
    PromotionConserved config k s (coldPromote config f s k now).1
      (coldPromote config f s k now).2.failed ↔ PromoteConserves config f s k now := by
  unfold coldPromote
  cases hfound : archivedFile f s k.id with
  | none =>
      refine iff_of_true promotionConserved_nothing ?_
      intro path record h
      rw [hfound] at h
      cases h
  | some file =>
      obtain ⟨path, record⟩ := file
      obtain ⟨hfile, hid⟩ := archivedFile_spec hfound
      obtain ⟨hentryId, hentryNs, hupdated⟩ := restoredEntry_fields record now
      dsimp only
      by_cases hns : record.entry.ns = k.ns
      · rw [if_neg (not_not_intro hns)]
        have hkey : rowKey (restoredEntry record now) = k := by
          rw [rowKey, hentryId, hentryNs, hid, hns]
        cases hrestore : f.restore with
        | some raised =>
            have hconserves : PromoteConserves config f s k now := by
              intro path' record' _ _ hnone
              rw [hrestore] at hnone
              cases hnone
            refine iff_of_true ?_ hconserves
            cases raised <;> exact promotionConserved_nothing
        | none =>
            have hcondition : PromoteConserves config f s k now ↔ _ :=
              ⟨fun h => h path record hfound hns hrestore, fun h path' record' hfound' _ _ => by
                rw [hfound] at hfound'
                cases hfound'
                exact h⟩
            rw [hcondition]
            let restored := s.canonical.store config.syncDigest (restoredEntry record now)
            cases f.warmAdd with
            | some raised =>
                obtain ⟨n, hundo, hworks⟩ :=
                  @undoPromotion_spec config k f restored none
                have hfailed := @undoPromotion_failed config k f restored none
                have hcaught : PromotionConserved config k s
                    (.storeCanonical (restoredEntry record now) ::
                      (undoPromotion config f restored k none).1)
                    (undoPromotion config f restored k none).2.failed ↔
                    s.canonical.holdsId k = false ∧ RollbackWorks config f restored k := by
                  rw [hfailed, promotionConserved_undone hkey hundo, hworks]
                  exact and_congr_right fun _ => ⟨fun h => h.2, fun h => ⟨by simp, h⟩⟩
                have hpassed : PromotionConserved config k s
                    [.storeCanonical (restoredEntry record now)] true ↔
                    s.canonical.holdsId k = false ∧ False := by
                  rw [promotionConserved_undone (n := 0) hkey rfl]
                  exact and_congr_right fun _ => iff_of_false (Nat.lt_irrefl 0) not_false
                cases raised with
                | os | storage => exact hcaught
                | value | runtime | other => exact hpassed
            | none =>
                dsimp only
                split
                · let added : WarmRow :=
                    ⟨some (restoredEntry record now), record.embedding.or s.warm.vector⟩
                  obtain ⟨n, hundo, hworks⟩ :=
                    @undoPromotion_spec config k f restored (some added)
                  have hfailed := @undoPromotion_failed config k f restored
                    (some added)
                  have hplaced : (TierWrite.setWarm added ::
                      (undoPromotion config f restored k (some added)).1).filter
                        TierWrite.placed = List.replicate n (.deleteCanonical k) := hundo
                  have hcaught : PromotionConserved config k s
                      (.storeCanonical (restoredEntry record now) :: .setWarm added ::
                        (undoPromotion config f restored k (some added)).1)
                      (undoPromotion config f restored k (some added)).2.failed ↔
                      s.canonical.holdsId k = false ∧ f.warm.passesOn = false ∧
                        RollbackWorks config f restored k := by
                    rw [hfailed, promotionConserved_undone hkey hplaced, hworks]
                    exact and_congr_right fun _ => and_congr_left fun _ =>
                      ⟨fun h => h rfl, fun h _ => h⟩
                  exact hcaught
                · rw [promotionConserved_stored, conserved_placed]
                  exact and_congr_right fun hrow => conserved_moved hrow hkey hfile hupdated
      · rw [if_pos hns]
        refine iff_of_true promotionConserved_nothing ?_
        intro path' record' hfound' hns'
        rw [hfound] at hfound'
        cases hfound'
        exact absurd hns' hns

/-- When the moves between the canonical store and the archive conserve an entry. -/
theorem tier_moves_conserve_iff (config : TierConfig) (s : TierState) :
    (∀ f e, Conserved config (rowKey e) s (coldArchiveEntry config f s e).1
      (coldArchiveEntry config f s e).2.isSome ↔ ArchiveConserves config f s e) ∧
    ∀ f k now, PromotionConserved config k s (coldPromote config f s k now).1
      (coldPromote config f s k now).2.failed ↔ PromoteConserves config f s k now :=
  ⟨fun f e => archive_conserved_iff config f s e,
    fun f k now => promote_conserved_iff config f s k now⟩

end Promotion

/-- The entry with a content, written at a second of the day. -/
def entryAt (content : String) (second : Int) : MemoryEntry :=
  MemoryEntry.ofDefaults "a" content "project:south" ⟨63839966400000000 + second * 1000000, some 0⟩
    a_ne_empty

def revised : MemoryEntry := entryAt "revised" 1

def unblocked : TierConfig := ⟨fun _ => "", fun _ => false⟩

/-- The archived copy is older than the canonical row. -/
def heldTwice : TierState where
  canonical := EntryStore.empty.store unblocked.syncDigest revised
  warm := ⟨none, none⟩
  archive := Table.empty.put "2024/01/a.yaml" ⟨entryAt "first" 0, none⟩

def faultless : PromoteFaults :=
  ⟨[], none, none, false, ⟨none, false, none⟩, none, none, none, none⟩

/-- The promotion stores the older copy over the row; when the warm tier fails it deletes the
row. An archival that fails leaves its file where the sidecar cannot be purged. -/
theorem revision_lost :
    ¬ NewestHeld ⟨"project:south", "a"⟩ heldTwice (finish unblocked heldTwice
        (coldPromote unblocked faultless heldTwice ⟨"project:south", "a"⟩ ⟨0, some 0⟩).1) ∧
      ¬ PromotionConserved unblocked ⟨"project:south", "a"⟩ heldTwice
        (coldPromote unblocked faultless heldTwice ⟨"project:south", "a"⟩ ⟨0, some 0⟩).1
        (coldPromote unblocked faultless heldTwice ⟨"project:south", "a"⟩ ⟨0, some 0⟩).2.failed ∧
      (finish unblocked heldTwice (coldPromote unblocked { faultless with warmAdd := some .os }
        heldTwice ⟨"project:south", "a"⟩ ⟨0, some 0⟩).1).canonical.holdsId ⟨"project:south", "a"⟩ =
          false ∧
      ¬ ArchiveConserves unblocked ⟨none, ⟨some .os, false, some .os⟩, none, none, none, none⟩
        { heldTwice with archive := .empty } revised := by
  have hfiles : (finish unblocked heldTwice (coldPromote unblocked faultless heldTwice
      ⟨"project:south", "a"⟩ ⟨0, some 0⟩).1).archive.rows = [] := by decide +kernel
  have hlost : ¬ NewestHeld ⟨"project:south", "a"⟩ heldTwice (finish unblocked heldTwice
      (coldPromote unblocked faultless heldTwice ⟨"project:south", "a"⟩ ⟨0, some 0⟩).1) := by
    intro h
    obtain ⟨e, hcanonical | ⟨path, record, hfind, -⟩, hle⟩ :=
      h (stampSync unblocked.syncDigest revised) (.inl (by decide +kernel))
    · have hrestored : (finish unblocked heldTwice (coldPromote unblocked faultless heldTwice
          ⟨"project:south", "a"⟩ ⟨0, some 0⟩).1).canonical.table.find ⟨"project:south", "a"⟩ =
          some (stampSync unblocked.syncDigest
            (restoredEntry ⟨entryAt "first" 0, none⟩ ⟨0, some 0⟩)) := by decide +kernel
      rw [hrestored] at hcanonical
      obtain rfl := Option.some.inj hcanonical
      revert hle
      decide +kernel
    · rw [← Table.mem_rows, hfiles] at hfind
      cases hfind
  refine ⟨hlost, ?_, by decide +kernel, ?_⟩
  · intro h
    apply hlost
    have hlast : ∀ (writes : List TierWrite) (s : TierState),
        finish unblocked s writes ∈ moments unblocked s writes := by
      intro writes
      induction writes with
      | nil => exact fun s => List.mem_cons_self
      | cons write writes ih => exact fun s => List.mem_cons_of_mem _ (ih _)
    exact h.newest _ (hlast _ _)
  · intro h
    cases (show Same { heldTwice with archive := .empty } revised from h)

end TrwMemory.Lifecycle

import TrwMemory.Storage.EntryStore

/-!
Moves of one entry between the canonical store and the cold archive
(`lifecycle/tiers/_cold.py`, and the callbacks of `_runtime.py` and `_manager.py`). A move is
the list of its writes and how it ends; every step may raise, and a step that raises has
changed nothing. The errors are told apart as far as a handler does.

When the moves conserve an entry: for every content of the store, the archive and the warm tier
and every step that raises, the exact condition on these. Writes of the warm tier do not matter;
what is left of a move is one of a few lists.

An archive file is its record; a file that cannot be read is one that the walk skips. The
search cache is left out, and of the warm tier only what the moves read is kept.
-/
namespace TrwMemory.Lifecycle

open Library.Keyed Storage Sync

/-- `OSError`, `StorageError`, `ValueError`, `RuntimeError`, or another exception. -/
inductive Raised where
  | os | storage | value | runtime | other
  deriving DecidableEq, Repr

/-- What an archive file holds. -/
structure ArchiveRecord where
  entry : MemoryEntry
  embedding : Option (List Rat)
  deriving DecidableEq

/-- The entry in the warm tier: its row of the sidecar, and its vector. -/
structure WarmRow where
  sidecar : Option MemoryEntry
  vector : Option (List Rat)
  deriving DecidableEq

structure TierState where
  canonical : EntryStore
  warm : WarmRow
  archive : Table String ArchiveRecord

/-- `blocks` is what the quarantine ledger hides from the canonical store. -/
structure TierConfig where
  syncDigest : SyncContent → String
  blocks : MemoryEntry → Bool

inductive TierWrite where
  | storeCanonical (e : MemoryEntry)
  | deleteCanonical (k : RowKey)
  | writeArchive (path : String) (record : ArchiveRecord)
  | unlinkArchive (path : String)
  | setWarm (row : WarmRow)

def TierWrite.apply (config : TierConfig) (s : TierState) : TierWrite → TierState
  | .storeCanonical e => { s with canonical := s.canonical.store config.syncDigest e }
  | .deleteCanonical k => { s with canonical := s.canonical.delete k }
  | .writeArchive path record => { s with archive := s.archive.put path record }
  | .unlinkArchive path => { s with archive := s.archive.discard (· == path) }
  | .setWarm warm => { s with warm }

/-- Where the archive file of an entry is written. -/
def archivePath (e : MemoryEntry) : String :=
  let date := Library.Civil.ofDays (e.createdAt.parseDt.wall.toNat / Datetime.DAY)
  toString date.year ++ "/" ++ (if date.month < 10 then "0" else "") ++ toString date.month ++
    "/" ++ e.id ++ ".yaml"

/-- What fails in `warm_remove`, and in `purge_sidecar_entry` after it. `vectorStays` is a
failure of the vector's delete, which is only logged. -/
structure WarmFaults where
  remove : Option Raised
  vectorStays : Bool
  purge : Option Raised
  deriving DecidableEq

/-- `warm_remove`, and `purge_sidecar_entry` where it raises: whether the cleanup is
confirmed. -/
def warmCleanup (f : WarmFaults) (warm : WarmRow) : Except Raised Bool × List TierWrite :=
  match f.remove with
  | none =>
      let vector := if f.vectorStays then warm.vector else none
      (.ok vector.isNone, [.setWarm ⟨none, vector⟩])
  | some .os | some .value =>
      match f.purge with
      | none => (.ok warm.sidecar.isSome, [.setWarm ⟨none, warm.vector⟩])
      | some raised => (.error raised, [])
  | some raised => (.error raised, [])

structure ArchiveFaults where
  /-- Reading the vector, making the directory, or writing the file. -/
  prepare : Option Raised
  warm : WarmFaults
  unlink : Option Raised
  delete : Option Raised
  verify : Option Raised
  undo : Option Raised
  deriving DecidableEq

/-- `get(..) is None` in the canonical store. -/
def readsAbsent (config : TierConfig) (canonical : EntryStore) (k : RowKey) : Bool :=
  match canonical.get k with
  | none => true
  | some entry => config.blocks entry

/-- The deletion of the source row and its verification: whether it is confirmed. -/
def removeSource (config : TierConfig) (f : ArchiveFaults) (canonical : EntryStore) (k : RowKey) :
    Except Raised Bool × List TierWrite :=
  match f.delete with
  | none =>
      let writes := if canonical.holdsId k then [.deleteCanonical k] else []
      match f.verify with
      | none => (.ok true, writes)
      | some .os | some .storage | some .value => (.ok (canonical.holdsId k), writes)
      | some raised => (.error raised, writes)
  | some .os | some .storage | some .value =>
      match f.verify with
      | none => (.ok (readsAbsent config canonical k), [])
      | some .os | some .storage | some .value => (.ok false, [])
      | some raised => (.error raised, [])
  | some raised => (.error raised, [])

/-- `_rollback_cold_archive_failure`. -/
def rollbackArchive (f : ArchiveFaults) (s : TierState) (e : MemoryEntry) : List TierWrite :=
  match f.undo with
  | none => [.unlinkArchive (archivePath e), .setWarm ⟨some e, s.warm.vector⟩]
  | some .os => [.setWarm ⟨some e, s.warm.vector⟩]
  | some _ => []

/-- `cold_archive_entry` with the callbacks of the manager, and the error it ends with. -/
def coldArchiveEntry (config : TierConfig) (f : ArchiveFaults) (s : TierState) (e : MemoryEntry) :
    List TierWrite × Option Raised :=
  match f.prepare with
  | some raised => ([], some raised)
  | none =>
      let write := TierWrite.writeArchive (archivePath e) ⟨e, s.warm.vector⟩
      match warmCleanup f.warm s.warm with
      | (.error raised, warm) => (write :: warm, some raised)
      | (.ok false, warm) =>
          match f.unlink with
          | none => (write :: warm ++ [.unlinkArchive (archivePath e)], some .storage)
          | some raised => (write :: warm, some raised)
      | (.ok true, warm) =>
          match removeSource config f s.canonical (rowKey e) with
          | (.error raised, source) => (write :: warm ++ source, some raised)
          | (.ok true, source) => (write :: warm ++ source, none)
          | (.ok false, source) => (write :: warm ++ source ++ rollbackArchive f s e, some .storage)

structure PromoteFaults where
  unreadable : List String
  restore : Option Raised
  warmAdd : Option Raised
  unlink : Bool
  warm : WarmFaults
  delete : Option Raised
  verify : Option Raised
  forceDelete : Option Raised
  verifyAgain : Option Raised
  deriving DecidableEq

inductive PromoteOutcome where
  | promoted (e : MemoryEntry)
  | absent
  | raised (raised : Raised)
  deriving DecidableEq

def PromoteOutcome.failed : PromoteOutcome → Bool
  | .promoted _ => false
  | _ => true

/-- The first readable file of the walk with the id. -/
def archivedFile (f : PromoteFaults) (s : TierState) (id : String) :
    Option (String × ArchiveRecord) :=
  s.archive.rows.find? fun file => !f.unreadable.contains file.1 && file.2.entry.id == id

/-- The entry that a restoration stores. -/
def restoredEntry (record : ArchiveRecord) (now : Datetime) : MemoryEntry :=
  servedView { record.entry with lastAccessedAt := some now }

/-- `_restored_entry_removed`, over what the store reads. -/
def verifyRemoved (reads : Bool) : Option Raised → Except Raised Bool
  | none => .ok reads
  | some .os | some .storage | some .value => .ok false
  | some raised => .error raised

/-- `_rollback_restored_entry`: its writes, and the error that it passes on. -/
def rollbackRestored (config : TierConfig) (f : PromoteFaults) (restored : EntryStore)
    (k : RowKey) : List TierWrite × Option Raised :=
  match f.delete with
  | some .other => ([], some .other)
  | delete =>
      let first := if delete.isNone then [TierWrite.deleteCanonical k] else []
      match verifyRemoved (delete.isNone || readsAbsent config restored k) f.verify with
      | .error raised => (first, some raised)
      | .ok true => (first, none)
      | .ok false =>
          match f.forceDelete with
          | some .other => (first, some .other)
          | forceDelete =>
              let second :=
                first ++ if forceDelete.isNone then [TierWrite.deleteCanonical k] else []
              match verifyRemoved (delete.isNone || forceDelete.isNone ||
                  readsAbsent config restored k) f.verifyAgain with
              | .error raised => (second, some raised)
              | .ok _ => (second, none)

/-- The handler of a failed promotion, after the row has been restored. -/
def undoPromotion (config : TierConfig) (f : PromoteFaults) (restored : EntryStore) (k : RowKey)
    (warm : Option WarmRow) : List TierWrite × PromoteOutcome :=
  match warm.map (warmCleanup f.warm) with
  | some (.error raised, writes) => (writes, .raised raised)
  | cleaned =>
      let writes := (cleaned.map Prod.snd).getD []
      match rollbackRestored config f restored k with
      | (rollback, some raised) => (writes ++ rollback, .raised raised)
      | (rollback, none) => (writes ++ rollback, .absent)

/-- `cold_promote` with the callbacks of the runtime for the namespace of `k`. -/
def coldPromote (config : TierConfig) (f : PromoteFaults) (s : TierState) (k : RowKey)
    (now : Datetime) : List TierWrite × PromoteOutcome :=
  match archivedFile f s k.id with
  | none => ([], .absent)
  | some (path, record) =>
      if record.entry.ns ≠ k.ns then ([], .raised .runtime)
      else
        let entry := restoredEntry record now
        let restored := s.canonical.store config.syncDigest entry
        let added : WarmRow := ⟨some entry, record.embedding.or s.warm.vector⟩
        match f.restore with
        | some .os | some .storage => ([], .absent)
        | some raised => ([], .raised raised)
        | none =>
            match f.warmAdd with
            | some .os | some .storage =>
                let (undo, outcome) := undoPromotion config f restored k none
                (.storeCanonical entry :: undo, outcome)
            | some raised => ([.storeCanonical entry], .raised raised)
            | none =>
                if f.unlink then
                  let (undo, outcome) := undoPromotion config f restored k (some added)
                  (.storeCanonical entry :: .setWarm added :: undo, outcome)
                else
                  ([.storeCanonical entry, .setWarm added, .unlinkArchive path], .promoted entry)

/-- Every state that the writes pass, the first and the last among them. -/
def moments (config : TierConfig) (s : TierState) : List TierWrite → List TierState
  | [] => [s]
  | write :: writes => s :: moments config (write.apply config s) writes

def finish (config : TierConfig) (s : TierState) (writes : List TierWrite) : TierState :=
  writes.foldl (TierWrite.apply config) s

/-- An archive file holds the id. -/
def Archived (s : TierState) (id : String) : Prop :=
  ∃ path record, s.archive.find path = some record ∧ record.entry.id = id

/-- The canonical row or an archive file is a state of the entry. -/
def Holds (s : TierState) (k : RowKey) (e : MemoryEntry) : Prop :=
  s.canonical.table.find k = some e ∨
    ∃ path record, s.archive.find path = some record ∧ record.entry.id = k.id ∧ record.entry = e

/-- Something that is held is as new as anything that was. -/
def NewestHeld (k : RowKey) (s t : TierState) : Prop :=
  ∀ e, Holds s k e → ∃ e', Holds t k e' ∧ e.updatedAt.instant ≤ e'.updatedAt.instant

/-- The canonical row and all archive files are the same. -/
structure SamePlaces (k : RowKey) (s t : TierState) : Prop where
  canonical : t.canonical.table.find k = s.canonical.table.find k
  archive : ∀ path, t.archive.find path = s.archive.find path

/-- The entry is in one of the two places, and not in both. -/
def OnePlace (k : RowKey) (s : TierState) : Prop :=
  s.canonical.holdsId k = true ↔ ¬ Archived s k.id

structure Conserved (config : TierConfig) (k : RowKey) (s : TierState)
    (writes : List TierWrite) (failed : Bool) : Prop where
  newest : ∀ t ∈ moments config s writes, NewestHeld k s t
  unchanged : failed = true → SamePlaces k s (finish config s writes)
  single : failed = false → OnePlace k (finish config s writes)

def TierWrite.canonical : TierWrite → Bool
  | .storeCanonical _ | .deleteCanonical _ => true
  | _ => false

/-- A promotion also leaves a canonical row alone that it finds. -/
structure PromotionConserved (config : TierConfig) (k : RowKey) (s : TierState)
    (writes : List TierWrite) (failed : Bool) : Prop extends
    Conserved config k s writes failed where
  foreign : s.canonical.holdsId k = true → ∀ write ∈ writes, write.canonical = false

/-- The exceptions that most handlers of the moves suppress. -/
def Raised.suppressed : Raised → Bool
  | .os | .storage | .value => true
  | .runtime | .other => false

/-- The cleanup of the warm tier passes an exception on. -/
def WarmFaults.passesOn (f : WarmFaults) : Bool :=
  match f.remove with
  | none => false
  | some .os | some .value => f.purge.isSome
  | some _ => true

/-- The cleanup is confirmed: no vector stays, or the row of the sidecar was there to be
purged. -/
def WarmFaults.confirmed (f : WarmFaults) (warm : WarmRow) : Bool :=
  match f.remove with
  | none => !f.vectorStays || warm.vector.isNone
  | some .os | some .value => f.purge.isNone && warm.sidecar.isSome
  | some _ => false

/-- No file is there to be overwritten. -/
def Free (s : TierState) (e : MemoryEntry) : Prop := s.archive.find (archivePath e) = none

/-- The file that the move writes is there already. -/
def Same (s : TierState) (e : MemoryEntry) : Prop :=
  s.archive.find (archivePath e) = some ⟨e, s.warm.vector⟩

/-- The entry, or another file of it, is as new as the canonical row and the file that is
overwritten. -/
def NotNewer (s : TierState) (e : MemoryEntry) : Prop :=
  ∀ held, Holds s (rowKey e) held →
    held.updatedAt.instant ≤ e.updatedAt.instant ∨
      ∃ path record, path ≠ archivePath e ∧ s.archive.find path = some record ∧
        record.entry.id = e.id ∧ held.updatedAt.instant ≤ record.entry.updatedAt.instant

/-- An archival whose file is written and whose warm tier is clean conserves the entry. -/
def SourceConserves (config : TierConfig) (f : ArchiveFaults) (s : TierState)
    (e : MemoryEntry) : Prop :=
  if f.delete.isNone && s.canonical.holdsId (rowKey e) then
    f.verify.all Raised.suppressed = true ∧ NotNewer s e
  else if f.delete.any (fun r => !r.suppressed) || f.verify.any (fun r => !r.suppressed) then
    Same s e
  else if f.verify.isNone && readsAbsent config s.canonical (rowKey e) then
    s.canonical.holdsId (rowKey e) = false ∧ NotNewer s e
  else if f.undo.isSome then Same s e
  else Free s e

/-- An archival conserves the entry. -/
def ArchiveConserves (config : TierConfig) (f : ArchiveFaults) (s : TierState)
    (e : MemoryEntry) : Prop :=
  if f.prepare.isSome then True
  else if f.warm.passesOn then Same s e
  else if f.warm.confirmed s.warm then SourceConserves config f s e
  else if f.unlink.isSome then Same s e
  else Free s e

/-- One of the two deletions of a rollback is carried out. -/
def RollbackWorks (config : TierConfig) (f : PromoteFaults) (restored : EntryStore)
    (k : RowKey) : Prop :=
  f.delete = none ∨
    f.delete ≠ some .other ∧ f.forceDelete = none ∧
      (f.verify.any Raised.suppressed = true ∨
        f.verify = none ∧ readsAbsent config restored k = false)

/-- A promotion conserves the entry. -/
def PromoteConserves (config : TierConfig) (f : PromoteFaults) (s : TierState) (k : RowKey)
    (now : Datetime) : Prop :=
  ∀ path record, archivedFile f s k.id = some (path, record) → record.entry.ns = k.ns →
    f.restore = none → s.canonical.holdsId k = false ∧
      match f.warmAdd with
      | some .os | some .storage =>
          RollbackWorks config f
            (s.canonical.store config.syncDigest (restoredEntry record now)) k
      | some _ => False
      | none =>
          if f.unlink then
            f.warm.passesOn = false ∧ RollbackWorks config f
              (s.canonical.store config.syncDigest (restoredEntry record now)) k
          else
            ∀ path' record', s.archive.find path' = some record' → record'.entry.id = k.id →
              path' = path

section Places

variable {config : TierConfig} {k : RowKey} {s t : TierState}

theorem newest_of_held (h : ∀ e, Holds s k e → Holds t k e) : NewestHeld k s t :=
  fun e he => ⟨e, h e he, le_rfl⟩

theorem SamePlaces.newest (h : SamePlaces k s t) : NewestHeld k s t := by
  apply newest_of_held
  rintro e (hcanonical | ⟨path, record, hfind, hid, he⟩)
  · exact .inl (h.canonical.trans hcanonical)
  · exact .inr ⟨path, record, (h.archive path).trans hfind, hid, he⟩

theorem SamePlaces.refl (s : TierState) : SamePlaces k s s := ⟨rfl, fun _ => rfl⟩

/-- The two states differ in the warm tier only. -/
structure SameButWarm (s t : TierState) : Prop where
  canonical : s.canonical = t.canonical
  archive : s.archive = t.archive

theorem SameButWarm.newest {u : TierState} (h : SameButWarm s t) :
    NewestHeld k u s ↔ NewestHeld k u t := by
  cases s
  cases t
  obtain ⟨rfl, rfl⟩ := h
  exact Iff.rfl

theorem SameButWarm.samePlaces {u : TierState} (h : SameButWarm s t) :
    SamePlaces k u s ↔ SamePlaces k u t := by
  cases s
  cases t
  obtain ⟨rfl, rfl⟩ := h
  exact ⟨fun h => ⟨h.canonical, h.archive⟩, fun h => ⟨h.canonical, h.archive⟩⟩

theorem SameButWarm.onePlace (h : SameButWarm s t) : OnePlace k s ↔ OnePlace k t := by
  cases s
  cases t
  obtain ⟨rfl, rfl⟩ := h
  exact Iff.rfl

/-- The write is not one of the warm tier. -/
def TierWrite.placed : TierWrite → Bool
  | .setWarm _ => false
  | _ => true

theorem SameButWarm.apply (h : SameButWarm s t) (write : TierWrite) :
    SameButWarm (write.apply config s) (write.apply config t) := by
  cases write with
  | setWarm _ => exact ⟨h.canonical, h.archive⟩
  | storeCanonical e =>
      exact ⟨congrArg (EntryStore.store config.syncDigest · e) h.canonical, h.archive⟩
  | deleteCanonical k => exact ⟨congrArg (EntryStore.delete · k) h.canonical, h.archive⟩
  | writeArchive path record => exact ⟨h.canonical, congrArg (Table.put · path record) h.archive⟩
  | unlinkArchive path =>
      exact ⟨h.canonical, congrArg (fun archive => Table.discard archive (· == path)) h.archive⟩

theorem finish_placed (writes : List TierWrite) (h : SameButWarm s t) :
    SameButWarm (finish config s writes) (finish config t (writes.filter TierWrite.placed)) := by
  induction writes generalizing s t with
  | nil => exact h
  | cons write writes ih =>
      cases hplaced : write.placed with
      | true =>
          rw [List.filter_cons_of_pos hplaced]
          exact ih (h.apply write)
      | false =>
          rw [List.filter_cons_of_neg (by rw [hplaced]; exact Bool.false_ne_true)]
          refine ih ?_
          cases write with
          | setWarm _ => exact ⟨h.canonical, h.archive⟩
          | _ => cases hplaced

/-- What holds of all states of a move holds of those that its other writes pass. -/
theorem moments_placed {P : TierState → Prop} (hP : ∀ s t, SameButWarm s t → (P s ↔ P t))
    (writes : List TierWrite) (h : SameButWarm s t) :
    (∀ u ∈ moments config s writes, P u) ↔
      ∀ u ∈ moments config t (writes.filter TierWrite.placed), P u := by
  induction writes generalizing s t with
  | nil => simp only [moments, List.filter_nil, List.forall_mem_singleton, hP s t h]
  | cons write writes ih =>
      cases hplaced : write.placed with
      | true =>
          rw [List.filter_cons_of_pos hplaced, moments, moments, List.forall_mem_cons,
            List.forall_mem_cons, hP s t h, ih (h.apply write)]
      | false =>
          rw [List.filter_cons_of_neg (by rw [hplaced]; exact Bool.false_ne_true), moments,
            List.forall_mem_cons]
          cases write with
          | setWarm warm =>
              have hrest : SameButWarm ((TierWrite.setWarm warm).apply config s) t :=
                ⟨h.canonical, h.archive⟩
              rw [ih hrest]
              have hfirst : (∀ u ∈ moments config t (writes.filter TierWrite.placed), P u) →
                  P t := by
                intro hall
                cases hw : writes.filter TierWrite.placed with
                | nil => exact hall t (by rw [hw]; exact List.mem_cons_self)
                | cons w ws => exact hall t (by rw [hw]; exact List.mem_cons_self)
              exact ⟨fun hall => hall.2, fun hall => ⟨(hP s t h).mpr (hfirst hall), hall⟩⟩
          | _ => cases hplaced

/-- The writes of the warm tier do not matter. -/
theorem conserved_placed (writes : List TierWrite) (failed : Bool) :
    Conserved config k s writes failed ↔
      Conserved config k s (writes.filter TierWrite.placed) failed := by
  have hsame : SameButWarm s s := ⟨rfl, rfl⟩
  have hfinish := @finish_placed config s s writes hsame
  have hmoments := @moments_placed config s s (NewestHeld k s)
    (fun _ _ h => h.newest) writes hsame
  constructor
  · intro h
    exact ⟨hmoments.mp h.newest, fun hf => hfinish.samePlaces.mp (h.unchanged hf),
      fun hf => hfinish.onePlace.mp (h.single hf)⟩
  · intro h
    exact ⟨hmoments.mpr h.newest, fun hf => hfinish.samePlaces.mpr (h.unchanged hf),
      fun hf => hfinish.onePlace.mpr (h.single hf)⟩

end Places

end TrwMemory.Lifecycle

import TrwMemory.Storage.SidecarBatch

/-!
`store` and `store_many` on the entry objects of their caller (`storage/_crud_ops.py`,
`_bulk_write_support.py`). Both stamp the objects they are given; one object may occur
several times in a batch, and several objects may carry one key.

`store` runs inside the transaction of its caller, which rolls back when it raises.
What a raising `store_many` leaves is what the connection then sees. That SQLite
itself fails (a full disk, a lock) is not modelled here.
-/
namespace TrwMemory.Storage

open Library.Keyed Sync

variable {ρ : Type} [DecidableEq ρ]

/-- The caller's objects and the database. -/
structure Held (ρ : Type) where
  objects : ρ → MemoryEntry
  db : Db

inductive Failure where
  | refused (error : WriteError)
  /-- `OverflowError`: an integer that SQLite cannot hold. -/
  | overflow
  deriving DecidableEq, Repr

/-- A signed integer of 64 bits. -/
def fitsInteger (n : Int) : Bool :=
  decide (-9223372036854775808 ≤ n) && decide (n < 9223372036854775808)

theorem fitsInteger_iff (n : Int) :
    fitsInteger n = true ↔ -9223372036854775808 ≤ n ∧ n < 9223372036854775808 := by
  simp [fitsInteger]

/-- Every integer of the row can be bound. -/
def bindable (row : MemoryEntry) : Bool :=
  fitsInteger row.recurrence && fitsInteger row.accessCount && fitsInteger row.sessionCount &&
    fitsInteger row.recallCount && fitsInteger row.syncSeq

def storeObject (digest : SyncContent → String) (b : Backend) (held : Held ρ) (r : ρ) :
    Except Failure (Held ρ) :=
  let entry := held.objects r
  match storeRow digest (held.db.memories.find (rowKey entry)) entry with
  | .error error => .error (.refused error)
  | .ok row =>
      if bindable row then
        .ok ⟨Function.update held.objects r row, execute (storeStatements b row) held.db⟩
      else .error .overflow

/-- `store` for one entry after the other. -/
def storeEach (digest : SyncContent → String) (b : Backend) :
    Held ρ → List ρ → Except Failure (Held ρ)
  | held, [] => .ok held
  | held, r :: rest =>
      match storeObject digest b held r with
      | .error failure => .error failure
      | .ok after => storeEach digest b after rest

/-- `EntryState`: what a batch stamps. -/
structure EntryState where
  createdAt : Datetime
  updatedAt : Datetime
  syncSeq : Int
  syncHash : String
  lastSyncedAt : Option Datetime

def entryState (e : MemoryEntry) : EntryState :=
  ⟨e.createdAt, e.updatedAt, e.syncSeq, e.syncHash, e.lastSyncedAt⟩

/-- `stamp_sync_bookkeeping`; no entry of the model lacks a timestamp. -/
def stampSyncBookkeeping (digest : SyncContent → String) (objects : ρ → MemoryEntry) :
    List ρ → ρ → MemoryEntry
  | [] => objects
  | r :: rest =>
      stampSyncBookkeeping digest (Function.update objects r (stampSync digest (objects r))) rest

/-- `restore_entry_state`. -/
def restoreEntryState (objects : ρ → MemoryEntry) : List (ρ × EntryState) → ρ → MemoryEntry
  | [] => objects
  | (r, state) :: rest =>
      restoreEntryState
        (Function.update objects r
          { objects r with
            createdAt := state.createdAt
            updatedAt := state.updatedAt
            syncSeq := state.syncSeq
            syncHash := state.syncHash
            lastSyncedAt := state.lastSyncedAt })
        rest

/-- `refuse_new_violations`: every entry against the row the batch found. -/
def refuseNewViolations (db : Db) (rows : List MemoryEntry) : Except WriteError Unit :=
  rows.forM fun row => refuseViolation (db.memories.find (rowKey row)) row

structure BatchEnd (ρ : Type) where
  failure : Option Failure
  held : Held ρ

/-- `store_many`. An overflow raises out of `executemany`: the rows before it have been
inserted, and no clause catches it. -/
def storeManyObjects (digest : SyncContent → String) (b : Backend) (held : Held ρ)
    (refs : List ρ) : BatchEnd ρ :=
  if refs.isEmpty then ⟨none, held⟩
  else
    match (refs.map held.objects).forM validateEntryForWrite with
    | .error error => ⟨some (.refused error), held⟩
    | .ok () =>
        let prior := refs.map fun r => (r, entryState (held.objects r))
        let stamped := stampSyncBookkeeping digest held.objects refs
        let rows := refs.map stamped
        match refuseNewViolations held.db rows with
        | .error error => ⟨some (.refused error), ⟨restoreEntryState stamped prior, held.db⟩⟩
        | .ok () =>
            if rows.all bindable then
              ⟨none, ⟨stamped, execute (storeManyStatements b rows) held.db⟩⟩
            else
              ⟨some .overflow,
                ⟨stamped, execute ((rows.takeWhile bindable).map insertOrReplace) held.db⟩⟩

/-- The same entry, up to the sync fields. -/
def Restamped (e e' : MemoryEntry) : Prop :=
  ∃ syncSeq syncHash lastSyncedAt, e' = { e with syncSeq, syncHash, lastSyncedAt }

theorem restamped_stampSync (digest : SyncContent → String) (e : MemoryEntry) :
    Restamped e (stampSync digest e) :=
  ⟨_, _, _, rfl⟩

theorem Restamped.refl (e : MemoryEntry) : Restamped e e := ⟨_, _, _, rfl⟩

theorem Restamped.trans {e e' e'' : MemoryEntry} (h : Restamped e e') (h' : Restamped e' e'') :
    Restamped e e'' := by
  obtain ⟨_, _, _, rfl⟩ := h
  obtain ⟨seq, hash, synced, rfl⟩ := h'
  exact ⟨seq, hash, synced, rfl⟩

/-- The entry before any acknowledgement. -/
def unacknowledged (e : MemoryEntry) : MemoryEntry := { e with lastSyncedAt := none }

section Restamped

variable {e e' : MemoryEntry} (h : Restamped e e')
include h

theorem Restamped.key : rowKey e' = rowKey e := by
  obtain ⟨_, _, _, rfl⟩ := h
  rfl

theorem Restamped.tags : e'.tags = e.tags := by
  obtain ⟨_, _, _, rfl⟩ := h
  rfl

theorem Restamped.anchors : e'.anchors = e.anchors := by
  obtain ⟨_, _, _, rfl⟩ := h
  rfl

theorem Restamped.validate : validateEntryForWrite e' = validateEntryForWrite e := by
  obtain ⟨_, _, _, rfl⟩ := h
  rfl

theorem Restamped.violates : violatesEvidenceInvariant e' = violatesEvidenceInvariant e := by
  obtain ⟨_, _, _, rfl⟩ := h
  rfl

theorem Restamped.sameClaim_left (other : MemoryEntry) :
    sameClaim e' other = sameClaim e other := by
  obtain ⟨_, _, _, rfl⟩ := h
  rfl

theorem Restamped.sameClaim_right (other : MemoryEntry) :
    sameClaim other e' = sameClaim other e := by
  obtain ⟨_, _, _, rfl⟩ := h
  rfl

/-- Of the sync fields only the time of the acknowledgement decides whether a row can be read
back, and stamping clears it. -/
theorem Restamped.readable (hnone : e'.lastSyncedAt = none) :
    (rowToEntry e').isSome = (rowToEntry (unacknowledged e)).isSome := by
  obtain ⟨seq, hash, synced, rfl⟩ := h
  obtain rfl : synced = none := hnone
  have hvalid : validEntry (readBack { e with
      syncSeq := seq, syncHash := hash, lastSyncedAt := none }) =
        validEntry (readBack (unacknowledged e)) := by
    simp only [validEntry, validWindow, readBack, unacknowledged]
  have hshifts : shifts { e with syncSeq := seq, syncHash := hash, lastSyncedAt := none } =
      shifts (unacknowledged e) := rfl
  simp only [rowToEntry, hvalid, hshifts]
  split <;> rfl

end Restamped

theorem stampSyncBookkeeping_append (digest : SyncContent → String) (objects : ρ → MemoryEntry)
    (first rest : List ρ) :
    stampSyncBookkeeping digest objects (first ++ rest) =
      stampSyncBookkeeping digest (stampSyncBookkeeping digest objects first) rest := by
  induction first generalizing objects with
  | nil => rfl
  | cons r first ih => exact ih _

/-- One more stamp at the end. -/
theorem stampSyncBookkeeping_concat (digest : SyncContent → String) (objects : ρ → MemoryEntry)
    (refs : List ρ) (r : ρ) :
    stampSyncBookkeeping digest objects (refs ++ [r]) =
      Function.update (stampSyncBookkeeping digest objects refs) r
        (stampSync digest (stampSyncBookkeeping digest objects refs r)) :=
  stampSyncBookkeeping_append digest objects refs [r]

theorem restamped_stampSyncBookkeeping (digest : SyncContent → String) (objects : ρ → MemoryEntry)
    (refs : List ρ) (r : ρ) :
    Restamped (objects r) (stampSyncBookkeeping digest objects refs r) := by
  induction refs using List.reverseRecOn with
  | nil => exact .refl _
  | append_singleton refs s ih =>
      rw [stampSyncBookkeeping_concat]
      by_cases hrs : r = s
      · subst hrs
        rw [Function.update_self]
        exact ih.trans (restamped_stampSync digest _)
      · rwa [Function.update_of_ne hrs]

theorem stampSyncBookkeeping_lastSyncedAt (digest : SyncContent → String)
    (objects : ρ → MemoryEntry) {refs : List ρ} {r : ρ} (hr : r ∈ refs) :
    (stampSyncBookkeeping digest objects refs r).lastSyncedAt = none := by
  induction refs using List.reverseRecOn with
  | nil => cases hr
  | append_singleton refs s ih =>
      rw [stampSyncBookkeeping_concat]
      by_cases hrs : r = s
      · subst hrs
        rw [Function.update_self]
        rfl
      · rw [Function.update_of_ne hrs]
        obtain hr | hr := List.mem_append.mp hr
        · exact ih hr
        · exact absurd (List.mem_singleton.mp hr) hrs

theorem stampSyncBookkeeping_absent (digest : SyncContent → String) (objects : ρ → MemoryEntry)
    (refs : List ρ) (r : ρ) (hr : r ∉ refs) :
    stampSyncBookkeeping digest objects refs r = objects r := by
  induction refs generalizing objects with
  | nil => rfl
  | cons s refs ih =>
      rw [List.mem_cons, not_or] at hr
      rw [stampSyncBookkeeping, ih _ hr.2, Function.update_of_ne hr.1]

/-- An object that occurs once is stamped once. -/
theorem stampSyncBookkeeping_nodup (digest : SyncContent → String) (objects : ρ → MemoryEntry)
    {refs : List ρ} (hnodup : refs.Nodup) {r : ρ} (hr : r ∈ refs) :
    stampSyncBookkeeping digest objects refs r = stampSync digest (objects r) := by
  induction refs generalizing objects with
  | nil => cases hr
  | cons s refs ih =>
      obtain ⟨hs, hnodup⟩ := List.nodup_cons.mp hnodup
      rw [stampSyncBookkeeping]
      by_cases hrs : r = s
      · subst hrs
        rw [stampSyncBookkeeping_absent _ _ _ _ hs, Function.update_self]
      · rw [ih _ hnodup ((List.mem_cons.mp hr).resolve_left hrs), Function.update_of_ne hrs]

/-- An object is numbered once for every time it occurs. -/
theorem syncSeq_stampSyncBookkeeping (digest : SyncContent → String) (objects : ρ → MemoryEntry)
    (refs : List ρ) (r : ρ) :
    (stampSyncBookkeeping digest objects refs r).syncSeq =
      (objects r).syncSeq + refs.count r := by
  induction refs using List.reverseRecOn with
  | nil => simp [stampSyncBookkeeping]
  | append_singleton refs s ih =>
      rw [stampSyncBookkeeping_concat]
      by_cases hrs : r = s
      · subst hrs
        rw [Function.update_self]
        simp only [stampSync, ih, List.count_append, List.count_singleton_self, Nat.cast_add,
          Nat.cast_one]
        ring
      · have hnone : [s].count r = 0 := List.count_eq_zero.mpr (by simpa using hrs)
        rw [Function.update_of_ne hrs, ih, List.count_append, hnone, Nat.add_zero]

/-- Restoring undoes the stamps. -/
theorem restoreEntryState_stamped (objects stamped : ρ → MemoryEntry)
    (hstamped : ∀ r, Restamped (objects r) (stamped r)) (refs : List ρ)
    (hrest : ∀ r, r ∉ refs → stamped r = objects r) :
    restoreEntryState stamped (refs.map fun r => (r, entryState (objects r))) = objects := by
  induction refs generalizing stamped with
  | nil => exact funext fun r => hrest r List.not_mem_nil
  | cons s refs ih =>
      have hself : ({ stamped s with
          createdAt := (objects s).createdAt
          updatedAt := (objects s).updatedAt
          syncSeq := (objects s).syncSeq
          syncHash := (objects s).syncHash
          lastSyncedAt := (objects s).lastSyncedAt } : MemoryEntry) = objects s := by
        obtain ⟨_, _, _, h⟩ := hstamped s
        rw [h]
      simp only [List.map_cons, restoreEntryState, entryState, hself]
      apply ih
      · intro r
        by_cases hrs : r = s
        · subst hrs
          rw [Function.update_self]
          exact .refl _
        · rw [Function.update_of_ne hrs]
          exact hstamped r
      · intro r hr
        by_cases hrs : r = s
        · subst hrs
          rw [Function.update_self]
        · rw [Function.update_of_ne hrs]
          exact hrest r fun hmem => (List.mem_cons.mp hmem).elim hrs hr

end TrwMemory.Storage

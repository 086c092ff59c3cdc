import Mathlib.Algebra.Order.Ring.Unbundled.Rat
import TrwMemory.Models.Columns
import TrwMemory.Models.Timestamps
import TrwMemory.Security.EvidenceInvariant
import TrwMemory.Sync.SyncHash

/-!
Reading a row back (`storage/_row_mapper.py`). A stored row is the entry whose
columns were written; `rowToEntry` is what a read makes of it: timestamps are
moved to UTC, an empty optional text is absent, and the validators of the model
run again, so that a row they refuse cannot be read, nor can one with a timestamp whose
shift to UTC leaves the years. Columns damaged outside the code
(malformed timestamps, unknown enumeration values) are not modelled.

What `store` and `update` make of one row (`storage/_crud_ops.py`). `store` numbers
`sync_seq` from the writer's copy, `update` from the row on disk. An update whose
row could not be read back raises inside the transaction, so it changes nothing.

The sidecar tables of a row are modelled with the database.
-/
namespace TrwMemory

def MAX_DOMAIN : Nat := 20
def MAX_PHASE_AFFINITY : Nat := 6
def MAX_ANCHORS : Nat := 3

/-- `str(raw) if raw else None`. -/
def textOrNone (raw : Option String) : Option String := raw.filter fun s => s != ""

/-- `_truncate_nudge_line`: at a blank among characters 60 to 79, else hard. -/
def truncateNudgeLine (v : String) : String :=
  if v.toList.length ≤ 80 then v
  else
    match (List.range' 60 20).find? fun i => v.toList[i]? == some ' ' with
    | some i => String.ofList (v.toList.take i ++ ['…'])
    | none => String.ofList (v.toList.take 80)

/-- The bi-temporal window: closed together with its closer, and not before it opened. -/
def validWindow (e : MemoryEntry) : Bool :=
  e.invalidFrom.isSome == e.invalidatedBy.isSome &&
    e.invalidFrom.all fun closed => e.validFrom.instant ≤ closed.instant

/-- The validators that run when an entry is built. Irreducible, so that no proof
evaluates rational comparisons by unfolding. -/
@[irreducible]
def validEntry (e : MemoryEntry) : Bool :=
  0 ≤ e.importance && e.importance ≤ 1 && validWindow e &&
    e.domain.length ≤ MAX_DOMAIN && e.phaseAffinity.length ≤ MAX_PHASE_AFFINITY &&
    e.anchors.length ≤ MAX_ANCHORS && e.anchorValidity.all fun v => 0 ≤ v && v ≤ 1

def readBack (row : MemoryEntry) : MemoryEntry :=
  { row with
    createdAt := row.createdAt.parseDt
    updatedAt := row.updatedAt.parseDt
    lastAccessedAt := row.lastAccessedAt.map Datetime.parseDt
    validFrom := row.validFrom.parseDt
    invalidFrom := row.invalidFrom.map Datetime.parseDt
    invalidatedBy := textOrNone row.invalidatedBy
    consolidatedInto := textOrNone row.consolidatedInto
    remoteId := textOrNone row.remoteId
    nudgeLine := truncateNudgeLine row.nudgeLine
    lastSyncedAt := row.lastSyncedAt.map Datetime.parseDt }

/-- The columns that `row_to_entry` moves to UTC. -/
def datetimes (row : MemoryEntry) : List Datetime :=
  [row.createdAt, row.updatedAt, row.validFrom] ++ row.invalidFrom.toList ++
    row.lastAccessedAt.toList ++ row.lastSyncedAt.toList

/-- No shift to UTC raises `OverflowError`. -/
def shifts (row : MemoryEntry) : Bool := (datetimes row).all fun d => d.toUtc.isSome

/-- `row_to_entry`; `none` is the model's `ValidationError` or the `OverflowError` of a shift. -/
def rowToEntry (row : MemoryEntry) : Option MemoryEntry :=
  if shifts row && validEntry (readBack row) then some (readBack row) else none

theorem rowToEntry_eq {row e : MemoryEntry} (h : rowToEntry row = some e) : e = readBack row := by
  unfold rowToEntry at h
  split at h
  · exact (Option.some.inj h).symm
  · cases h

theorem rowToEntry_shifts {row e : MemoryEntry} (h : rowToEntry row = some e) :
    shifts row = true := by
  unfold rowToEntry at h
  split at h
  · rename_i hboth
    exact (Bool.and_eq_true_iff.mp hboth).1
  · cases h

theorem rowToEntry_of_valid {row : MemoryEntry} (hshifts : shifts row = true)
    (hvalid : validEntry (readBack row) = true) : rowToEntry row = some (readBack row) := by
  rw [rowToEntry, hshifts, hvalid]
  rfl

theorem rowToEntry_of_shifts_eq_false {row : MemoryEntry} (h : shifts row = false) :
    rowToEntry row = none := by
  rw [rowToEntry, h]
  rfl

end TrwMemory

namespace TrwMemory.Storage

open Sync

inductive MapError where
  | overflow | invalid
  deriving DecidableEq, Repr

/-- `row_to_entry`, with the overflow of a shift. -/
def mapRow (row : MemoryEntry) : Except MapError MemoryEntry :=
  if shifts row then
    match rowToEntry row with
    | none => .error .invalid
    | some e => .ok e
  else .error .overflow

def readable (row : MemoryEntry) : Bool := (mapRow row).isOk

/-- `served_view(row_to_entry(row))`. -/
def readServed (row : MemoryEntry) : Except MapError MemoryEntry := (mapRow row).map servedView

/-- `fetch_rows_resilient`, where no text is damaged. -/
def fetchRows : List MemoryEntry → Except MapError (List MemoryEntry)
  | [] => .ok []
  | row :: rows =>
      match mapRow row with
      | .error .overflow => .error .overflow
      | .error .invalid => fetchRows rows
      | .ok e => (fetchRows rows).map (servedView e :: ·)

theorem mapRow_readable {row : MemoryEntry} (h : readable row = true) :
    mapRow row = .ok (readBack row) := by
  unfold readable at h
  cases hmap : mapRow row with
  | error _ =>
      rw [hmap] at h
      cases h
  | ok e =>
      unfold mapRow at hmap
      split at hmap
      · cases hread : rowToEntry row with
        | none => simp [hread] at hmap
        | some e' =>
            rw [hread] at hmap
            rw [← Except.ok.inj hmap, rowToEntry_eq hread]
      · cases hmap

/-- An entry as it is served. -/
def readOf (row : MemoryEntry) : MemoryEntry := servedView (readBack row)

theorem readOf_id (row : MemoryEntry) : (readOf row).id = row.id := servedView_id (readBack row)

theorem readServed_readable {row : MemoryEntry} (h : readable row = true) :
    readServed row = .ok (readOf row) := by
  rw [readServed, mapRow_readable h]
  rfl

theorem readServed_ok {row served : MemoryEntry} :
    readServed row = .ok served ↔ ∃ e, rowToEntry row = some e ∧ served = servedView e := by
  rw [readServed, mapRow]
  cases hshifts : shifts row with
  | false => simp [rowToEntry_of_shifts_eq_false hshifts, Except.map]
  | true => cases rowToEntry row <;> simp [Except.map, eq_comm]

theorem readServed_eq {row served : MemoryEntry} (h : readServed row = .ok served) :
    served = readOf row := by
  obtain ⟨e, he, rfl⟩ := readServed_ok.mp h
  rw [rowToEntry_eq he, readOf]

theorem fetchRows_ok {rows served : List MemoryEntry} (h : fetchRows rows = .ok served) :
    served = (rows.filter readable).map readOf := by
  induction rows generalizing served with
  | nil =>
      obtain rfl := Except.ok.inj h
      rfl
  | cons row rows ih =>
      rw [fetchRows] at h
      cases hmap : mapRow row with
      | error error =>
          have hreadable : readable row = false := by rw [readable, hmap]; rfl
          rw [List.filter_cons_of_neg (by simp [hreadable])]
          cases error with
          | overflow => simp [hmap] at h
          | invalid =>
              simp only [hmap] at h
              exact ih h
      | ok entry =>
          have hreadable : readable row = true := by rw [readable, hmap]; rfl
          have hentry : entry = readBack row :=
            Except.ok.inj (hmap.symm.trans (mapRow_readable hreadable))
          simp only [hmap] at h
          cases hrest : fetchRows rows with
          | error _ => simp [hrest, Except.map] at h
          | ok rest =>
              rw [hrest] at h
              obtain rfl := Except.ok.inj h
              rw [List.filter_cons_of_pos hreadable, List.map_cons, ← ih hrest, hentry, readOf]

theorem fetchRows_readable {rows : List MemoryEntry} (h : ∀ row ∈ rows, readable row = true) :
    fetchRows rows = .ok (rows.map readOf) := by
  induction rows with
  | nil => rfl
  | cons row rows ih =>
      rw [List.forall_mem_cons] at h
      simp only [fetchRows, mapRow_readable h.1, ih h.2]
      rfl

/-- One timestamp that overflows makes the whole listing raise. -/
theorem fetchRows_overflow {rows : List MemoryEntry} {row : MemoryEntry} (hrow : row ∈ rows)
    (h : shifts row = false) : fetchRows rows = .error .overflow := by
  induction rows with
  | nil => cases hrow
  | cons first rows ih =>
      rw [fetchRows]
      obtain rfl | hrow := List.mem_cons.mp hrow
      · rw [mapRow, h]
        rfl
      · rw [ih hrow]
        cases mapRow first with
        | error error => cases error <;> rfl
        | ok e => rfl

theorem fetchRows_shifts {rows : List MemoryEntry} (h : ∀ row ∈ rows, shifts row = true) :
    fetchRows rows = .ok ((rows.filter readable).map readOf) := by
  induction rows with
  | nil => rfl
  | cons row rows ih =>
      rw [List.forall_mem_cons] at h
      cases hreadable : readable row with
      | true =>
          simp only [fetchRows, mapRow_readable hreadable, ih h.2]
          rw [List.filter_cons_of_pos hreadable]
          rfl
      | false =>
          have hmap : mapRow row = .error .invalid := by
            rw [readable, mapRow, h.1] at hreadable
            rw [mapRow, h.1]
            cases hread : rowToEntry row with
            | none => rfl
            | some e =>
                rw [hread] at hreadable
                cases hreadable
          simp only [fetchRows, hmap, ih h.2]
          rw [List.filter_cons_of_neg (by simp [hreadable])]

def MAX_ENTRY_ID_CHARS : Nat := 4096

inductive WriteError where
  | schema (error : SchemaValidationError)
  | unreadable (entryId : String)
  deriving DecidableEq, Repr

/-- `validate_entry_for_write`; texts of the model are UTF-8 already. -/
def validateEntryForWrite (entry : MemoryEntry) : Except WriteError Unit :=
  if MAX_ENTRY_ID_CHARS < entry.id.length then
    .error <| .schema
      { message := "Write rejected: entry id is " ++ toString entry.id.length ++
          " characters, over " ++ toString MAX_ENTRY_ID_CHARS
        failedFields := ["id"]
        reason := "entry_id_too_long" }
  else .ok ()

/-- The evidence check of `store`, which reads the replaced row only for a violating
entry. -/
def refuseViolation (replaced : Option MemoryEntry) (entry : MemoryEntry) :
    Except WriteError Unit :=
  if violatesEvidenceInvariant entry then
    match replaced with
    | none => (refuseNewViolation none entry).mapError .schema
    | some row =>
        match rowToEntry row with
        | none => .error (.unreadable entry.id)
        | some existing => (refuseNewViolation (some existing) entry).mapError .schema
  else .ok ()

/-- The sync bookkeeping of `store` and `store_many`. -/
def stampSync (digest : SyncContent → String) (entry : MemoryEntry) : MemoryEntry :=
  { entry with
    syncSeq := entry.syncSeq + 1
    syncHash := computeSyncHash digest entry
    lastSyncedAt := none }

/-- `store`: the row that replaces `replaced`. -/
def storeRow (digest : SyncContent → String) (replaced : Option MemoryEntry)
    (entry : MemoryEntry) : Except WriteError MemoryEntry := do
  validateEntryForWrite entry
  refuseViolation replaced entry
  return stampSync digest entry

/-- An update that names a sync field leaves all of them to its caller. -/
def namesSync (fields : Patch) : Bool :=
  fields.names .syncSeq || fields.names .syncHash || fields.names .lastSyncedAt

/-- The `updated_at` default. -/
def datedFields (fields : Patch) (now : Datetime) : Patch :=
  if !fields.names .updatedAt && !fields.fields.all BOOKKEEPING_FIELDS.contains then
    fields.set .updatedAt now
  else fields

/-- Every column of the UPDATE statement, from the entry that was read. -/
def updateFields (digest : SyncContent → String) (existing : MemoryEntry) (fields : Patch)
    (now : Datetime) : Patch :=
  let fields := datedFields fields now
  if namesSync fields then fields
  else
    ((fields.set .syncSeq (existing.syncSeq + 1)).set .syncHash
      (computeSyncHash digest (existing.patched fields))).set .lastSyncedAt none

/-- `update` after its read of `existing`: the evidence check, the UPDATE statement and
the read back of the row. -/
def finishUpdate (digest : SyncContent → String) (row existing : MemoryEntry) (fields : Patch)
    (now : Datetime) : Except WriteError MemoryEntry :=
  match refuseNewViolation (some existing) (existing.patched (datedFields fields now)) with
  | .error refusal => .error (.schema refusal)
  | .ok () =>
      let written := row.patched (updateFields digest existing fields now)
      if (rowToEntry written).isSome then .ok written else .error (.unreadable row.id)

/-- `update` of the row `row`: what the transaction commits. -/
def updateRow (digest : SyncContent → String) (row : MemoryEntry) (fields : Patch)
    (now : Datetime) : Except WriteError MemoryEntry :=
  if fields.fields.isEmpty then .ok row
  else
    match rowToEntry row with
    | none => .error (.unreadable row.id)
    | some existing => finishUpdate digest row existing fields now

/-- Columns an update writes without being asked to. -/
def ownColumns : List Column := [.updatedAt, .syncSeq, .syncHash, .lastSyncedAt]

theorem datedFields_other (fields : Patch) (now : Datetime) {c : Column} (hc : c ≠ .updatedAt) :
    datedFields fields now c = fields c := by
  unfold datedFields
  split
  · exact Patch.set_other _ _ hc.symm
  · rfl

theorem namesSync_datedFields (fields : Patch) (now : Datetime) :
    namesSync (datedFields fields now) = namesSync fields := by
  simp only [namesSync, Patch.names, datedFields_other fields now (by decide : Column.syncSeq ≠ _),
    datedFields_other fields now (by decide : Column.syncHash ≠ _),
    datedFields_other fields now (by decide : Column.lastSyncedAt ≠ _)]

section UpdateFields

variable (digest : SyncContent → String) (existing : MemoryEntry) (fields : Patch) (now : Datetime)

theorem updateFields_named (h : namesSync fields = true) :
    updateFields digest existing fields now = datedFields fields now :=
  if_pos ((namesSync_datedFields fields now).trans h)

/-- The update renews the sync columns itself. -/
theorem updateFields_unnamed (h : namesSync fields = false) :
    updateFields digest existing fields now =
      (((datedFields fields now).set .syncSeq (existing.syncSeq + 1)).set .syncHash
        (computeSyncHash digest (existing.patched (datedFields fields now)))).set
          .lastSyncedAt none :=
  if_neg (by rw [namesSync_datedFields, h]; decide)

theorem updateFields_other {c : Column} (hc : c ∉ ownColumns) :
    updateFields digest existing fields now c = fields c := by
  simp only [ownColumns, List.mem_cons, List.not_mem_nil, or_false, not_or] at hc
  obtain ⟨hdated, hseq, hhash, hsynced⟩ := hc
  cases hn : namesSync fields with
  | true =>
      rw [updateFields_named digest existing fields now hn]
      exact datedFields_other fields now hdated
  | false =>
      rw [updateFields_unnamed digest existing fields now hn,
        Patch.set_other _ _ (Ne.symm hsynced), Patch.set_other _ _ (Ne.symm hhash),
        Patch.set_other _ _ (Ne.symm hseq)]
      exact datedFields_other fields now hdated

end UpdateFields

/-- The number an update gives the row. -/
def updateSeq (row : MemoryEntry) (fields : Patch) : Int :=
  if namesSync fields then (fields .syncSeq).getD row.syncSeq else row.syncSeq + 1

theorem patched_updateFields_syncSeq (digest : SyncContent → String) (row existing : MemoryEntry)
    (fields : Patch) (now : Datetime) (hseq : existing.syncSeq = row.syncSeq) :
    (row.patched (updateFields digest existing fields now)).syncSeq = updateSeq row fields := by
  cases hn : namesSync fields with
  | true =>
      rw [updateFields_named digest existing fields now hn, updateSeq, hn]
      simp only [MemoryEntry.patched, datedFields_other fields now
        (by decide : Column.syncSeq ≠ .updatedAt), ite_true]
  | false =>
      rw [updateFields_unnamed digest existing fields now hn, updateSeq, hn]
      simp [MemoryEntry.patched, Patch.set_other, hseq]

theorem syncContent_updateFields (digest : SyncContent → String) (row existing : MemoryEntry)
    (fields : Patch) (now : Datetime) :
    syncContent (readBack (row.patched (updateFields digest existing fields now))) =
      syncContent (readBack (row.patched fields)) := by
  have hother : ∀ c ∉ ownColumns, updateFields digest existing fields now c = fields c :=
    fun c hc => updateFields_other digest existing fields now hc
  simp (disch := decide) only [syncContent, readBack, MemoryEntry.patched, hother]

theorem finishUpdate_ok {digest : SyncContent → String} {row existing written : MemoryEntry}
    {fields : Patch} {now : Datetime}
    (h : finishUpdate digest row existing fields now = .ok written) :
    written = row.patched (updateFields digest existing fields now) ∧
      rowToEntry written = some (readBack written) := by
  unfold finishUpdate at h
  split at h
  · cases h
  · dsimp only at h
    split at h
    · rename_i hback
      obtain rfl := Except.ok.inj h
      obtain ⟨e, he⟩ := Option.isSome_iff_exists.mp hback
      exact ⟨rfl, rowToEntry_eq he ▸ he⟩
    · cases h

/-- The row an update commits, when it commits one; a call that names no field is a
read. -/
theorem updateRow_ok {digest : SyncContent → String} {row written : MemoryEntry} {fields : Patch}
    {now : Datetime} (h : updateRow digest row fields now = .ok written) :
    (fields.fields.isEmpty = true ∧ written = row) ∨
      (fields.fields.isEmpty = false ∧ ∃ existing, rowToEntry row = some existing ∧
        written = row.patched (updateFields digest existing fields now) ∧
        rowToEntry written = some (readBack written)) := by
  unfold updateRow at h
  split at h
  · rename_i hempty
    exact .inl ⟨hempty, (Except.ok.inj h).symm⟩
  · rename_i hempty
    cases hread : rowToEntry row with
    | none => simp [hread] at h
    | some existing =>
        simp only [hread] at h
        exact .inr ⟨by simpa using hempty, existing, rfl, finishUpdate_ok h⟩

theorem storeRow_ok {digest : SyncContent → String} {replaced : Option MemoryEntry}
    {entry written : MemoryEntry} (h : storeRow digest replaced entry = .ok written) :
    written = stampSync digest entry := by
  unfold storeRow at h
  cases hv : validateEntryForWrite entry with
  | error _ => simp [hv] at h; cases h
  | ok _ =>
      cases hr : refuseViolation replaced entry with
      | error _ => simp [hv, hr] at h; cases h
      | ok _ =>
          simp only [hv, hr] at h
          exact (Except.ok.inj h).symm

end TrwMemory.Storage

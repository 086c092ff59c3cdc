import TrwMemory.Library.Transition
import TrwMemory.Storage.RowWrites

/-!
The revision-checked acknowledgement (`ack_publish`, `ack_revision`) and the writers
of the row it checks: `store`, `update`, and the two graph passes that write the
importance directly. An `update` holds the write lock from its read of the row to
its write, so nobody else writes in between. Under `KeepsHash` a write either renews the
hash from the row as it will be read, or leaves the hash and every field that it covers;
after another one the hash is behind until a write renews it (`follows`).

A float is the decimal it stands for: the error of float arithmetic is below the
precision that is hashed, and is not modelled. Nor are an importance of `-0.0` and one
given as an integer, which the hashed JSON writes in their own ways.
-/
namespace TrwMemory.Sync

open Library.Transition Storage

def DECAY_DELTA : Rat := 1 / 10

/-- Python's `round(value, 4)`. -/
def round4 (value : Rat) : Rat := roundHalfEven (value * 10000) / 10000

/-- `COALESCE(last_accessed_at, created_at) < cutoff`; the stored texts are in UTC, so
they order as instants. -/
def decayEligible (cutoff : Datetime) (row : MemoryEntry) : Bool :=
  (row.lastAccessedAt.getD row.createdAt).instant < cutoff.instant

/-- What `memory_decay_pass` makes of a row it examines. -/
def decayRow (cutoff : Datetime) (outcome : String) (row : MemoryEntry) : MemoryEntry :=
  if decayEligible cutoff row then
    { row with
      importance := max (round4 (row.importance - DECAY_DELTA)) 0
      outcomeHistory := row.outcomeHistory ++ [outcome] }
  else row

/-- What `propagate_impact` makes of a row it reaches. -/
def propagateRow (propagated : Rat) (outcome : String) (row : MemoryEntry) : MemoryEntry :=
  { row with
    importance := min (max (row.importance + propagated) 0) 1
    outcomeHistory := row.outcomeHistory ++ [outcome] }

/-- The `(sync_seq, sync_hash)` of a published snapshot. -/
abbrev Revision := Int × String

/-- Whether the row that was read is still the published revision. -/
def stillRevision (current : MemoryEntry) (revision : Option Revision) : Bool :=
  revision == some (current.syncSeq, current.syncHash)

/-- The fields an acknowledgement writes. -/
def ackFields (fields : Patch) (clean : Bool) (now : Datetime) : Patch :=
  if clean then fields.set .lastSyncedAt (some now) else fields

/-- `ack_revision`: the row after it and whether it was stamped. A raise leaves the
row as it was, since compare and write share one transaction. -/
def ackRevision (digest : SyncContent → String) (row : Option MemoryEntry)
    (blocks : MemoryEntry → Bool) (revision : Option Revision) (fields : Patch) (now : Datetime) :
    Except WriteError (Option MemoryEntry × Bool) :=
  match row with
  | none => .ok (none, false)
  | some stored =>
      match rowToEntry stored with
      | none => .error (.unreadable stored.id)
      | some current =>
          if blocks (servedView current) then .ok (some stored, false)
          else
            let clean := stillRevision current revision
            (updateRow digest stored (ackFields fields clean now) now).map fun written =>
              (some written, clean)

/-- An `update` between its read of the row and its write. -/
structure PendingUpdate where
  existing : MemoryEntry
  fields : Patch
  now : Datetime

structure RevisionState where
  row : Option MemoryEntry
  pending : Option PendingUpdate

inductive RevisionEvent where
  | store (entry : MemoryEntry)
  | updateBegin (fields : Patch) (now : Datetime)
  | updateFinish
  | decay (cutoff : Datetime) (outcome : String)
  | propagate (propagated : Rat) (outcome : String)
  | ack (blocks : MemoryEntry → Bool) (revision : Option Revision) (fields : Patch)
      (now : Datetime)

namespace RevisionState

def start (row : Option MemoryEntry) : RevisionState := ⟨row, none⟩

/-- A write that raises changes nothing. -/
def commit (s : RevisionState) (result : Except WriteError MemoryEntry) : RevisionState :=
  match result with
  | .ok row => ⟨some row, none⟩
  | .error _ => ⟨s.row, none⟩

/-- No event but its own second half is enabled while an update holds the lock. -/
def step (digest : SyncContent → String) (s : RevisionState) (e : RevisionEvent) :
    Option RevisionState :=
  match s.pending with
  | some update =>
      match e with
      | .updateFinish =>
          s.row.map fun row =>
            s.commit (finishUpdate digest row update.existing update.fields update.now)
      | _ => none
  | none =>
      match e with
      | .store entry => some (s.commit (storeRow digest s.row entry))
      | .updateBegin fields now =>
          if fields.fields.isEmpty then some s
          else
            match s.row.bind rowToEntry with
            | none => some s
            | some existing => some { s with pending := some ⟨existing, fields, now⟩ }
      | .updateFinish => none
      | .decay cutoff outcome => some { s with row := s.row.map (decayRow cutoff outcome) }
      | .propagate propagated outcome =>
          some { s with row := s.row.map (propagateRow propagated outcome) }
      | .ack blocks revision fields now =>
          match ackRevision digest s.row blocks revision fields now with
          | .ok (row, _) => some { s with row }
          | .error _ => some s

end RevisionState

def revisionMachine (digest : SyncContent → String) : Machine RevisionState RevisionEvent :=
  ⟨RevisionState.step digest⟩

/-- The columns of `_HASH_FIELDS`. -/
def hashedColumns : List Column :=
  [.content, .detail, .tags, .evidence, .importance, .status, .type, .confidence, .domain,
    .phaseAffinity, .metadata, .invalidFrom, .invalidatedBy]

/-- The close of the window is written as it will be read: in UTC, with a named
closer. -/
def ConformingEntry (e : MemoryEntry) : Prop :=
  e.invalidFrom.map Datetime.parseDt = e.invalidFrom ∧ e.invalidatedBy ≠ some ""

/-- The same of a patch; one that names a sync field leaves the hash and what it
covers alone. -/
def ConformingPatch (fields : Patch) : Prop :=
  (∀ closed ∈ fields .invalidFrom, closed.map Datetime.parseDt = closed) ∧
    fields .invalidatedBy ≠ some (some "") ∧
    (namesSync fields = true → fields.names .syncHash = false ∧
      ∀ c ∈ hashedColumns, fields.names c = false)

instance (e : MemoryEntry) : Decidable (ConformingEntry e) := inferInstanceAs (Decidable (_ ∧ _))

instance (fields : Patch) : Decidable (ConformingPatch fields) :=
  inferInstanceAs (Decidable (_ ∧ _ ∧ _))

/-- The step keeps the hash up to date: writes conform, and the graph passes leave the hashed
importance as it is. -/
def KeepsHash (s : RevisionState) : RevisionEvent → Prop
  | .store entry => ConformingEntry entry
  | .updateBegin fields _ => ConformingPatch fields
  | .updateFinish => True
  | .decay cutoff outcome =>
      ∀ row ∈ s.row,
        millionths (decayRow cutoff outcome row).importance = millionths row.importance
  | .propagate propagated outcome =>
      ∀ row ∈ s.row,
        millionths (propagateRow propagated outcome row).importance = millionths row.importance
  | .ack _ _ fields now => ConformingPatch (fields.set .lastSyncedAt (some now))

instance (s : RevisionState) (e : RevisionEvent) : Decidable (KeepsHash s e) :=
  match e with
  | .store _ => inferInstanceAs (Decidable (_ ∧ _))
  | .updateBegin fields _ => inferInstanceAs (Decidable (ConformingPatch fields))
  | .updateFinish => isTrue trivial
  | .decay _ _ => inferInstanceAs (Decidable (∀ row ∈ s.row, _))
  | .propagate _ _ => inferInstanceAs (Decidable (∀ row ∈ s.row, _))
  | .ack _ _ fields _ => inferInstanceAs (Decidable (ConformingPatch (fields.set _ _)))

/-- A write that is not refused and hashes the row as it will be read. -/
def renews (digest : SyncContent → String) (s : RevisionState) : RevisionEvent → Bool
  | .store entry => decide (ConformingEntry entry) && (storeRow digest s.row entry).isOk
  | .updateFinish =>
      match s.pending, s.row with
      | some update, some row =>
          decide (ConformingPatch update.fields) && !namesSync update.fields &&
            (finishUpdate digest row update.existing update.fields update.now).isOk
      | _, _ => false
  | .updateBegin _ _ | .decay _ _ | .propagate _ _ | .ack _ _ _ _ => false

/-- Whether the hash is up to date after a run: every step that it does not follow comes before a
write that renews it. -/
def follows (digest : SyncContent → String) : Bool → RevisionState → List RevisionEvent → Bool
  | upToDate, _, [] => upToDate
  | upToDate, s, e :: events =>
      match s.step digest e with
      | none => upToDate
      | some t => follows digest (renews digest s e || upToDate && decide (KeepsHash s e)) t events

/-- A hash that is set is the hash of the row's current fields. -/
def HashCurrent (digest : SyncContent → String) (row : MemoryEntry) : Prop :=
  row.syncHash ≠ "" → row.syncHash = computeSyncHash digest (readBack row)

/-- A write that gave the row a new hash. -/
def Renewed (digest : SyncContent → String) (row : MemoryEntry) : Prop :=
  row.syncHash = computeSyncHash digest (readBack row)

/-- A write that left the hash and what it covers. -/
def Kept (row written : MemoryEntry) : Prop :=
  written.syncHash = row.syncHash ∧
    syncContent (readBack written) = syncContent (readBack row)

theorem Kept.refl (row : MemoryEntry) : Kept row row := ⟨rfl, rfl⟩

theorem Renewed.current {digest : SyncContent → String} {row : MemoryEntry}
    (h : Renewed digest row) : HashCurrent digest row :=
  fun _ => h

theorem Kept.current {digest : SyncContent → String} {row written : MemoryEntry}
    (h : Kept row written) (hrow : HashCurrent digest row) : HashCurrent digest written := by
  intro hset
  rw [computeSyncHash, h.2, h.1]
  exact hrow (h.1 ▸ hset)

theorem syncContent_readBack {e : MemoryEntry} (he : ConformingEntry e) :
    syncContent (readBack e) = syncContent e := by
  obtain ⟨hclose, hcloser⟩ := he
  have hnamed : textOrNone e.invalidatedBy = e.invalidatedBy := by
    cases hby : e.invalidatedBy with
    | none => rfl
    | some closer =>
        have hne : closer ≠ "" := by
          rintro rfl
          exact hcloser hby
        simp [textOrNone, Option.filter, hne]
  simp only [syncContent, readBack, hclose, hnamed]

theorem renewed_stampSync (digest : SyncContent → String) {e : MemoryEntry}
    (he : ConformingEntry e) : Renewed digest (stampSync digest e) := by
  have hcontent : syncContent (readBack (stampSync digest e)) = syncContent (readBack e) := rfl
  rw [Renewed, computeSyncHash, hcontent, syncContent_readBack he]
  rfl

/-- The entry an update hashes, and the row it will be read as. -/
theorem syncContent_patched {row : MemoryEntry} {fields : Patch} (hfields : ConformingPatch fields)
    (now : Datetime) :
    syncContent ((readBack row).patched (datedFields fields now)) =
      syncContent (readBack (row.patched fields)) := by
  obtain ⟨hclose, hcloser, -⟩ := hfields
  have hother : ∀ c ≠ .updatedAt, datedFields fields now c = fields c :=
    fun c hc => datedFields_other fields now hc
  have hfrom : (fields .invalidFrom).getD (row.invalidFrom.map Datetime.parseDt) =
      ((fields .invalidFrom).getD row.invalidFrom).map Datetime.parseDt := by
    cases hf : fields .invalidFrom with
    | none => rfl
    | some closed => exact (hclose closed hf).symm
  have hby : (fields .invalidatedBy).getD (textOrNone row.invalidatedBy) =
      textOrNone ((fields .invalidatedBy).getD row.invalidatedBy) := by
    cases hf : fields .invalidatedBy with
    | none => rfl
    | some closer =>
        cases closer with
        | none => rfl
        | some name =>
            have hne : name ≠ "" := by
              rintro rfl
              exact hcloser hf
            simp [textOrNone, Option.filter, hne]
  simp (disch := decide) only [syncContent, readBack, MemoryEntry.patched, hother, hfrom, hby]

/-- An update that names no sync field renews the hash. -/
theorem renewed_updated (digest : SyncContent → String) {row existing : MemoryEntry}
    {fields : Patch} (now : Datetime) (hread : rowToEntry row = some existing)
    (hfields : ConformingPatch fields) (hunnamed : namesSync fields = false) :
    Renewed digest (row.patched (updateFields digest existing fields now)) := by
  obtain rfl := rowToEntry_eq hread
  rw [Renewed, computeSyncHash, syncContent_updateFields, ← syncContent_patched hfields now,
    updateFields_unnamed digest _ fields now hunnamed]
  simp [MemoryEntry.patched, Patch.set_other, computeSyncHash]

/-- An update either renews the hash or leaves it and what it covers. -/
theorem updated_row (digest : SyncContent → String) {row existing : MemoryEntry} {fields : Patch}
    (now : Datetime) (hread : rowToEntry row = some existing) (hfields : ConformingPatch fields) :
    Renewed digest (row.patched (updateFields digest existing fields now)) ∨
      Kept row (row.patched (updateFields digest existing fields now)) := by
  cases hn : namesSync fields with
  | true =>
      right
      obtain rfl := rowToEntry_eq hread
      obtain ⟨hhash, hcovered⟩ := hfields.2.2 hn
      refine ⟨?_, ?_⟩
      · have hnone : updateFields digest (readBack row) fields now .syncHash = none := by
          rw [updateFields_named digest _ fields now hn, datedFields_other fields now (by decide)]
          simpa [Patch.names] using hhash
        simp only [MemoryEntry.patched, hnone, Option.getD_none]
      · rw [syncContent_updateFields]
        have hnone : ∀ c ∈ hashedColumns, fields c = none := fun c hc => by
          simpa [Patch.names] using hcovered c hc
        simp (disch := decide) only [syncContent, readBack, MemoryEntry.patched, hnone,
          Option.getD_none]
  | false => exact .inl (renewed_updated digest now hread hfields hn)

theorem conforming_ackFields {fields : Patch} {now : Datetime} (clean : Bool)
    (h : ConformingPatch (fields.set .lastSyncedAt (some now))) :
    ConformingPatch (ackFields fields clean now) := by
  cases clean with
  | true => exact h
  | false =>
      have hother : ∀ c ≠ .lastSyncedAt,
          (fields.set .lastSyncedAt (some now)) c = fields c :=
        fun c hc => Patch.set_other _ _ (Ne.symm hc)
      obtain ⟨hclose, hcloser, hsync⟩ := h
      have hnames : namesSync (fields.set .lastSyncedAt (some now)) = true := by
        simp [namesSync, Patch.names]
      obtain ⟨hhash, hcovered⟩ := hsync hnames
      rw [show ackFields fields false now = fields from rfl]
      refine ⟨?_, ?_, ?_⟩
      · simpa (disch := decide) only [hother] using hclose
      · simpa (disch := decide) only [hother] using hcloser
      · intro _
        refine ⟨?_, ?_⟩
        · simpa (disch := decide) only [Patch.names, hother] using hhash
        · intro c hc
          have hne : c ≠ .lastSyncedAt := by
            rintro rfl
            revert hc
            decide
          simpa only [Patch.names, hother c hne] using hcovered c hc

theorem kept_importance (row : MemoryEntry) {importance : Rat} (outcomes : List String)
    (h : millionths importance = millionths row.importance) :
    Kept row { row with importance := importance, outcomeHistory := outcomes } := by
  refine ⟨rfl, ?_⟩
  simp only [syncContent, readBack, h]

theorem kept_decayRow {cutoff : Datetime} {outcome : String} {row : MemoryEntry}
    (h : millionths (decayRow cutoff outcome row).importance = millionths row.importance) :
    Kept row (decayRow cutoff outcome row) := by
  unfold decayRow at h ⊢
  split
  · rename_i heligible
    rw [if_pos heligible] at h
    exact kept_importance row _ h
  · exact .refl row

/-- While an update holds the lock, the row is the one it read. -/
def RevisionState.LockHeld (s : RevisionState) : Prop :=
  ∀ update ∈ s.pending, ConformingPatch update.fields ∧
    s.row.bind rowToEntry = some update.existing

/-- The row is the old one, or its hash is new, or its hash and content are the old
row's. -/
def RowStep (digest : SyncContent → String) (row row' : Option MemoryEntry) : Prop :=
  ∀ written ∈ row', Renewed digest written ∨ ∃ old ∈ row, Kept old written

theorem RowStep.refl (digest : SyncContent → String) (row : Option MemoryEntry) :
    RowStep digest row row :=
  fun written h => .inr ⟨written, h, .refl written⟩

theorem rowStep_commit {digest : SyncContent → String} {s : RevisionState}
    {result : Except WriteError MemoryEntry}
    (h : ∀ written, result = .ok written → RowStep digest s.row (some written)) :
    RowStep digest s.row (s.commit result).row := by
  cases result with
  | error _ => exact .refl digest s.row
  | ok written => exact h written rfl

theorem rowStep_map {digest : SyncContent → String} {row : Option MemoryEntry}
    {f : MemoryEntry → MemoryEntry} (h : ∀ old ∈ row, Kept old (f old)) :
    RowStep digest row (row.map f) := by
  intro written hwritten
  obtain ⟨old, hold, rfl⟩ := Option.map_eq_some_iff.mp hwritten
  exact .inr ⟨old, hold, h old hold⟩

theorem rowStep_updateRow {digest : SyncContent → String} {row written : MemoryEntry}
    {fields : Patch} {now : Datetime} (hfields : ConformingPatch fields)
    (h : updateRow digest row fields now = .ok written) :
    RowStep digest (some row) (some written) := by
  rintro _ ⟨⟩
  rcases updateRow_ok h with ⟨-, rfl⟩ | ⟨-, existing, hread, rfl, -⟩
  · exact .inr ⟨written, rfl, .refl written⟩
  · rcases updated_row digest now hread hfields with hnew | hkept
    · exact .inl hnew
    · exact .inr ⟨row, rfl, hkept⟩

theorem ackRevision_row {digest : SyncContent → String} {row row' : Option MemoryEntry}
    {blocks : MemoryEntry → Bool} {revision : Option Revision} {fields : Patch} {now : Datetime}
    {stamped : Bool} (hfields : ConformingPatch (fields.set .lastSyncedAt (some now)))
    (h : ackRevision digest row blocks revision fields now = .ok (row', stamped)) :
    RowStep digest row row' := by
  cases row with
  | none =>
      obtain ⟨rfl, -⟩ := Prod.mk.inj (Except.ok.inj h)
      exact .refl digest none
  | some stored =>
      simp only [ackRevision] at h
      cases hread : rowToEntry stored with
      | none => simp [hread] at h
      | some current =>
          simp only [hread] at h
          split at h
          · obtain ⟨rfl, -⟩ := Prod.mk.inj (Except.ok.inj h)
            exact .refl digest _
          · cases hupdate : updateRow digest stored
                (ackFields fields (stillRevision current revision) now) now with
            | error _ =>
                rw [hupdate] at h
                cases h
            | ok written =>
                rw [hupdate] at h
                obtain ⟨rfl, -⟩ := Prod.mk.inj (Except.ok.inj h)
                exact rowStep_updateRow (conforming_ackFields _ hfields) hupdate

theorem RevisionState.row_step {digest : SyncContent → String} {s t : RevisionState}
    {e : RevisionEvent} (hlock : s.LockHeld) (hkeeps : KeepsHash s e)
    (hstep : s.step digest e = some t) : t.LockHeld ∧ RowStep digest s.row t.row := by
  have hfree : ∀ {row : Option MemoryEntry}, LockHeld ⟨row, none⟩ := fun _ h => by cases h
  unfold RevisionState.step at hstep
  cases hpending : s.pending with
  | some update =>
      simp only [hpending] at hstep
      cases e with
      | updateFinish =>
          obtain ⟨hfields, hread⟩ := hlock update hpending
          obtain ⟨row, hrow, rfl⟩ := Option.map_eq_some_iff.mp hstep
          refine ⟨?_, rowStep_commit fun written hwritten => ?_⟩
          · unfold RevisionState.commit
            split <;> exact hfree
          · rw [hrow, Option.bind_some] at hread
            obtain ⟨rfl, -⟩ := finishUpdate_ok hwritten
            rintro _ ⟨⟩
            rcases updated_row digest update.now hread hfields with hnew | hkept
            · exact .inl hnew
            · exact .inr ⟨row, hrow, hkept⟩
      | _ => cases hstep
  | none =>
      simp only [hpending] at hstep
      have hsame : s.LockHeld := hlock
      cases e with
      | store entry =>
          obtain rfl := Option.some.inj hstep
          refine ⟨?_, rowStep_commit fun written hwritten => ?_⟩
          · unfold RevisionState.commit
            split <;> exact hfree
          · obtain rfl := storeRow_ok hwritten
            rintro _ ⟨⟩
            exact .inl (renewed_stampSync digest hkeeps)
      | updateBegin fields now =>
          by_cases hempty : fields.fields.isEmpty = true
          · simp only [hempty, if_true] at hstep
            obtain rfl := Option.some.inj hstep
            exact ⟨hsame, .refl digest _⟩
          · simp only [hempty] at hstep
            cases hread : s.row.bind rowToEntry with
            | none =>
                simp only [hread] at hstep
                obtain rfl := Option.some.inj hstep
                exact ⟨hsame, .refl digest _⟩
            | some existing =>
                simp only [hread] at hstep
                obtain rfl := Option.some.inj hstep
                refine ⟨?_, .refl digest _⟩
                rintro _ ⟨⟩
                exact ⟨hkeeps, hread⟩
      | updateFinish => cases hstep
      | decay cutoff outcome =>
          obtain rfl := Option.some.inj hstep
          exact ⟨fun _ h => by simp at h,
            rowStep_map fun old hold => kept_decayRow (hkeeps old hold)⟩
      | propagate propagated outcome =>
          obtain rfl := Option.some.inj hstep
          exact ⟨fun _ h => by simp at h,
            rowStep_map fun old hold => kept_importance old _ (hkeeps old hold)⟩
      | ack blocks revision fields now =>
          cases hack : ackRevision digest s.row blocks revision fields now with
          | error _ =>
              simp only [hack] at hstep
              obtain rfl := Option.some.inj hstep
              exact ⟨hsame, .refl digest _⟩
          | ok result =>
              obtain ⟨row, stamped⟩ := result
              simp only [hack] at hstep
              obtain rfl := Option.some.inj hstep
              exact ⟨fun _ h => by simp at h, ackRevision_row hkeeps hack⟩

/-- A pending update has read the row as it is, whatever it writes. -/
def RevisionState.ReadHeld (s : RevisionState) : Prop :=
  ∀ update ∈ s.pending, s.row.bind rowToEntry = some update.existing

theorem readHeld_free (row : Option MemoryEntry) : RevisionState.ReadHeld ⟨row, none⟩ :=
  fun _ h => by cases h

theorem RevisionState.readHeld_step {digest : SyncContent → String} {s t : RevisionState}
    {e : RevisionEvent} (hstep : s.step digest e = some t) : t.ReadHeld := by
  have hcommit : ∀ result, (s.commit result).ReadHeld := by
    intro result
    unfold RevisionState.commit
    split <;> exact readHeld_free _
  unfold RevisionState.step at hstep
  cases hpending : s.pending with
  | some update =>
      simp only [hpending] at hstep
      cases e with
      | updateFinish =>
          obtain ⟨row, -, rfl⟩ := Option.map_eq_some_iff.mp hstep
          exact hcommit _
      | _ => cases hstep
  | none =>
      have hfree : ∀ row, RevisionState.ReadHeld { s with row } := by
        intro row update h
        rw [hpending] at h
        cases h
      simp only [hpending] at hstep
      cases e with
      | store entry =>
          obtain rfl := Option.some.inj hstep
          exact hcommit _
      | updateBegin fields now =>
          dsimp only at hstep
          split at hstep
          · obtain rfl := Option.some.inj hstep
            exact hfree s.row
          · cases hread : s.row.bind rowToEntry with
            | none =>
                simp only [hread] at hstep
                obtain rfl := Option.some.inj hstep
                exact hfree s.row
            | some existing =>
                simp only [hread] at hstep
                obtain rfl := Option.some.inj hstep
                rintro _ ⟨⟩
                exact hread
      | updateFinish => cases hstep
      | decay cutoff outcome =>
          obtain rfl := Option.some.inj hstep
          exact readHeld_free _
      | propagate propagated outcome =>
          obtain rfl := Option.some.inj hstep
          exact readHeld_free _
      | ack blocks revision fields now =>
          dsimp only at hstep
          split at hstep
          · obtain rfl := Option.some.inj hstep
            exact readHeld_free _
          · obtain rfl := Option.some.inj hstep
            exact hfree s.row

/-- After a write that renews the hash nothing is pending, and the hash is that of the row. -/
theorem RevisionState.renews_step {digest : SyncContent → String} {s t : RevisionState}
    {e : RevisionEvent} (hheld : s.ReadHeld) (hrenews : renews digest s e = true)
    (hstep : s.step digest e = some t) :
    t.pending = none ∧ ∀ row ∈ t.row, Renewed digest row := by
  cases e with
  | updateBegin _ _ | decay _ _ | propagate _ _ | ack _ _ _ _ => cases hrenews
  | store entry =>
      rw [renews, Bool.and_eq_true, decide_eq_true_iff] at hrenews
      obtain ⟨hconforms, hok⟩ := hrenews
      unfold RevisionState.step at hstep
      split at hstep
      · cases hstep
      · obtain rfl := Option.some.inj hstep
        cases hwritten : storeRow digest s.row entry with
        | error _ =>
            rw [hwritten] at hok
            cases hok
        | ok written =>
            refine ⟨rfl, ?_⟩
            rintro _ ⟨⟩
            rw [storeRow_ok hwritten]
            exact renewed_stampSync digest hconforms
  | updateFinish =>
      rw [renews] at hrenews
      split at hrenews
      · rename_i update row hpending hrow
        simp only [Bool.and_eq_true, decide_eq_true_iff, Bool.not_eq_true'] at hrenews
        obtain ⟨⟨hconforms, hunnamed⟩, hok⟩ := hrenews
        have hread := hheld update hpending
        rw [hrow, Option.bind_some] at hread
        unfold RevisionState.step at hstep
        simp only [hpending, hrow, Option.map_some] at hstep
        obtain rfl := Option.some.inj hstep
        cases hwritten : finishUpdate digest row update.existing update.fields update.now with
        | error _ =>
            rw [hwritten] at hok
            cases hok
        | ok written =>
            refine ⟨rfl, ?_⟩
            rintro _ ⟨⟩
            rw [(finishUpdate_ok hwritten).1]
            exact renewed_updated digest update.now hread hconforms hunnamed
      · cases hrenews

end TrwMemory.Sync

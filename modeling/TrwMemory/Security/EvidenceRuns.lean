import TrwMemory.Storage.StoreManyAgrees
import TrwMemory.Storage.VectorOps

/-!
The evidence invariant over runs of `store`, `store_many` and `update` on a store that
may hold violating rows already. No call adds an unsupported claim: a violating row
carries the claim of a violating row that it replaced. Whether the claim is true is
not the subject.

A call that is refused, or whose row cannot be bound, changes nothing, except that a
batch keeps the rows before the one that could not be bound.
-/
namespace TrwMemory.Security

open Library.Keyed Storage Sync

inductive WriteCall where
  | store (entry : MemoryEntry)
  | storeMany (objects : Nat → MemoryEntry) (refs : List Nat)
  | update (k : RowKey) (blocks : MemoryEntry → Bool) (fields : Patch) (now : Datetime)

def WriteCall.run (digest : SyncContent → String) (b : Backend) (db : Db) : WriteCall → Db
  | store entry =>
      match storeObject digest b ⟨fun _ : Unit => entry, db⟩ () with
      | .ok after => after.db
      | .error _ => db
  | storeMany objects refs => (storeManyObjects digest b ⟨objects, db⟩ refs).held.db
  | update k blocks fields now =>
      let after := Call.run digest b db (.update k blocks fields now)
      if (after.memories.find k).all bindable then after else db

def runWrites (digest : SyncContent → String) (b : Backend) (db : Db) (calls : List WriteCall) :
    Db :=
  calls.foldl (WriteCall.run digest b) db

/-- Every violating row carries the claim of a violating row that was there before. -/
def ClaimsCarried (db db' : Db) : Prop :=
  ∀ k row, db'.memories.find k = some row → violatesEvidenceInvariant row = true →
    ∃ row', db.memories.find k = some row' ∧ violatesEvidenceInvariant row' = true ∧
      sameClaim row' row = true

/-- `fetch_rows_resilient` on rows that were decoded: those that map, as they are served. -/
def fetchServed (rows : List MemoryEntry) : List MemoryEntry :=
  rows.filterMap fun row => (rowToEntry row).map servedView

theorem sameClaim_self (e : MemoryEntry) : sameClaim e e = true := by
  simp [sameClaim]

theorem ClaimsCarried.refl (db : Db) : ClaimsCarried db db :=
  fun _ row hrow hv => ⟨row, hrow, hv, sameClaim_self row⟩

theorem ClaimsCarried.trans {db db' db'' : Db} (h : ClaimsCarried db db')
    (h' : ClaimsCarried db' db'') : ClaimsCarried db db'' := by
  intro k row hrow hv
  obtain ⟨mid, hmid, hmidv, hclaim⟩ := h' k row hrow hv
  obtain ⟨first, hfirst, hfirstv, hclaim'⟩ := h k mid hmid hmidv
  exact ⟨first, hfirst, hfirstv, sameClaim_trans hclaim' hclaim⟩

/-- Rows that were each admitted over the row found. -/
theorem claimsCarried_of_inserted {db db' : Db} {rows : List MemoryEntry}
    (hadmitted : ∀ e ∈ rows, refuseViolation (db.memories.find (rowKey e)) e = .ok ())
    (hinserted : Inserted rows db db'.memories) : ClaimsCarried db db' := by
  intro k row hrow hv
  rw [hinserted.find] at hrow
  cases hlast : rows.reverse.find? fun row => rowKey row = k with
  | none =>
      rw [hlast, Option.none_or] at hrow
      exact ⟨row, hrow, hv, sameClaim_self row⟩
  | some e =>
      rw [hlast, Option.some_or] at hrow
      obtain rfl := Option.some.inj hrow
      have hmem : e ∈ rows := List.mem_reverse.mp (List.mem_of_find?_eq_some hlast)
      obtain ⟨row', hrow', -, hv', hclaim⟩ := refuseViolation_ok.mp (hadmitted e hmem) hv
      rw [rowKey_of_find hlast] at hrow'
      exact ⟨row', hrow', hv', hclaim⟩

variable {digest : SyncContent → String} {b : Backend} {db : Db}

theorem inserted_store (row : MemoryEntry) :
    Inserted [row] db (execute (storeStatements b row) db).memories := by
  refine ⟨fun k => ?_⟩
  rw [(execute_storeStatements b row db).1, Table.find_put]
  by_cases hk : k = rowKey row
  · simp [hk]
  · simp [hk, Ne.symm hk]

theorem inserted_storeMany (rows : List MemoryEntry) :
    Inserted rows db (execute (storeManyStatements b rows) db).memories := by
  obtain ⟨memories, hexec, hfind⟩ := execute_insertRows rows db
  have hfts : FtsOnly (if b.ftsAvailable then storeManyFts (finalEntries rows) else []) := by
    split
    · exact ftsOnly_storeManyFts _
    · exact fun db => ⟨_, _, rfl⟩
  obtain ⟨fts, map, hindexed⟩ := hfts { db with memories }
  rw [storeManyStatements, execute_append, execute_append, hexec, hindexed, execute_postings]
  exact ⟨hfind⟩

theorem store_carries (entry : MemoryEntry) :
    ClaimsCarried db ((WriteCall.store entry).run digest b db) := by
  cases hstore : storeObject digest b ⟨fun _ : Unit => entry, db⟩ () with
  | error _ =>
      simp only [WriteCall.run, hstore]
      exact .refl db
  | ok after =>
      simp only [WriteCall.run, hstore]
      obtain ⟨-, hrefuse, -, rfl⟩ := storeObject_ok.mp hstore
      refine claimsCarried_of_inserted (fun e he => ?_)
        (inserted_store (stampSync digest entry))
      obtain rfl := List.mem_singleton.mp he
      exact (refuseViolation_restamped (restamped_stampSync digest entry)).mpr hrefuse

theorem storeMany_carries (objects : Nat → MemoryEntry) (refs : List Nat) :
    ClaimsCarried db ((WriteCall.storeMany objects refs).run digest b db) := by
  rw [WriteCall.run]
  by_cases hne : refs = []
  · subst hne
    exact .refl db
  by_cases hadmitted : Admitted ⟨objects, db⟩ refs
  · have hrefuse := ((admitted_iff digest).mp hadmitted).2
    rw [refuseNewViolations, forM_ok] at hrefuse
    rw [storeManyObjects_admitted digest b hadmitted hne]
    dsimp only
    split
    · exact claimsCarried_of_inserted hrefuse (inserted_storeMany _)
    · obtain ⟨memories, hexec, hfind⟩ := execute_insertRows
        ((refs.map (stampSyncBookkeeping digest objects refs)).takeWhile bindable) db
      rw [hexec]
      exact claimsCarried_of_inserted
        (fun e he => hrefuse e ((List.takeWhile_prefix bindable).subset he)) ⟨hfind⟩
  · obtain ⟨error, hend⟩ := storeManyObjects_refused digest b hadmitted
    rw [hend]
    exact .refl db

/-- The update is checked on the fields that decide whether the row violates. -/
theorem finishUpdate_admitted {row existing written : MemoryEntry} {fields : Patch}
    {now : Datetime} (h : finishUpdate digest row existing fields now = .ok written) :
    refuseNewViolation (some existing) (existing.patched (datedFields fields now)) = .ok () := by
  unfold finishUpdate at h
  split at h
  · cases h
  · rename_i hok
    exact hok

theorem patched_claim {row existing : MemoryEntry} (fields : Patch) (now : Datetime)
    (hread : rowToEntry row = some existing) :
    let written := row.patched (updateFields digest existing fields now)
    let checked := existing.patched (datedFields fields now)
    violatesEvidenceInvariant written = violatesEvidenceInvariant checked ∧
      (∀ e, sameClaim e written = sameClaim e checked) ∧
      violatesEvidenceInvariant existing = violatesEvidenceInvariant row ∧
      ∀ e, sameClaim existing e = sameClaim row e := by
  obtain rfl := rowToEntry_eq hread
  have hother : ∀ c ∉ ownColumns,
      updateFields digest (readBack row) fields now c = datedFields fields now c := by
    intro c hc
    rw [updateFields_other digest _ fields now hc, datedFields_other fields now fun h => hc (by
      rw [h]
      decide)]
  refine ⟨?_, fun e => ?_, rfl, fun e => rfl⟩
  · simp (disch := decide) only [violatesEvidenceInvariant, MemoryEntry.patched, hother]
    rfl
  · simp (disch := decide) only [sameClaim, MemoryEntry.patched, hother]
    rfl

theorem update_carries (k : RowKey) (blocks : MemoryEntry → Bool) (fields : Patch)
    (now : Datetime) :
    ClaimsCarried db ((WriteCall.update k blocks fields now).run digest b db) := by
  rw [WriteCall.run]
  split
  · simp only [Call.run, Call.script]
    cases hscript : updateScript digest b db k blocks fields now with
    | error _ => exact .refl db
    | ok statements =>
        obtain rfl | ⟨row, existing, written, hrow, hread, hfinish, rfl⟩ :=
          updateScript_cases hscript
        · exact .refl db
        · intro k' row' hrow' hv
          rw [show (execute _ db).memories = _ from
            (execute_updateStatements digest b existing fields now hrow).1, Table.find_put] at hrow'
          by_cases hk : k' = k
          · subst hk
            rw [if_pos rfl] at hrow'
            obtain rfl := Option.some.inj hrow'
            obtain ⟨hviolates, hclaim, hexisting, hsame⟩ := patched_claim fields now hread
            rw [hviolates] at hv
            have hcarried := refuseNewViolation_ok.mp (finishUpdate_admitted hfinish) hv
            rw [Option.any_some, Bool.and_eq_true, hexisting, hsame, ← hclaim] at hcarried
            exact ⟨row, hrow, hcarried.1, hcarried.2⟩
          · rw [if_neg hk] at hrow'
            exact ⟨row', hrow', hv, sameClaim_self row'⟩
  · exact .refl db

theorem WriteCall.carries (call : WriteCall) : ClaimsCarried db (call.run digest b db) := by
  cases call with
  | store entry => exact store_carries entry
  | storeMany objects refs => exact storeMany_carries objects refs
  | update k blocks fields now => exact update_carries k blocks fields now

theorem runWrites_carries (calls : List WriteCall) :
    ClaimsCarried db (runWrites digest b db calls) := by
  induction calls generalizing db with
  | nil => exact .refl db
  | cons call calls ih => exact call.carries.trans ih

/-- No read of the store serves a violation. -/
structure ServesNone (db : Db) : Prop where
  fetched : ∀ rows, ∀ e ∈ fetchServed rows, violatesEvidenceInvariant e = false
  got : ∀ blocks k e, backendGet blocks db k = .ok (some e) → violatesEvidenceInvariant e = false

theorem servesNone (db : Db) : ServesNone db where
  fetched rows e he := by
    obtain ⟨row, -, hserved⟩ := List.mem_filterMap.mp he
    obtain ⟨entry, -, rfl⟩ := Option.map_eq_some_iff.mp hserved
    exact servedView_conforms entry
  got blocks k e he := by
    obtain ⟨row, entry, -, -, -, rfl⟩ := backendGet_some he
    exact servedView_conforms entry

/-- From every store and in every run: after each call every violating row carries the
claim of a violating row with its key before the call, so of one that the run started
with; and no read serves a violation. -/
theorem violations_carried (digest : SyncContent → String) (b : Backend) (db : Db)
    (before : List WriteCall) (call : WriteCall) :
    ClaimsCarried (runWrites digest b db before) (runWrites digest b db (before ++ [call])) ∧
      ClaimsCarried db (runWrites digest b db (before ++ [call])) ∧
      ServesNone (runWrites digest b db (before ++ [call])) := by
  refine ⟨?_, runWrites_carries _, servesNone _⟩
  rw [runWrites, runWrites, List.foldl_append]
  exact call.carries

end TrwMemory.Security

import TrwMemory.Embeddings.VectorRuns
import TrwMemory.Sync.SyncedAgreement

/-!
Rows that the quarantine ledger hides, and the writes that were prepared against their
absence: `apply_synced_entry` without a revision (`sync/delta.py`) and the new-entry path
of `memory_store` (`tools/store.py`). Both compare what they read with what `get` answers
now, and to `get` a hidden row is absent. The write gate, which ends before, is not
modelled here: the entry is what it lets through.
-/
namespace TrwMemory.Sync

open Library.Keyed Storage Tools Embeddings

/-- A row is there that the ledger blocks. -/
def hidden (blocks : MemoryEntry → Bool) (db : Db) (k : RowKey) : Bool :=
  (db.memories.find k).any fun row => (rowToEntry row).any fun e => blocks (servedView e)

/-- The checks of `store` let the entry replace the row of its key. -/
def accepts (digest : SyncContent → String) (db : Db) (entry : MemoryEntry) : Bool :=
  (storeRow digest (db.memories.find (rowKey entry)) entry).isOk

/-- A write over a row that is there writes nothing. -/
def LeavesRow (db : Db) (k : RowKey) (after : Db × StoreOutcome) : Prop :=
  (db.memories.find k).isSome = true → after.1 = db ∧ after.2 ≠ .committed

section Writes

variable {τ : Type} [DecidableEq τ] (digest : SyncContent → String) (d : Digests)
  (token : MemoryEntry → τ) (w : Writer) (blocks : MemoryEntry → Bool)

/-- A row that is there reads as absent exactly when it is hidden. -/
theorem backendGet_hidden_iff {db : Db} {k : RowKey} (h : (db.memories.find k).isSome = true) :
    backendGet blocks db k = .ok none ↔ hidden blocks db k = true := by
  obtain ⟨row, hrow⟩ := Option.isSome_iff_exists.mp h
  cases hread : rowToEntry row with
  | none => simp [backendGet, hidden, hrow, hread]
  | some e =>
      cases hblocks : blocks (servedView e) <;> simp [backendGet, hidden, hrow, hread, hblocks]

theorem storeWithVector_isSome (entry : MemoryEntry) (result : EmbedResult) (text : String)
    (db : Db) :
    (storeWithVector digest d w entry (result.encoded d text) db).isSome =
      accepts digest db entry := by
  unfold storeWithVector storeScript accepts
  cases storeRow digest (db.memories.find (rowKey entry)) entry with
  | error _ => rfl
  | ok row =>
      dsimp only [Except.map]
      cases hvector : result.encoded d text with
      | none => rfl
      | some vector =>
          have hproof := (encoded_matches (Option.mem_def.mpr hvector)).2
          dsimp only
          rw [upsertVector_eq fun p hp => (hproof p hp).2]
          rfl

/-- What is written over the revision of an absent row ends in a store of the entry, or
leaves the store as it was. -/
theorem leavesRow_iff {db : Db} {k : RowKey} {after : Db × StoreOutcome} {written : Bool}
    (hstored : backendGet blocks db k = .ok none → written = true → after.2 = .committed)
    (hleft : ¬(backendGet blocks db k = .ok none ∧ written = true) →
      after.1 = db ∧ after.2 ≠ .committed) :
    LeavesRow db k after ↔ ¬(hidden blocks db k = true ∧ written = true) := by
  constructor
  · rintro h ⟨hhidden, hwritten⟩
    have hsome : (db.memories.find k).isSome = true := by
      cases hrow : db.memories.find k with
      | none =>
          rw [hidden, hrow] at hhidden
          cases hhidden
      | some _ => rfl
    exact (h hsome).2 (hstored ((backendGet_hidden_iff blocks hsome).mpr hhidden) hwritten)
  · intro h hsome
    apply hleft
    rintro ⟨hread, hwritten⟩
    exact h ⟨(backendGet_hidden_iff blocks hsome).mp hread, hwritten⟩

theorem applySyncedEntry_leaves_iff (row : MemoryEntry) (synced : Bool) (result : EmbedResult)
    (now : Datetime) (db : Db) :
    LeavesRow db (rowKey row)
        (applySyncedEntry digest d token w blocks none row synced result now db) ↔
      ¬(hidden blocks db (rowKey row) = true ∧ accepts digest db row = true) := by
  have hstore := storeWithVector_isSome digest d w row result (embeddingText row) db
  apply leavesRow_iff
  · intro hread haccepts
    rw [haccepts] at hstore
    obtain ⟨stored, hstored⟩ := Option.isSome_iff_exists.mp hstore
    simp [applySyncedEntry, hread, hstored]
  · intro hnot
    unfold applySyncedEntry
    dsimp only
    cases hread : backendGet blocks db (rowKey row) with
    | error _ => simp
    | ok current =>
        cases current with
        | some e => simp
        | none =>
            have hrefused : accepts digest db row = false := by simpa [hread] using hnot
            rw [hrefused, Option.isSome_eq_false_iff, Option.isNone_iff_eq_none] at hstore
            simp [hstore]

theorem memoryStore_leaves_iff (entry : MemoryEntry) (result : EmbedResult) (db : Db) :
    LeavesRow db (rowKey entry) (memoryStore digest d token w blocks none entry result db) ↔
      ¬(hidden blocks db (rowKey entry) = true ∧
        (accepts digest db entry && result != .failed) = true) := by
  have hstore := storeWithVector_isSome digest d w entry result (embeddingText entry) db
  apply leavesRow_iff
  · intro hread haccepts
    rw [Bool.and_eq_true, bne_iff_ne] at haccepts
    rw [haccepts.1] at hstore
    obtain ⟨stored, hstored⟩ := Option.isSome_iff_exists.mp hstore
    simp [memoryStore, hread, hstored, haccepts.2, finishStore]
  · intro hnot
    unfold memoryStore
    by_cases hfailed : result = .failed
    · simp [hfailed]
    · rw [if_neg hfailed]
      cases hread : backendGet blocks db (rowKey entry) with
      | error _ => simp
      | ok current =>
          cases current with
          | some e => simp
          | none =>
              have hrefused : accepts digest db entry = false := by
                simpa [hread, hfailed] using hnot
              rw [hrefused, Option.isSome_eq_false_iff, Option.isNone_iff_eq_none] at hstore
              simp [hstore, finishStore]

end Writes

/-- A row that the ledger blocks by its id. -/
def blockedRow (content : String) : MemoryEntry :=
  MemoryEntry.ofDefaults "a" content "project:south" ⟨0, some 0⟩ a_ne_empty

def blocksId (id : String) (e : MemoryEntry) : Bool := e.id == id

def blockedDb : Db :=
  { Db.empty with memories := Table.empty.put ⟨"project:south", "a"⟩ (blockedRow "poison") }

end TrwMemory.Sync

import TrwMemory.Embeddings.VectorUpdates
import TrwMemory.Library.Transition

/-!
Runs of the six writers on one store. An event is the transaction of one call, whatever
the call read or encoded before it: every interleaving of calls is such a run. Where no
call writes a text over a vector of another one that stays, every stored vector is one of
its row's text.
-/
namespace TrwMemory.Embeddings

open Library.Keyed Library.Transition Storage Sync Tools Lifecycle

inductive VectorEvent (τ : Type) where
  | memoryStore (w : Writer) (blocks : MemoryEntry → Bool) (existing : Option MemoryEntry)
      (entry : MemoryEntry) (result : EmbedResult)
  | clientStore (w : Writer) (entry : MemoryEntry) (result : EmbedResult)
  | bulkStore (w : Writer) (entry : MemoryEntry) (result : EmbedResult)
  | correction (w : Writer) (blocks : MemoryEntry → Bool) (rules : CorrectionRules)
      (entry : MemoryEntry) (patch : LearningPatch τ) (prior : Option RowKey)
      (result : EmbedResult) (now : Datetime)
  | syncedEntry (w : Writer) (blocks : MemoryEntry → Bool) (ifRevision : Option τ)
      (row : MemoryEntry) (synced : Bool) (result : EmbedResult) (now : Datetime)
  | reembed (w : Writer) (blocks : MemoryEntry → Bool) (page : List PageItem)

section Runs

variable {τ : Type} [DecidableEq τ] (digest : SyncContent → String) (d : Digests)
  (token : MemoryEntry → τ)

/-- A page is re-encoded only by a process that supports vectors. -/
def vectorMachine : Machine Db (VectorEvent τ) where
  step db e :=
    match e with
    | .memoryStore w blocks existing entry result =>
        some (memoryStore digest d token w blocks existing entry result db).1
    | .clientStore w entry result => some (clientStore digest d w entry result db).1
    | .bulkStore w entry result => some (bulkStore digest d w entry result db).1
    | .correction w blocks rules entry patch prior result now =>
        some (applyCorrection digest d token rules w blocks entry patch prior result now db).1
    | .syncedEntry w blocks ifRevision row synced result now =>
        some (applySyncedEntry digest d token w blocks ifRevision row synced result now db).1
    | .reembed w blocks page =>
        if w.backend.vecAvailable then some (reembedPage d w blocks page db) else none

/-- The text that an event is about to write, if its checks pass. -/
def textWrite (db : Db) : VectorEvent τ → Option TextWrite
  | .memoryStore w blocks existing entry result =>
      match backendGet blocks db (rowKey entry) with
      | .error _ => none
      | .ok current =>
          if result ≠ .failed ∧
              current.map (revisionOf token) = existing.map (revisionOf token) ∧
              storable db entry = true then
            some (storeWrite w entry result false)
          else none
  | .clientStore w entry result =>
      if result ≠ .failed ∧ storable db entry = true then
        some (storeWrite w entry result
          (w.backend.vecAvailable && (db.memories.find (rowKey entry)).isSome))
      else none
  | .bulkStore w entry result =>
      if storable db entry then some (storeWrite w entry result false) else none
  | .correction w blocks rules entry patch _ result now =>
      correctionWrite digest token rules w blocks entry patch result now db
  | .syncedEntry w blocks ifRevision row _ result _ =>
      syncedWrite d token w blocks ifRevision row result db
  | .reembed _ _ _ => none

/-- No text is written over a vector of another text that stays. -/
def RenewsVectors (db : Db) (e : VectorEvent τ) : Prop :=
  ∀ write ∈ textWrite digest d token db e, write.LeavesNone d db

instance (db : Db) (e : VectorEvent τ) : Decidable (RenewsVectors digest d token db e) :=
  inferInstanceAs (Decidable (∀ write ∈ textWrite digest d token db e, write.LeavesNone d db))

theorem followsText_memoryStore {w : Writer} {blocks : MemoryEntry → Bool}
    {existing : Option MemoryEntry} {entry : MemoryEntry} {result : EmbedResult} {db : Db}
    (hdb : FollowsText d db)
    (hrenews : RenewsVectors digest d token db (.memoryStore w blocks existing entry result)) :
    FollowsText d (memoryStore digest d token w blocks existing entry result db).1 := by
  unfold RenewsVectors textWrite at hrenews
  unfold memoryStore
  split
  · exact hdb
  · rename_i hfailed
    cases hget : backendGet blocks db (rowKey entry) with
    | error _ => exact hdb
    | ok current =>
        simp only [hget] at hrenews ⊢
        split
        · exact hdb
        · rename_i hrevision
          refine followsText_finishStore hdb fun hstorable => hrenews _ ?_
          rw [if_pos ⟨hfailed, Decidable.not_not.mp hrevision, hstorable⟩]
          rfl

/-- One event, in the six cases. -/
theorem followsText_preserved :
    (vectorMachine digest d token).Preserves (RenewsVectors digest d token) (FollowsText d) := by
  intro db e db' hdb hrenews hstep
  cases e with
  | memoryStore w blocks existing entry result =>
      obtain rfl := Option.some.inj hstep
      exact followsText_memoryStore digest d token hdb hrenews
  | clientStore w entry result =>
      obtain rfl := Option.some.inj hstep
      refine followsText_clientStore hdb fun hfailed hstorable => hrenews _ ?_
      rw [textWrite, if_pos ⟨hfailed, hstorable⟩]
      rfl
  | bulkStore w entry result =>
      obtain rfl := Option.some.inj hstep
      refine followsText_finishStore hdb fun hstorable => hrenews _ ?_
      rw [textWrite, if_pos hstorable]
      rfl
  | correction w blocks rules entry patch prior result now =>
      obtain rfl := Option.some.inj hstep
      exact followsText_applyCorrection hdb hrenews
  | syncedEntry w blocks ifRevision row synced result now =>
      obtain rfl := Option.some.inj hstep
      exact followsText_applySyncedEntry hdb hrenews
  | reembed w blocks page =>
      simp only [vectorMachine] at hstep
      split at hstep
      · obtain rfl := Option.some.inj hstep
        exact followsText_reembedPage page hdb
      · cases hstep

/-- From every store whose vectors are of their rows' texts and in every run that writes
no text over a vector of another one that stays: so they are after it. -/
theorem vectors_followText {db db' : Db} {events : List (VectorEvent τ)}
    (hdb : FollowsText d db)
    (hrenews : (vectorMachine digest d token).Guarded (RenewsVectors digest d token) db events)
    (hrun : (vectorMachine digest d token).run db events = some db') : FollowsText d db' :=
  (vectorMachine digest d token).run_preserves (followsText_preserved digest d token) hdb hrenews
    hrun

end Runs

def textDigests : Digests := ⟨fun text => "sha256:" ++ text, fun _ => some "vector"⟩

def space : EmbeddingSpace := ⟨"artifact", "encoding", 2⟩

/-- The encoder of the run. -/
def encoded : EmbedResult := .vector [1, 0] (some space)

def process : Writer := ⟨⟨true, true, 2⟩, 2⟩

def named (content : String) : MemoryEntry :=
  MemoryEntry.ofDefaults "a" content "project:south" ⟨0, some 0⟩ a_ne_empty

def seqDigest (c : SyncContent) : String := "sha256:" ++ c.content

def vectorsAfter (events : List (VectorEvent MemoryEntry)) : Db :=
  (vectorMachine seqDigest textDigests id).endState Db.empty events

/-- The patch of a detail. -/
def detailPatch (detail : String) : LearningPatch MemoryEntry :=
  ⟨Patch.none.set .detail detail, none, none, none, ∅, none, none⟩

def plainRules : CorrectionRules := ⟨fun metadata _ => metadata, id, fun _ _ => false⟩

/-- A creation, a revision that encodes another text, a correction that drops the vector
since its copy was stale, and a row of a batch without an encoder. -/
def renewingRun : List (VectorEvent MemoryEntry) :=
  [.memoryStore process (fun _ => false) none (named "first") encoded,
    .clientStore process (named "second") encoded,
    .correction process (fun _ => false) plainRules (named "stale") (detailPatch "new") none encoded
      ⟨1, some 0⟩,
    .bulkStore process (named "third") .absent]

theorem renewingRun_followsText : FollowsText textDigests (vectorsAfter renewingRun) :=
  vectors_followText seqDigest textDigests id (followsText_empty textDigests)
    (by decide +kernel : (vectorMachine seqDigest textDigests id).Guarded
      (RenewsVectors seqDigest textDigests id) Db.empty renewingRun)
    ((vectorMachine seqDigest textDigests id).run_endState _ _ (by decide +kernel))

/-- `memory_store` with an encoder, then of the row that it stored without one. -/
def unencodedRun : List (VectorEvent MemoryEntry) :=
  [.memoryStore process (fun _ => false) none (named "first") encoded,
    .memoryStore process (fun _ => false) (some (named "first")) (named "second") .absent]

/-- The vector of the first text stays beside the second. -/
theorem unencoded_outlives :
    FollowsText textDigests Db.empty ∧
    (vectorMachine seqDigest textDigests id).run Db.empty unencodedRun =
      some (vectorsAfter unencodedRun) ∧
    ((vectorsAfter unencodedRun).memories.find ⟨"project:south", "a"⟩).map MemoryEntry.content =
      some "second" ∧
    ¬FollowsText textDigests (vectorsAfter unencodedRun) := by
  refine ⟨followsText_empty _, ?_, by decide +kernel, fun hfollows => ?_⟩
  · exact (vectorMachine seqDigest textDigests id).run_endState _ _ (by decide +kernel)
  · obtain ⟨row, hrow⟩ : ∃ row, (vectorsAfter unencodedRun).memories.find ⟨"project:south", "a"⟩ =
        some row := Option.isSome_iff_exists.mp (by decide +kernel)
    have htext :
        ((vectorsAfter unencodedRun).memories.find ⟨"project:south", "a"⟩).map embeddingText =
        some "second " := by decide +kernel
    rw [hrow] at htext
    have hown := (hfollows _ row hrow).1
    rw [Option.some.inj htext] at hown
    have hstale :
        ¬VectorOf textDigests (vectorsAfter unencodedRun) ⟨"project:south", "a"⟩ "second " := by
      decide +kernel
    exact hstale hown

end TrwMemory.Embeddings

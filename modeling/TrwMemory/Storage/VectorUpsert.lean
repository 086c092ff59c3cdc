import TrwMemory.Embeddings.Provenance
import TrwMemory.Storage.Database
import TrwMemory.Storage.Transaction

/-!
`upsert_vector` (`storage/_vector_ops.py`), statement by statement: the index row of the key,
its proof, and the vector under the row's id, which is deleted and inserted again. The
statements run under a savepoint, in a transaction of their own or in one of `transaction()`.

Every statement may raise, the ones of the handlers too; a statement that raises has changed
nothing. An error at which SQLite itself gives the transaction up is not modelled, and the
width of the vector table shows only in what its INSERT raises.
-/
namespace TrwMemory.Storage

open Library.Keyed

structure IndexRow where
  rowid : Nat
  provenance : Option VectorProvenance
  deriving DecidableEq, Repr

/-- `vec_index`, whose rowids are never given twice, and `vec_memories` under these rowids. -/
structure VecStore where
  index : Table RowKey IndexRow
  vectors : Table Nat (List Rat)
  sequence : Nat
  index_le : ∀ k row, index.find k = some row → row.rowid ≤ sequence
  vectors_le : ∀ rowid embedding, vectors.find rowid = some embedding → rowid ≤ sequence

namespace VecStore

/-- A vector and its provenance record, as the joined tables show them. -/
def pairOf (s : VecStore) (k : RowKey) : Option (List Rat × Option VectorProvenance) := do
  let row ← s.index.find k
  let embedding ← s.vectors.find row.rowid
  return (embedding, row.provenance)

/-- `INSERT OR IGNORE INTO vec_index`. -/
def insertIndex (k : RowKey) (s : VecStore) : VecStore :=
  if (s.index.find k).isSome then s
  else
    { index := s.index.put k ⟨s.sequence + 1, none⟩
      vectors := s.vectors
      sequence := s.sequence + 1
      index_le := by
        intro k' row hrow
        rw [Table.find_put] at hrow
        split at hrow
        · rw [← Option.some.inj hrow]
        · exact Nat.le_succ_of_le (s.index_le k' row hrow)
      vectors_le := fun rowid e he => Nat.le_succ_of_le (s.vectors_le rowid e he) }

/-- `UPDATE vec_index`, of the row that was selected. -/
def setProof (k : RowKey) (provenance : Option VectorProvenance) (s : VecStore) : VecStore :=
  { s with
    index := s.index.alter fun k' row => if k' = k then { row with provenance } else row
    index_le := by
      intro k' row hrow
      rw [Table.find_alter] at hrow
      obtain ⟨old, hold, rfl⟩ := Option.map_eq_some_iff.mp hrow
      split <;> exact s.index_le k' old hold }

/-- `DELETE FROM vec_memories`, of the rowid that was selected. -/
def deleteVector (k : RowKey) (s : VecStore) : VecStore :=
  { s with
    vectors := s.vectors.discard fun rowid => (s.index.find k).any fun row => row.rowid == rowid
    vectors_le := by
      intro rowid e he
      rw [Table.find_discard] at he
      split at he
      · cases he
      · exact s.vectors_le rowid e he }

/-- `INSERT INTO vec_memories`, under the rowid that was selected. -/
def insertVector (k : RowKey) (embedding : List Rat) (s : VecStore) : VecStore :=
  match hrow : s.index.find k with
  | none => s
  | some row =>
      { s with
        vectors := s.vectors.put row.rowid embedding
        vectors_le := by
          intro rowid e he
          rw [Table.find_put] at he
          split at he
          · rename_i heq
            exact heq ▸ s.index_le k row hrow
          · exact s.vectors_le rowid e he }

end VecStore

/-- The statements of a call. -/
inductive Stage where
  | begin | savepoint | insertIndex | selectRowid | updateProof | deleteVector | insertVector
  | rollbackTo | releaseAfter | release | commit | rollback
  deriving DecidableEq, Repr

/-- What a statement raises: a `sqlite3.Error` that names the missing `vec0` module, one of the
width of its table, another one; or no `sqlite3.Error` at all. -/
inductive UpsertFailure where
  | unavailable | width | sqlite | other
  deriving DecidableEq, Repr

structure UpsertCall where
  vecAvailable : Bool
  dim : Nat
  key : RowKey
  embedding : List Rat
  provenance : Option VectorProvenance

inductive UpsertEnd where
  | returned | raised
  deriving DecidableEq, Repr

section Upsert

variable (faults : Stage → Option UpsertFailure)

/-- Statements on the rows, up to the one that raises. -/
def runStages : List (Stage × (VecStore → VecStore)) → Session VecStore →
    Session VecStore × Option UpsertFailure
  | [], s => (s, none)
  | (stage, act) :: rest, s =>
      match faults stage with
      | some failure => (s, some failure)
      | none => runStages rest { s with working := act s.working }

def UpsertCall.statements (call : UpsertCall) : List (Stage × (VecStore → VecStore)) :=
  [(.insertIndex, .insertIndex call.key), (.selectRowid, id),
    (.updateProof, .setProof call.key call.provenance), (.deleteVector, .deleteVector call.key),
    (.insertVector, .insertVector call.key call.embedding)]

/-- The handler of the statements; the savepoint holds what `saved` was. -/
def restoreSavepoint (saved : VecStore) (s : Session VecStore) (failure : UpsertFailure) :
    Session VecStore × Option UpsertFailure :=
  match faults .rollbackTo with
  | some again => (s, some again)
  | none => ({ s with working := saved }, (faults .releaseAfter).or (some failure))

/-- The statements under the savepoint; only a `sqlite3.Error` is handled. -/
def underSavepoint (call : UpsertCall) (s : Session VecStore) :
    Session VecStore × Option UpsertFailure :=
  match runStages faults call.statements s with
  | (after, none) => (after, none)
  | (after, some failure) =>
      if failure = .other then (after, some failure)
      else restoreSavepoint faults s.working after failure

/-- The body under the lock. -/
def lockedUpsert (call : UpsertCall) (s : Session VecStore) :
    Session VecStore × Option UpsertFailure :=
  match if s.inTransaction then none else faults .begin with
  | some failure => (s, some failure)
  | none =>
      match faults .savepoint with
      | some failure => (s.begin, some failure)
      | none =>
          match underSavepoint faults call s.begin with
          | (after, some failure) => (after, some failure)
          | (after, none) =>
              match faults .release with
              | some failure => (after, some failure)
              | none =>
                  if s.depth != 0 then (after, none)
                  else
                    match faults .commit with
                    | some failure => (after, some failure)
                    | none => (after.commit, none)

/-- `_rollback_standalone_write`: the session after it, and whether it raises. -/
def rollbackStandalone (s : Session VecStore) : Session VecStore × Bool :=
  if s.depth != 0 then (s, false)
  else
    match faults .rollback with
    | none => (s.rollback, false)
    | some failure => (s, failure == .other)

/-- The outer handler, for a `sqlite3.Error`. -/
def handleUpsert (s : Session VecStore) (failure : UpsertFailure) :
    Session VecStore × UpsertEnd :=
  let (after, raises) := rollbackStandalone faults s
  (after,
    if raises then .raised
    else if failure = .unavailable ∨ failure = .width then .returned
    else .raised)

def upsertVectorCall (d : Digests) (call : UpsertCall) (s : Session VecStore) :
    Session VecStore × UpsertEnd :=
  if !call.vecAvailable then (s, .returned)
  else if call.embedding.length ≠ call.dim then (s, .returned)
  else if call.provenance.any fun p => !d.matchesVector p call.embedding then (s, .raised)
  else
    match lockedUpsert faults call s with
    | (after, none) => (after, .returned)
    | (after, some failure) =>
        if failure = .other then (after, .raised) else handleUpsert faults after failure

/-- The vector was struck between its proof and its own INSERT, and what this raised was not
undone: it is no `sqlite3.Error`, or the savepoint could not be restored and no rollback of
the whole transaction has followed. -/
def Leaks (standalone : Bool) : Prop :=
  faults .savepoint = none ∧ faults .insertIndex = none ∧ faults .selectRowid = none ∧
    faults .updateProof = none ∧
    ∃ failure, (faults .deleteVector).or (faults .insertVector) = some failure ∧
      (failure = .other ∨ ∃ again, faults .rollbackTo = some again ∧
        (again = .other ∨ standalone = false ∨ (faults .rollback).isSome = true))

end Upsert

/-- Afterwards the connection shows the pair of before or the one that was to be written; a
call that owns its transaction may have rolled back to the durable pair. The durable pair stays,
or such a call has made the new one durable. -/
def PairKept (call : UpsertCall) (before after : Session VecStore) : Prop :=
  (after.working.pairOf call.key = before.working.pairOf call.key ∨
      after.working.pairOf call.key = some (call.embedding, call.provenance) ∨
      (before.depth = 0 ∧ after.working.pairOf call.key = before.committed.pairOf call.key)) ∧
    (after.committed.pairOf call.key = before.committed.pairOf call.key ∨
      (before.depth = 0 ∧
        after.committed.pairOf call.key = some (call.embedding, call.provenance)))

namespace VecStore

variable (s : VecStore) (k : RowKey)

theorem pairOf_insertIndex : (s.insertIndex k).pairOf k = s.pairOf k := by
  rw [insertIndex]
  split
  · rfl
  · rename_i hnone
    have hnew : s.vectors.find (s.sequence + 1) = none := by
      cases hfind : s.vectors.find (s.sequence + 1) with
      | none => rfl
      | some e => exact absurd (s.vectors_le _ e hfind) (by omega)
    rw [Option.not_isSome_iff_eq_none] at hnone
    simp only [pairOf, Table.find_put_self, hnone, Option.bind_eq_bind, Option.bind_some, hnew,
      Option.bind_none]

theorem find_insertIndex : ∃ row, (s.insertIndex k).index.find k = some row := by
  rw [insertIndex]
  split
  · rename_i hsome
    exact Option.isSome_iff_exists.mp hsome
  · exact ⟨_, Table.find_put_self _ _ _⟩

theorem find_setProof (p : Option VectorProvenance) :
    (s.setProof k p).index.find k =
      (s.index.find k).map fun row => { row with provenance := p } := by
  rw [setProof, Table.find_alter]
  simp

/-- After all statements the row has its new vector and the new proof. -/
theorem pairOf_written (e : List Rat) (p : Option VectorProvenance) :
    ((((s.insertIndex k).setProof k p).deleteVector k).insertVector k e).pairOf k =
      some (e, p) := by
  obtain ⟨row, hrow⟩ := s.find_insertIndex k
  have hproof : (((s.insertIndex k).setProof k p).deleteVector k).index.find k =
      some { row with provenance := p } := by
    have h := (s.insertIndex k).find_setProof k p
    rw [hrow] at h
    exact h
  generalize ((s.insertIndex k).setProof k p).deleteVector k = t at hproof
  unfold insertVector
  split
  · rename_i hnone
    rw [hnone] at hproof
    cases hproof
  · rename_i found hfound
    rw [hfound] at hproof
    obtain rfl := Option.some.inj hproof
    simp only [pairOf, hfound, Option.bind_eq_bind, Option.bind_some, Table.find_put_self]
    rfl

end VecStore

section Stops

variable (faults : Stage → Option UpsertFailure) {call : UpsertCall}

/-- The statements stopped after the proof was written and before the vector was. -/
def Halfway (failure : UpsertFailure) : Prop :=
  faults .insertIndex = none ∧ faults .selectRowid = none ∧ faults .updateProof = none ∧
    (faults .deleteVector).or (faults .insertVector) = some failure

theorem runStages_cases (call : UpsertCall) (s : Session VecStore) :
    ∃ working, (runStages faults call.statements s).1 = { s with working } ∧
      match (runStages faults call.statements s).2 with
      | none => working.pairOf call.key = some (call.embedding, call.provenance)
      | some failure =>
          working.pairOf call.key = s.working.pairOf call.key ∨ Halfway faults failure := by
  rw [UpsertCall.statements, runStages]
  cases hindex : faults .insertIndex with
  | some failure => exact ⟨_, rfl, .inl rfl⟩
  | none =>
      have hpair := s.working.pairOf_insertIndex call.key
      dsimp only
      rw [runStages]
      cases hselect : faults .selectRowid with
      | some failure => exact ⟨_, rfl, .inl hpair⟩
      | none =>
          dsimp only
          rw [runStages]
          cases hproof : faults .updateProof with
          | some failure => exact ⟨_, rfl, .inl hpair⟩
          | none =>
              dsimp only
              rw [runStages]
              cases hdelete : faults .deleteVector with
              | some failure =>
                  exact ⟨_, rfl, .inr ⟨hindex, hselect, hproof, by rw [hdelete]; rfl⟩⟩
              | none =>
                  dsimp only
                  rw [runStages]
                  cases hinsert : faults .insertVector with
                  | some failure =>
                      exact ⟨_, rfl, .inr ⟨hindex, hselect, hproof, by rw [hdelete, hinsert]; rfl⟩⟩
                  | none => exact ⟨_, rfl, s.working.pairOf_written call.key _ _⟩

/-- A half-written pair is left under the savepoint. -/
def Stuck (raised : UpsertFailure) : Prop :=
  ∃ failure, Halfway faults failure ∧
    (failure = .other ∧ raised = .other ∨
      failure ≠ .other ∧ faults .rollbackTo = some raised)

theorem underSavepoint_cases (call : UpsertCall) (s : Session VecStore) :
    ∃ working, (underSavepoint faults call s).1 = { s with working } ∧
      match (underSavepoint faults call s).2 with
      | none => working.pairOf call.key = some (call.embedding, call.provenance)
      | some raised =>
          working.pairOf call.key = s.working.pairOf call.key ∨ Stuck faults raised := by
  obtain ⟨working, hafter, hcases⟩ := runStages_cases faults call s
  rw [underSavepoint]
  generalize runStages faults call.statements s = result at hafter hcases
  obtain ⟨after, raised⟩ := result
  obtain rfl : after = { s with working } := hafter
  cases raised with
  | none => exact ⟨working, rfl, hcases⟩
  | some failure =>
      dsimp only
      split
      · rename_i hother
        exact ⟨working, rfl, hcases.imp id fun hhalf => ⟨failure, hhalf, .inl ⟨hother, hother⟩⟩⟩
      · rename_i hsqlite
        rw [restoreSavepoint]
        cases hto : faults .rollbackTo with
        | some again =>
            exact ⟨working, rfl, hcases.imp id fun hhalf =>
              ⟨failure, hhalf, .inr ⟨hsqlite, hto⟩⟩⟩
        | none =>
            refine ⟨s.working, rfl, ?_⟩
            cases faults .releaseAfter with
            | none => exact .inl rfl
            | some again => exact .inl rfl

/-- Where the body under the lock has stopped: the durable rows are as before, or it has
committed the pair. -/
theorem lockedUpsert_cases (call : UpsertCall) (s : Session VecStore) :
    (lockedUpsert faults call s).1.depth = s.depth ∧
    match (lockedUpsert faults call s).2 with
    | none =>
        (lockedUpsert faults call s).1.working.pairOf call.key =
            some (call.embedding, call.provenance) ∧
          ((lockedUpsert faults call s).1.committed = s.committed ∨
            s.depth = 0 ∧ (lockedUpsert faults call s).1.committed =
              (lockedUpsert faults call s).1.working)
    | some raised =>
        (lockedUpsert faults call s).1.committed = s.committed ∧
          ((lockedUpsert faults call s).1.working.pairOf call.key = s.working.pairOf call.key ∨
            (lockedUpsert faults call s).1.working.pairOf call.key =
              some (call.embedding, call.provenance) ∨
            faults .savepoint = none ∧ Stuck faults raised) := by
  rw [lockedUpsert]
  cases (if s.inTransaction then none else faults .begin) with
  | some failure => exact ⟨rfl, rfl, .inl rfl⟩
  | none =>
      dsimp only
      cases hsavepoint : faults .savepoint with
      | some failure => exact ⟨rfl, rfl, .inl rfl⟩
      | none =>
          obtain ⟨working, hafter, hcases⟩ := underSavepoint_cases faults call s.begin
          generalize underSavepoint faults call s.begin = result at hafter hcases
          obtain ⟨after, raised⟩ := result
          obtain rfl : after = { s.begin with working } := hafter
          cases raised with
          | some failure =>
              exact ⟨rfl, rfl, hcases.imp id fun hstuck => .inr ⟨rfl, hstuck⟩⟩
          | none =>
              have hnew : working.pairOf call.key = some (call.embedding, call.provenance) := hcases
              dsimp only
              cases faults .release with
              | some failure => exact ⟨rfl, rfl, .inr (.inl hnew)⟩
              | none =>
                  dsimp only
                  split
                  · exact ⟨rfl, hnew, .inl rfl⟩
                  · rename_i hdepth
                    cases faults .commit with
                    | some failure => exact ⟨rfl, rfl, .inr (.inl hnew)⟩
                    | none => exact ⟨rfl, hnew, .inr ⟨by simpa using hdepth, rfl⟩⟩

theorem leaks_of_stuck {raised : UpsertFailure} {standalone : Bool}
    (hsavepoint : faults .savepoint = none) (hstuck : Stuck faults raised)
    (hleft : raised = .other ∨ standalone = false ∨ (faults .rollback).isSome = true) :
    Leaks faults standalone := by
  obtain ⟨failure, ⟨hindex, hselect, hproof, hstruck⟩, hcaught⟩ := hstuck
  refine ⟨hsavepoint, hindex, hselect, hproof, failure, hstruck, ?_⟩
  rcases hcaught with ⟨hother, -⟩ | ⟨-, hto⟩
  · exact .inl hother
  · exact .inr ⟨raised, hto, hleft⟩

theorem pairKept_of_caught (d : Digests) (call : UpsertCall) {s : Session VecStore}
    (hcaught : ¬Leaks faults (s.depth == 0)) :
    PairKept call s (upsertVectorCall faults d call s).1 := by
  have hsame : PairKept call s s := ⟨.inl rfl, .inl rfl⟩
  rw [upsertVectorCall]
  split
  · exact hsame
  split
  · exact hsame
  split
  · exact hsame
  obtain ⟨hdepth, hcases⟩ := lockedUpsert_cases faults call s
  generalize lockedUpsert faults call s = result at hdepth hcases
  obtain ⟨after, _ | failure⟩ := result
  · obtain ⟨hnew, hcommitted⟩ := hcases
    refine ⟨.inr (.inl hnew), ?_⟩
    rcases hcommitted with hkept | ⟨hzero, hcommit⟩
    · exact .inl (congrArg (·.pairOf call.key) hkept)
    · exact .inr ⟨hzero, (congrArg (·.pairOf call.key) hcommit).trans hnew⟩
  · obtain ⟨hcommitted, hworking⟩ := hcases
    have hdurable := congrArg (·.pairOf call.key) hcommitted
    -- Where nothing is undone any more, nothing half-written may be there.
    have hleft : (failure = .other ∨ (s.depth == 0) = false ∨ (faults .rollback).isSome = true) →
        PairKept call s after := by
      intro hleft
      refine ⟨hworking.imp id (Or.imp id fun hstuck => ?_), .inl hdurable⟩
      exact absurd (leaks_of_stuck faults hstuck.1 hstuck.2 hleft) hcaught
    dsimp only
    split
    · rename_i hother
      exact hleft (.inl hother)
    · rw [handleUpsert, rollbackStandalone, hdepth]
      cases houter : (s.depth == 0) with
      | false =>
          rw [if_pos (by simpa using houter)]
          exact hleft (.inr (.inl houter))
      | true =>
          rw [if_neg (by simpa using houter)]
          cases hback : faults .rollback with
          | some again => exact hleft (.inr (.inr (by rw [hback]; rfl)))
          | none =>
              have hzero : s.depth = 0 := by simpa using houter
              exact ⟨.inr (.inr ⟨hzero, hdurable⟩), .inl hdurable⟩

/-- What a call has made of the rows when it stops halfway. -/
def HalfWritten (call : UpsertCall) (before after : VecStore) : Prop :=
  after = (before.insertIndex call.key).setProof call.key call.provenance ∨
    after = ((before.insertIndex call.key).setProof call.key call.provenance).deleteVector call.key

theorem runStages_halfway {failure : UpsertFailure} (h : Halfway faults failure)
    (call : UpsertCall) (s : Session VecStore) :
    ∃ working, HalfWritten call s.working working ∧
      runStages faults call.statements s = ({ s with working }, some failure) := by
  obtain ⟨hindex, hselect, hproof, hstruck⟩ := h
  cases hdelete : faults .deleteVector with
  | some struck =>
      rw [hdelete, Option.some_or] at hstruck
      refine ⟨_, .inl rfl, ?_⟩
      simp only [UpsertCall.statements, runStages, hindex, hselect, hproof, hdelete, hstruck, id]
  | none =>
      rw [hdelete, Option.none_or] at hstruck
      refine ⟨_, .inr rfl, ?_⟩
      simp only [UpsertCall.statements, runStages, hindex, hselect, hproof, hdelete, hstruck, id]

theorem lockedUpsert_leaks {s : Session VecStore} {standalone : Bool}
    (h : Leaks faults standalone) (hopen : s.inTransaction = true) (call : UpsertCall) :
    ∃ working raised, HalfWritten call s.working working ∧
      lockedUpsert faults call s = ({ s with working }, some raised) ∧
        (raised = .other ∨ standalone = false ∨ (faults .rollback).isSome = true) := by
  obtain ⟨hsavepoint, hindex, hselect, hproof, failure, hstruck, hcaught⟩ := h
  obtain ⟨working, hhalf, hrun⟩ :=
    runStages_halfway faults ⟨hindex, hselect, hproof, hstruck⟩ call s.begin
  have hbegin : s.begin = s := by rw [Session.begin, ← hopen]
  rw [hbegin] at hhalf hrun
  have hunder : ∀ raised, underSavepoint faults call s = ({ s with working }, some raised) →
      lockedUpsert faults call s = ({ s with working }, some raised) := by
    intro raised hunder
    simp only [lockedUpsert, hopen, if_true, hsavepoint, hbegin, hunder]
  by_cases hother : failure = .other
  · refine ⟨working, .other, hhalf, hunder .other ?_, .inl rfl⟩
    rw [underSavepoint, hrun, hother]
    exact if_pos rfl
  · obtain ⟨again, hto, hleft⟩ := hcaught.resolve_left hother
    refine ⟨working, again, hhalf, hunder again ?_, hleft⟩
    simp only [underSavepoint, hrun, if_neg hother, restoreSavepoint, hto]

theorem upsertVectorCall_leaks {s : Session VecStore} (h : Leaks faults (s.depth == 0))
    (hopen : s.inTransaction = true) (d : Digests) {call : UpsertCall}
    (havailable : call.vecAvailable = true) (hdim : call.embedding.length = call.dim)
    (hproof : call.provenance = none) :
    HalfWritten call s.working (upsertVectorCall faults d call s).1.working ∧
      (upsertVectorCall faults d call s).1.committed = s.committed := by
  obtain ⟨working, raised, hhalf, hlocked, hleft⟩ := lockedUpsert_leaks faults h hopen call
  have hbad : (call.provenance.any fun p => !d.matchesVector p call.embedding) = false := by
    rw [hproof]
    rfl
  have hback : (rollbackStandalone faults { s with working }).1 = { s with working } ∨
      raised = .other := by
    rcases hleft with hother | hinner | hfails
    · exact .inr hother
    · left
      rw [rollbackStandalone, if_pos (by simpa using hinner)]
    · left
      obtain ⟨again, hagain⟩ := Option.isSome_iff_exists.mp hfails
      rw [rollbackStandalone, hagain]
      split <;> rfl
  simp only [upsertVectorCall, havailable, hdim, hbad, hlocked, Bool.not_true, Bool.false_eq_true,
    if_false, ne_eq, not_true_eq_false]
  split
  · exact ⟨hhalf, rfl⟩
  · rename_i hsqlite
    have hkept := hback.resolve_right hsqlite
    have hafter : (handleUpsert faults { s with working } raised).1 = { s with working } := hkept
    rw [hafter]
    exact ⟨hhalf, rfl⟩

end Stops

def heldKey : RowKey := ⟨"team", "a"⟩

def heldProof : VectorProvenance := ⟨⟨"model", "float32", 1⟩, "input", "vector", "document", none⟩

/-- One vector with its proof. -/
def heldStore : VecStore where
  index := Table.empty.put heldKey ⟨1, some heldProof⟩
  vectors := Table.empty.put 1 [0]
  sequence := 1
  index_le := by
    intro k row hrow
    rw [Table.find_put] at hrow
    split at hrow
    · rw [← Option.some.inj hrow]
    · cases hrow
  vectors_le := by
    intro rowid e he
    rw [Table.find_put] at he
    split at he
    · rename_i heq
      exact Nat.le_of_eq heq
    · cases he

def held (depth : Nat) : Session VecStore := ⟨heldStore, heldStore, true, depth, []⟩

def otherVector : UpsertCall := ⟨true, 1, heldKey, [1], none⟩

theorem halfWritten_unlike {after : VecStore} (h : HalfWritten otherVector heldStore after) :
    after.pairOf heldKey ≠ heldStore.pairOf heldKey ∧
      after.pairOf heldKey ≠ some (otherVector.embedding, otherVector.provenance) := by
  rcases h with rfl | rfl <;> decide +kernel

/-- For the failure points of a call: whatever the rows are, they keep a pair of before or show
the new one, exactly when nothing that the failures left halfway stays so. -/
theorem pairKept_iff (d : Digests) (faults : Stage → Option UpsertFailure) (depth : Nat) :
    (∀ call s, s.depth = depth → PairKept call s (upsertVectorCall faults d call s).1) ↔
      ¬Leaks faults (depth == 0) := by
  constructor
  · intro hall hleaks
    obtain ⟨hhalf, -⟩ := @upsertVectorCall_leaks faults (held depth) hleaks rfl d otherVector
      rfl rfl rfl
    obtain ⟨hold, hnew⟩ := halfWritten_unlike hhalf
    rcases (hall otherVector (held depth) rfl).1 with hsame | hwritten | ⟨-, hdurable⟩
    · exact hold hsame
    · exact hnew hwritten
    · exact hold hdurable
  · rintro hcaught call s rfl
    exact pairKept_of_caught faults d call hcaught

/-- A `MemoryError`, or an interrupt, at the DELETE. -/
def interrupted : Stage → Option UpsertFailure := fun stage =>
  if stage = .deleteVector then some .other else none

def noDigests : Digests := ⟨id, fun _ => none⟩

/-- A call of its own on an idle connection: the old vector is left with the proof of another
one, in a transaction that stays open. -/
theorem interrupted_mismatch :
    ¬PairKept otherVector ⟨heldStore, heldStore, false, 0, []⟩
      (upsertVectorCall interrupted noDigests otherVector
        ⟨heldStore, heldStore, false, 0, []⟩).1 := by
  unfold PairKept
  decide +kernel

end TrwMemory.Storage

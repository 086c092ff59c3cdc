import Mathlib.Data.List.Basic

/-!
`transaction()` (`storage/_transaction.py`) over a tree of code that runs on one connection:
writes, exceptions, handlers, and further `transaction()` blocks. A write outside of any block
leaves the connection in an implicit transaction, which the next outermost block adopts.

Every commit is noted in `durable`. BEGIN, COMMIT and ROLLBACK of a block may raise. An error at
which SQLite itself gives a transaction up, and a commit by other means inside of a block, are
not modelled; another thread is kept out by the lock that a block holds.
-/
namespace TrwMemory.Storage

variable {σ ε : Type}

/-- A backend's connection and its `_skip_commit_depth`. -/
structure Session (σ : Type) where
  committed : σ
  working : σ
  inTransaction : Bool
  depth : Nat
  durable : List σ

namespace Session

def begin (s : Session σ) : Session σ := { s with inTransaction := true }

/-- A data statement; outside of a transaction it opens one. -/
def write (f : σ → σ) (s : Session σ) : Session σ :=
  { s with working := f s.working, inTransaction := true }

def commit (s : Session σ) : Session σ :=
  { s with
    committed := s.working
    inTransaction := false
    durable := s.durable ++ [s.working] }

def rollback (s : Session σ) : Session σ :=
  { s with working := s.committed, inTransaction := false }

def enter (s : Session σ) : Session σ := { s with depth := s.depth + 1 }

def leave (s : Session σ) : Session σ := { s with depth := s.depth - 1 }

end Session

/-- What the statements of a block raise. A `sqlite3.Error` of the ROLLBACK is logged; any
other exception of it is raised in place of the first. -/
structure BlockFaults (ε : Type) where
  begins : Option ε
  commits : Option ε
  rollsBack : Option (ε ⊕ Unit)

def BlockFaults.none : BlockFaults ε := ⟨.none, .none, .none⟩

/-- The code of a thread, between its entry into a backend and its return. -/
inductive Code (σ ε : Type) where
  | skip
  | write (f : σ → σ)
  | raise (e : ε)
  | seq (first rest : Code σ ε)
  | inspect (next : σ → Code σ ε)
  | attempt (body : Code σ ε) (catches : ε → Bool) (handler : Code σ ε)
  | transaction (faults : BlockFaults ε) (body : Code σ ε)

namespace Code

/-- `except BaseException` of a block: only the outermost one rolls back. -/
def abort (outer : Bool) (faults : BlockFaults ε) (s : Session σ) (e : ε) :
    Session σ × Option ε :=
  if outer then
    match faults.rollsBack with
    | .none => (s.rollback, some e)
    | .some (.inr ()) => (s, some e)
    | .some (.inl other) => (s, some other)
  else (s, some e)

/-- The end of a block's body: only the outermost one commits. -/
def close (outer : Bool) (faults : BlockFaults ε) :
    Session σ × Option ε → Session σ × Option ε
  | (s, some e) => abort outer faults s e
  | (s, .none) =>
      if outer then
        match faults.commits with
        | .none => (s.commit, .none)
        | .some e => abort outer faults s e
      else (s, .none)

/-- The exception, if one leaves the code. -/
def run : Code σ ε → Session σ → Session σ × Option ε
  | skip, s => (s, none)
  | write f, s => (s.write f, none)
  | raise e, s => (s, some e)
  | seq first rest, s =>
      match run first s with
      | (s, none) => run rest s
      | (s, some e) => (s, some e)
  | inspect next, s => run (next s.working) s
  | attempt body catches handler, s =>
      match run body s with
      | (s, none) => (s, none)
      | (s, some e) => if catches e then run handler s else (s, some e)
  | transaction faults body, s =>
      let outer := s.depth == 0
      match if outer && !s.inTransaction then faults.begins else none with
      | some e => (s, some e)
      | none =>
          let s := if outer then s.begin else s
          let (s, raised) := close outer faults (run body s.enter)
          (s.leave, raised)

/-- What the code does to the rows if its blocks are no transactions at all. -/
def plain : Code σ ε → σ → σ × Option ε
  | skip, db => (db, none)
  | write f, db => (f db, none)
  | raise e, db => (db, some e)
  | seq first rest, db =>
      match plain first db with
      | (db, none) => plain rest db
      | (db, some e) => (db, some e)
  | inspect next, db => plain (next db) db
  | attempt body catches handler, db =>
      match plain body db with
      | (db, none) => (db, none)
      | (db, some e) => if catches e then plain handler db else (db, some e)
  | transaction _ body, db => plain body db

theorem depth_abort (outer : Bool) (faults : BlockFaults ε) (s : Session σ) (e : ε) :
    (abort outer faults s e).1.depth = s.depth := by
  rw [abort]
  split
  · split <;> rfl
  · rfl

theorem depth_close (outer : Bool) (faults : BlockFaults ε) (result : Session σ × Option ε) :
    (close outer faults result).1.depth = result.1.depth := by
  obtain ⟨s, _ | e⟩ := result
  · rw [close]
    split
    · split
      · rfl
      · exact depth_abort outer faults s _
    · rfl
  · exact depth_abort outer faults s e

theorem depth_run (code : Code σ ε) (s : Session σ) : (run code s).1.depth = s.depth := by
  induction code generalizing s with
  | skip => rfl
  | write f => rfl
  | raise e => rfl
  | seq first rest ihfirst ihrest =>
      have hfirst := ihfirst s
      rw [run]
      generalize run first s = result at hfirst
      obtain ⟨t, _ | e⟩ := result
      · exact (ihrest t).trans hfirst
      · exact hfirst
  | inspect next ih => exact ih s.working s
  | attempt body catches handler ihbody ihhandler =>
      have hbody := ihbody s
      rw [run]
      generalize run body s = result at hbody
      obtain ⟨t, _ | e⟩ := result
      · exact hbody
      · dsimp only
        split
        · exact (ihhandler t).trans hbody
        · exact hbody
  | transaction faults body ih =>
      rw [run]
      dsimp only
      split
      · rfl
      · have hbody := ih (if s.depth == 0 then s.begin else s).enter
        have hclose := depth_close (s.depth == 0) faults
          (run body (if s.depth == 0 then s.begin else s).enter)
        rw [Session.leave, hclose, hbody, Session.enter, Nat.add_sub_cancel]
        split <;> rfl

/-- Nothing is committed or rolled back; the blocks inside are no transactions. -/
theorem run_inside (code : Code σ ε) (s : Session σ) (hdepth : 0 < s.depth)
    (hopen : s.inTransaction = true) :
    run code s = ({ s with working := (plain code s.working).1 }, (plain code s.working).2) := by
  induction code generalizing s with
  | skip => rfl
  | write f =>
      rw [run, Session.write, plain, ← hopen]
  | raise e => rfl
  | seq first rest ihfirst ihrest =>
      rw [run, ihfirst s hdepth hopen, plain]
      generalize plain first s.working = result
      obtain ⟨db, _ | e⟩ := result
      · exact ihrest { s with working := db } hdepth hopen
      · rfl
  | inspect next ih => exact ih s.working s hdepth hopen
  | attempt body catches handler ihbody ihhandler =>
      rw [run, ihbody s hdepth hopen, plain]
      generalize plain body s.working = result
      obtain ⟨db, _ | e⟩ := result
      · rfl
      · dsimp only
        split
        · exact ihhandler { s with working := db } hdepth hopen
        · rfl
  | transaction faults body ih =>
      have hinner : (s.depth == 0) = false := by
        rw [beq_eq_false_iff_ne]
        omega
      have hbody : run body s.enter =
          ({ s.enter with working := (plain body s.working).1 }, (plain body s.working).2) :=
        ih s.enter (Nat.succ_pos _) hopen
      simp only [run, hinner, Bool.false_and, Bool.false_eq_true, if_false]
      rw [hbody, plain]
      generalize plain body s.working = result
      obtain ⟨db, _ | e⟩ := result <;> rfl

/-- One transaction around the code, with no blocks in it. -/
def oneTransaction (faults : BlockFaults ε) (code : Code σ ε) (s : Session σ) :
    Session σ × Option ε :=
  match if s.inTransaction then none else faults.begins with
  | some e => (s, some e)
  | none =>
      close true faults
        ({ s.begin with working := (plain code s.working).1 }, (plain code s.working).2)

theorem leave_close (faults : BlockFaults ε) (s : Session σ) (raised : Option ε) :
    (Session.leave (close true faults (s.enter, raised)).1,
        (close true faults (s.enter, raised)).2) = close true faults (s, raised) := by
  cases raised with
  | none =>
      rw [close, close, if_pos rfl, if_pos rfl]
      cases faults.commits with
      | none => rfl
      | some e =>
          dsimp only
          rw [abort, abort, if_pos rfl, if_pos rfl]
          split <;> rfl
  | some e =>
      rw [close, close, abort, abort, if_pos rfl, if_pos rfl]
      split <;> rfl

theorem run_transaction (faults : BlockFaults ε) (body : Code σ ε) {s : Session σ}
    (hdepth : s.depth = 0) :
    run (.transaction faults body) s = oneTransaction faults body s := by
  have houter : (s.depth == 0) = true := by rw [hdepth]; rfl
  have hbegin : (if (!s.inTransaction) = true then faults.begins else none) =
      if s.inTransaction = true then none else faults.begins := by
    cases s.inTransaction <;> rfl
  simp only [run, oneTransaction, houter, Bool.true_and, if_true]
  rw [hbegin]
  cases (if s.inTransaction = true then none else faults.begins) with
  | some e => rfl
  | none =>
      dsimp only
      rw [run_inside body s.begin.enter (Nat.succ_pos _) rfl]
      exact leave_close faults { s.begin with working := (plain body s.working).1 } _

/-- A normal exit commits what the writes have made, once. -/
theorem close_committed {faults : BlockFaults ε} {s : Session σ} {raised : Option ε}
    (h : (close true faults (s, raised)).2 = none) :
    raised = none ∧ (close true faults (s, raised)).1 = s.commit := by
  have habort : ∀ e, (abort true faults s e).2 ≠ none := by
    intro e
    rw [abort, if_pos rfl]
    split <;> exact Option.some_ne_none _
  cases raised with
  | some e => exact absurd h (habort e)
  | none =>
      rw [close, if_pos rfl] at h ⊢
      cases hcommit : faults.commits with
      | none => exact ⟨rfl, rfl⟩
      | some e =>
          rw [hcommit] at h
          exact absurd h (habort e)

/-- An exception that leaves the outermost block has made nothing durable. -/
theorem close_raised {faults : BlockFaults ε} {s : Session σ} {raised : Option ε} {e : ε}
    (h : (close true faults (s, raised)).2 = some e) :
    (close true faults (s, raised)).1.durable = s.durable ∧
      (close true faults (s, raised)).1.committed = s.committed ∧
      (faults.rollsBack = none → (close true faults (s, raised)).1.working = s.committed) := by
  have habort : ∀ e, (abort true faults s e).1.durable = s.durable ∧
      (abort true faults s e).1.committed = s.committed ∧
      (faults.rollsBack = none → (abort true faults s e).1.working = s.committed) := by
    intro e
    rw [abort, if_pos rfl]
    cases hback : faults.rollsBack with
    | none => exact ⟨rfl, rfl, fun _ => rfl⟩
    | some fault => cases fault <;> exact ⟨rfl, rfl, fun hnone => by cases hnone⟩
  cases raised with
  | some e => exact habort e
  | none =>
      rw [close, if_pos rfl] at h ⊢
      cases hcommit : faults.commits with
      | none =>
          rw [hcommit] at h
          cases h
      | some e => exact habort e

/-- What the code inside of a block does not do. -/
def StaysInside (code : Code σ ε) : Prop :=
  ∀ s : Session σ, 0 < s.depth → s.inTransaction = true →
    (run code s).1.durable = s.durable ∧ (run code s).1.committed = s.committed

/-- Whatever stands in an outermost block: what its writes have made becomes durable once, at
its normal exit; an exception that leaves it makes nothing durable, and a ROLLBACK that works
leaves the last durable rows. That is the state at its entry unless the block has adopted
writes from before it. -/
theorem transaction_once (faults : BlockFaults ε) (body : Code σ ε) (s : Session σ)
    (hdepth : s.depth = 0) :
    StaysInside body ∧
    (run (.transaction faults body) s).1.depth = s.depth ∧
    ((run (.transaction faults body) s).2 = none →
      (plain body s.working).2 = none ∧
        (run (.transaction faults body) s).1.committed = (plain body s.working).1 ∧
        (run (.transaction faults body) s).1.durable =
          s.durable ++ [(plain body s.working).1]) ∧
    ∀ e, (run (.transaction faults body) s).2 = some e →
      (run (.transaction faults body) s).1.durable = s.durable ∧
        (run (.transaction faults body) s).1.committed = s.committed ∧
        (faults.rollsBack = none → (s.inTransaction = false → s.working = s.committed) →
          (run (.transaction faults body) s).1.working = s.committed) := by
  refine ⟨fun t ht hopen => ?_, depth_run _ s, ?_⟩
  · rw [run_inside body t ht hopen]
    exact ⟨rfl, rfl⟩
  rw [run_transaction faults body hdepth, oneTransaction]
  cases hbegin : (if s.inTransaction = true then none else faults.begins) with
  | some failure =>
      have hidle : s.inTransaction = false := by
        cases hopen : s.inTransaction with
        | false => rfl
        | true =>
            rw [hopen] at hbegin
            cases hbegin
      exact ⟨fun h => (by cases h), fun e _ => ⟨rfl, rfl, fun _ hsettled => hsettled hidle⟩⟩
  | none =>
      refine ⟨fun hnone => ?_, fun e he => ?_⟩
      · obtain ⟨hplain, hcommit⟩ := close_committed hnone
        rw [hcommit]
        exact ⟨hplain, rfl, rfl⟩
      · obtain ⟨hdurable, hcommitted, hworking⟩ := close_raised he
        exact ⟨hdurable, hcommitted, fun hback _ => hworking hback⟩

/-- A block with an inner one whose exception is caught. -/
def nested : Code (List Nat) Unit :=
  .seq (.write (1 :: ·)) <|
    .seq (.attempt (.transaction .none (.seq (.write (2 :: ·)) (.raise ()))) (fun _ => true) .skip)
      (.write (3 :: ·))

def fresh : Session (List Nat) := ⟨[], [], false, 0, []⟩

example : (run (.transaction .none nested) fresh).1.durable = [[3, 2, 1]] := by decide

theorem nested_once :
    StaysInside nested ∧ (run (.transaction .none nested) fresh).1.depth = fresh.depth ∧
      (run (.transaction .none nested) fresh).1.durable =
        fresh.durable ++ [(plain nested fresh.working).1] := by
  have honce := transaction_once .none nested fresh rfl
  exact ⟨honce.1, honce.2.1, (honce.2.2.1 (by decide)).2.2⟩

/-- An exception that leaves an outermost block restores the state at its entry. -/
def RestoresEntry (faults : BlockFaults ε) (body : Code σ ε) (s : Session σ) : Prop :=
  (run (.transaction faults body) s).2 ≠ none →
    (run (.transaction faults body) s).1.working = s.working

/-- The block adopts a write that was pending at its entry, and rolls it back. -/
theorem adopted_not_restored :
    ¬RestoresEntry .none (.raise ()) (fresh.write (1 :: ·)) := by
  intro h
  have hworking := h (by decide)
  exact absurd hworking (by decide)

end Code

end TrwMemory.Storage

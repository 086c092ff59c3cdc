import TrwMemory.Storage.SidecarBatch

/-!
One connection, its transaction, and calls that raise (`storage/_transaction.py`,
`store_many`). Every write but `store_many` runs inside `transaction()`, which rolls
back on whatever is raised; `store_many` opens its own transaction and rolls back on
the exceptions that it names.

A fault is the environment's: it may strike at the BEGIN, at any statement or at the
commit. A rollback that fails itself, and a database file replaced under the
connection, are not modelled.
-/
namespace TrwMemory.Storage

open Library.Keyed Sync

/-- What is durable, what the connection sees, and whether it is in a transaction. -/
structure Connection where
  committed : Db
  working : Db
  inTransaction : Bool

namespace Connection

/-- A connection outside any transaction. -/
def idle (db : Db) : Connection := ⟨db, db, false⟩

def rollback (c : Connection) : Connection := idle c.committed

def commit (c : Connection) : Connection := idle c.working

end Connection

/-- What is raised. `other` is neither a `sqlite3.Error` nor a `JSONDecodeError`: an
`OverflowError` for an integer that SQLite cannot hold, a `MemoryError`, an interrupt. -/
inductive Raised where
  | sqliteError | jsonDecodeError | other
  deriving DecidableEq, Repr

/-- Where a call is struck. The commit comes after the last statement. -/
inductive Point where
  | begin
  | statement (n : Nat)
  deriving DecidableEq, Repr

structure Fault where
  point : Point
  raised : Raised
  deriving DecidableEq, Repr

inductive Outcome where
  | committed | returned | raised
  deriving DecidableEq, Repr

/-- The statements up to the fault, and what it raises when it is reached. -/
def executeTo (statements : List Statement) (fault : Option Fault) (db : Db) : Db × Option Raised :=
  match fault with
  | some ⟨.statement n, raised⟩ =>
      if n ≤ statements.length then (execute (statements.take n) db, some raised)
      else (execute statements db, none)
  | _ => (execute statements db, none)

/-- The fault strikes before there is a transaction. -/
def strikesBegin (fault : Option Fault) : Bool := fault.any fun f => f.point == .begin

/-- A call inside `transaction()`, which adopts a transaction that is open already. -/
def transactionCall (digest : SyncContent → String) (b : Backend) (c : Connection) (call : Call)
    (fault : Option Fault) : Connection × Outcome :=
  if !c.inTransaction && strikesBegin fault then (c, .raised)
  else
    match call.script digest b c.working with
    | .error _ => (c.rollback, .raised)
    | .ok statements =>
        match executeTo statements fault c.working with
        | (_, some _) => (c.rollback, .raised)
        | (db, none) => ({ c with working := db }.commit, .committed)

/-- `store_many`: its BEGIN is refused inside an open transaction, and it rolls back on
a refused batch, on a SQLite error and on a decoding error. -/
def storeManyCall (digest : SyncContent → String) (b : Backend) (c : Connection)
    (entries : List MemoryEntry) (fault : Option Fault) : Connection × Outcome :=
  if entries.isEmpty then (c, .returned)
  else
    match entries.forM validateEntryForWrite with
    | .error _ => (c, .raised)
    | .ok () =>
        if c.inTransaction then (c.rollback, .raised)
        else if strikesBegin fault then (c, .raised)
        else
          match storeManyScript digest b c.working entries with
          | .error _ => (c.rollback, .raised)
          | .ok statements =>
              match executeTo statements fault c.working with
              | (db, none) => ({ c with working := db }.commit, .committed)
              | (db, some .other) => ({ c with working := db, inTransaction := true }, .raised)
              | (_, some _) => (c.rollback, .raised)

def invoke (digest : SyncContent → String) (b : Backend) (c : Connection) (call : Call)
    (fault : Option Fault) : Connection × Outcome :=
  match call with
  | .storeMany entries => storeManyCall digest b c entries fault
  | call => transactionCall digest b c call fault

/-- Calls one after the other on one connection, and how each of them ended. -/
def invokeAll (digest : SyncContent → String) (b : Backend) :
    Connection → List (Call × Option Fault) → Connection × List Outcome
  | c, [] => (c, [])
  | c, (call, fault) :: rest =>
      let (next, outcome) := invoke digest b c call fault
      let (last, outcomes) := invokeAll digest b next rest
      (last, outcome :: outcomes)

/-- Whatever calls follow, once one of them has committed the store is what they alone
would have made of it. -/
def LeavesNothing (digest : SyncContent → String) (b : Backend) (db : Db) (call : Call)
    (fault : Option Fault) : Prop :=
  ∀ following : List (Call × Option Fault),
    Outcome.committed ∈
        (invokeAll digest b (invoke digest b (.idle db) call fault).1 following).2 →
      (invokeAll digest b (invoke digest b (.idle db) call fault).1 following).1 =
        (invokeAll digest b (.idle db) following).1

/-- A batch whose checks pass and that raises after its BEGIN what no clause catches. -/
def escapes (digest : SyncContent → String) (b : Backend) (db : Db) (call : Call)
    (fault : Option Fault) : Bool :=
  match call, fault with
  | .storeMany entries, some ⟨.statement _, .other⟩ =>
      !entries.isEmpty && (storeManyScript digest b db entries).isOk
  | _, _ => false

variable {digest : SyncContent → String} {b : Backend} {db : Db}

theorem rollback_idle (db : Db) : (Connection.idle db).rollback = .idle db := rfl

/-- A call inside `transaction()` that raises has been rolled back. -/
theorem transactionCall_raised {call : Call} {fault : Option Fault}
    (h : (transactionCall digest b (.idle db) call fault).2 = .raised) :
    (transactionCall digest b (.idle db) call fault).1 = .idle db := by
  unfold transactionCall at h ⊢
  split at h
  · rename_i hbegin
    rw [if_pos hbegin]
  · rename_i hbegin
    rw [if_neg hbegin]
    cases hscript : call.script digest b (Connection.idle db).working with
    | error _ => rfl
    | ok statements =>
        simp only [hscript] at h
        cases hexec : executeTo statements fault (Connection.idle db).working with
        | mk after raised =>
            cases raised with
            | some _ => simp only [hexec, rollback_idle]
            | none => simp only [hexec] at h; cases h

theorem escapes_of_other {entries : List MemoryEntry} {statements : List Statement}
    {fault : Option Fault} {after : Db} (hempty : entries.isEmpty = false)
    (hscript : storeManyScript digest b db entries = .ok statements)
    (hexec : executeTo statements fault db = (after, some .other)) :
    escapes digest b db (.storeMany entries) fault = true := by
  cases fault with
  | none => cases hexec
  | some fault =>
      obtain ⟨point, raised⟩ := fault
      cases point with
      | begin => cases hexec
      | statement n =>
          simp only [executeTo] at hexec
          split at hexec
          · obtain ⟨-, hraised⟩ := Prod.mk.inj hexec
            obtain rfl := Option.some.inj hraised
            simp only [escapes, hempty, hscript]
            rfl
          · cases (Prod.mk.inj hexec).2

/-- A batch that raises and does not escape has been rolled back. -/
theorem storeManyCall_raised {entries : List MemoryEntry} {fault : Option Fault}
    (h : (storeManyCall digest b (.idle db) entries fault).2 = .raised)
    (hcaught : escapes digest b db (.storeMany entries) fault = false) :
    (storeManyCall digest b (.idle db) entries fault).1 = .idle db := by
  unfold storeManyCall at h ⊢
  cases hempty : entries.isEmpty with
  | true => rfl
  | false =>
      cases hv : entries.forM validateEntryForWrite with
      | error _ => rfl
      | ok _ =>
          simp only [hempty, hv, Connection.idle, Bool.false_eq_true, if_false] at h ⊢
          cases hbegin : strikesBegin fault with
          | true => rfl
          | false =>
              simp only [hbegin, Bool.false_eq_true, if_false] at h ⊢
              cases hscript : storeManyScript digest b db entries with
              | error _ => rfl
              | ok statements =>
                  simp only [hscript] at h ⊢
                  cases hexec : executeTo statements fault db with
                  | mk after raised =>
                      simp only [hexec] at h ⊢
                      cases raised with
                      | none => cases h
                      | some raised =>
                          cases raised with
                          | sqliteError | jsonDecodeError => rfl
                          | other =>
                              rw [escapes_of_other hempty hscript hexec] at hcaught
                              cases hcaught

/-- Following calls see no difference. -/
theorem leavesNothing_of_eq {call : Call} {fault : Option Fault}
    (h : (invoke digest b (.idle db) call fault).1 = .idle db) :
    LeavesNothing digest b db call fault := by
  intro following _
  rw [h]

theorem leavesNothing_of_caught {call : Call} {fault : Option Fault}
    (hraised : (invoke digest b (.idle db) call fault).2 = .raised)
    (hcaught : escapes digest b db call fault = false) : LeavesNothing digest b db call fault := by
  apply leavesNothing_of_eq
  cases call with
  | storeMany entries => exact storeManyCall_raised hraised hcaught
  | store entry => exact transactionCall_raised hraised
  | update k blocks fields now => exact transactionCall_raised hraised
  | delete k => exact transactionCall_raised hraised
  | deleteMany ns ids => exact transactionCall_raised hraised
  | deleteByNamespace ns => exact transactionCall_raised hraised

/-- A batch whose checks pass has passed the first of them. -/
theorem validated_of_storeManyScript {entries : List MemoryEntry} {statements : List Statement}
    (hempty : entries.isEmpty = false)
    (h : storeManyScript digest b db entries = .ok statements) :
    entries.forM validateEntryForWrite = .ok () := by
  cases hv : entries.forM validateEntryForWrite with
  | ok _ => rfl
  | error _ =>
      simp only [storeManyScript, hempty, storeManyRows] at h
      rw [hv] at h
      cases h

/-- The transaction stays open, with whatever the statements did. -/
theorem storeManyCall_escapes {entries : List MemoryEntry} {fault : Option Fault}
    (h : (storeManyCall digest b (.idle db) entries fault).2 = .raised)
    (hescapes : escapes digest b db (.storeMany entries) fault = true) :
    ∃ left, (storeManyCall digest b (.idle db) entries fault).1 = ⟨db, left, true⟩ := by
  unfold escapes at hescapes
  split at hescapes
  · rename_i entries' n hcall
    obtain rfl := Call.storeMany.inj hcall
    simp only [Bool.and_eq_true, Bool.not_eq_true'] at hescapes
    obtain ⟨hempty, hok⟩ := hescapes
    cases hscript : storeManyScript digest b db entries with
    | error _ => simp [hscript, Except.isOk, Except.toBool] at hok
    | ok statements =>
        have hv := validated_of_storeManyScript hempty hscript
        have hbegin : strikesBegin (some ⟨.statement n, .other⟩) = false := rfl
        simp only [storeManyCall, hempty, hv, hbegin, Connection.idle, hscript,
          Bool.false_eq_true, if_false] at h ⊢
        by_cases hn : n ≤ statements.length
        · simp only [executeTo, if_pos hn]
          exact ⟨_, rfl⟩
        · simp only [executeTo, if_neg hn] at h
          cases h
  · cases hescapes

/-- A commit of nothing makes what was left durable. -/
theorem deleteNothing (c : Connection) :
    invoke digest b c (.deleteMany "" []) none = (c.commit, .committed) := by
  have hbegin : (!c.inTransaction && strikesBegin none) = false := by
    simp [strikesBegin]
  simp only [invoke, transactionCall, hbegin]
  rfl

/-- An entry that no row of the store is, once it is stamped. -/
def unlike (db : Db) : MemoryEntry :=
  { MemoryEntry.ofDefaults "x" "" "" ⟨0, some 0⟩ x_ne_empty with
    syncSeq := ((db.memories.find ⟨"", "x"⟩).map MemoryEntry.syncSeq).getD 0 }

theorem memories_storeOne (b : Backend) (row : MemoryEntry) (db : Db) :
    (execute (storeManyStatements b [row]) db).memories = db.memories.put (rowKey row) row := by
  have hfts : FtsOnly (if b.ftsAvailable then storeManyFts (finalEntries [row]) else []) := by
    split
    · exact ftsOnly_storeManyFts _
    · exact fun db => ⟨db.memoriesFts, db.memoriesFtsRowid, rfl⟩
  obtain ⟨fts, map, hexec⟩ := hfts (insertOrReplace row db)
  have hfinal : finalEntries [row] = [row] := by
    simp [finalEntries, List.eraseDups_cons]
  rw [storeManyStatements, execute_append, execute_append, List.map_singleton, execute_cons,
    execute_nil, hexec, hfinal, List.flatMap_singleton, execute_replacePostings]
  rfl

theorem validate_unlike (db : Db) : validateEntryForWrite (unlike db) = .ok () := by
  have hshort : ¬MAX_ENTRY_ID_CHARS < "x".length := by decide
  exact if_neg hshort

theorem forM_singleton_ok {check : MemoryEntry → Except WriteError Unit} {entry : MemoryEntry}
    (h : check entry = .ok ()) : [entry].forM check = .ok () := by
  change (check entry >>= fun _ => pure ()) = _
  rw [h]
  rfl

theorem storeManyScript_unlike (digest : SyncContent → String) (b : Backend) (db : Db) :
    storeManyScript digest b db [unlike db] =
      .ok (storeManyStatements b [stampSync digest (unlike db)]) := by
  have hr : refuseViolation (db.memories.find (rowKey (unlike db))) (unlike db) = .ok () := rfl
  have hrefused : [unlike db].forM (fun entry =>
      refuseViolation (db.memories.find (rowKey entry)) entry) = .ok () := forM_singleton_ok hr
  simp only [storeManyScript, storeManyRows]
  rw [forM_singleton_ok (validate_unlike db), hrefused]
  rfl

theorem storeUnlike (digest : SyncContent → String) (b : Backend) (db : Db) :
    ∃ after, invoke digest b (.idle db) (.storeMany [unlike db]) none = (.idle after, .committed) ∧
      after ≠ db := by
  refine ⟨execute (storeManyStatements b [stampSync digest (unlike db)]) db, ?_, ?_⟩
  · have hv := forM_singleton_ok (validate_unlike db)
    have hbegin : strikesBegin none = false := rfl
    simp only [invoke, storeManyCall, hv, hbegin, storeManyScript_unlike, Connection.idle,
      List.isEmpty_cons, Bool.false_eq_true, if_false]
    rfl
  · intro hsame
    have hrow : db.memories.find (rowKey (unlike db)) = some (stampSync digest (unlike db)) := by
      have hput := memories_storeOne b (stampSync digest (unlike db)) db
      rw [hsame] at hput
      rw [hput, Table.find_put]
      exact if_pos rfl
    have hseq : (unlike db).syncSeq =
        ((db.memories.find (rowKey (unlike db))).map MemoryEntry.syncSeq).getD 0 := rfl
    rw [hrow] at hseq
    simp [stampSync] at hseq

/-- What is left in the open transaction is made durable by one commit, or else makes
another call fail. -/
theorem not_leavesNothing_of_open {call : Call} {fault : Option Fault} {left : Db}
    (h : (invoke digest b (.idle db) call fault).1 = ⟨db, left, true⟩) :
    ¬LeavesNothing digest b db call fault := by
  intro hnothing
  by_cases hleft : left = db
  · obtain ⟨after, halone, hne⟩ := storeUnlike digest b db
    have hrefused : invoke digest b ⟨db, left, true⟩ (.storeMany [unlike db]) none =
        (.idle db, .raised) := by
      have hv := forM_singleton_ok (validate_unlike db)
      simp only [invoke, storeManyCall, hv, List.isEmpty_cons, Bool.false_eq_true, if_false]
      rfl
    have hafter := hnothing [(.storeMany [unlike db], none), (.deleteMany "" [], none)]
    simp only [invokeAll, h, hrefused, halone, deleteNothing] at hafter
    exact hne (congrArg Connection.committed (hafter (by simp))).symm
  · have hafter := hnothing [(.deleteMany "" [], none)]
    simp only [invokeAll, h, deleteNothing] at hafter
    exact hleft (congrArg Connection.committed (hafter (by simp)))

/-- A call that raises leaves nothing behind exactly when it is not a batch whose checks
pass and that raises, after its BEGIN, neither a SQLite error nor a decoding error. -/
theorem leavesNothing_iff {call : Call} {fault : Option Fault}
    (hraised : (invoke digest b (.idle db) call fault).2 = .raised) :
    LeavesNothing digest b db call fault ↔ escapes digest b db call fault = false := by
  refine ⟨fun hnothing => ?_, leavesNothing_of_caught hraised⟩
  cases hescapes : escapes digest b db call fault with
  | false => rfl
  | true =>
      cases call with
      | storeMany entries =>
          obtain ⟨left, hopen⟩ := storeManyCall_escapes hraised hescapes
          exact absurd hnothing (not_leavesNothing_of_open hopen)
      | _ => cases hescapes

def noted (id : String) (hid : id ≠ "") : MemoryEntry :=
  MemoryEntry.ofDefaults id "text" "south" ⟨0, some 0⟩ hid

def nameDigest (c : SyncContent) : String := "sha256:" ++ c.content

def opened : Backend := ⟨false, true, 4⟩

/-- SQLite refuses the posting of a row that is written already. -/
theorem refusedPosting_leavesNothing :
    LeavesNothing nameDigest opened Db.empty (.store (noted "a" (by decide)))
      (some ⟨.statement 3, .sqliteError⟩) :=
  (leavesNothing_iff (by decide +kernel)).mpr rfl

/-- Two entries, of which the second holds an integer that SQLite cannot bind. -/
def overflowing : Call :=
  .storeMany [noted "a" a_ne_empty, { noted "b" b_ne_empty with recurrence := 2 ^ 63 }]

def overflow : Option Fault := some ⟨.statement 1, .other⟩

def thenNothing : List (Call × Option Fault) := [(.deleteMany "" [], none)]

/-- The connection after the batch and a deletion of nothing. -/
def afterOverflow : Connection × List Outcome :=
  invokeAll nameDigest opened
    (invoke nameDigest opened (.idle Db.empty) overflowing overflow).1 thenNothing

/-- The deletion of nothing commits the row of the first entry, without the FTS row that
goes with it. -/
theorem overflow_leaves_row :
    (invoke nameDigest opened (.idle Db.empty) overflowing overflow).2 = .raised ∧
    afterOverflow.2 = [.committed] ∧
    (afterOverflow.1.committed.memories.find ⟨"south", "a"⟩).isSome = true ∧
    afterOverflow.1.committed.memoriesFts.rows = [] ∧
    ¬LeavesNothing nameDigest opened Db.empty overflowing overflow := by
  have hcommitted : afterOverflow.2 = [.committed] := by decide +kernel
  have hrow : (afterOverflow.1.committed.memories.find ⟨"south", "a"⟩).isSome = true := by
    decide +kernel
  refine ⟨by decide +kernel, hcommitted, hrow, by decide +kernel, fun hnothing => ?_⟩
  have hsame : afterOverflow.1 = (invokeAll nameDigest opened (.idle Db.empty) thenNothing).1 :=
    hnothing thenNothing (hcommitted ▸ List.mem_singleton_self _)
  have halone :
      ((invokeAll nameDigest opened (.idle Db.empty) thenNothing).1.committed.memories.find
      ⟨"south", "a"⟩).isSome = false := by
    decide +kernel
  rw [hsame, halone] at hrow
  cases hrow

end TrwMemory.Storage

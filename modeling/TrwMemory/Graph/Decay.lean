import TrwMemory.Library.Keyset
import TrwMemory.Models.Timestamps
import TrwMemory.Storage.Connection
import Mathlib.Data.Prod.Lex
import Mathlib.Data.String.Basic

/-!
The decay of unused entries (`memory_decay_pass`, `_graph_decay.py`). A pass examines the next
rows of its namespaces in the order of the primary key, whether or not they decay, and hands
out the last one it examined.

A fault is an `Exception` at the window's query, at an update or at the commit; an interrupt
is left out, as are logs and the lock.
-/
namespace TrwMemory.Graph

open Library.Keyset Library.Keyed Storage

/-- `ORDER BY namespace, id`. -/
def decayKey (k : RowKey) : String ×ₗ String := toLex (k.ns, k.id)

/-- `namespace IN (...)`. -/
def inScope (namespaces : Option (List String)) (k : RowKey) : Bool :=
  namespaces.all fun scope => scope.contains k.ns

/-- `(namespace, id) > (?, ?)`. -/
def seeks (cursor : Option RowKey) (k : RowKey) : Bool :=
  cursor.all fun c => c.ns < k.ns || (c.ns == k.ns && c.id < k.id)

structure DecayCall where
  cutoffDays : Int
  batchSize : Int
  now : Datetime
  batchNow : Datetime
  fault : Option Fault

/-- `now - timedelta(days=cutoff_days)`; `none` is an `OverflowError`. -/
def DecayCall.cutoff (call : DecayCall) : Option Datetime :=
  let wall := call.now.wall - call.cutoffDays * Datetime.DAY
  if 0 ≤ wall ∧ wall < Datetime.MAX_WALL then some { call.now with wall } else none

def DecayCall.effectiveBatchSize (call : DecayCall) : Nat := min call.batchSize.toNat 1000

/-- `COALESCE(last_accessed_at, created_at) < ?`, of the texts. -/
def decays (cutoff : Datetime) (e : MemoryEntry) : Bool :=
  (e.lastAccessedAt.getD e.createdAt).isoformat < cutoff.isoformat

/-- The rows that a pass examines. -/
def decayWindow (db : Db) (namespaces : Option (List String)) (cursor : Option RowKey) (n : Nat) :
    List (RowKey × MemoryEntry) :=
  (sortOn (fun row => decayKey row.1)
    (db.memories.rows.filter fun row => seeks cursor row.1 && inScope namespaces row.1)).take n

/-- The fields of a row that decays. -/
def decayFields (call : DecayCall) (row : MemoryEntry) : Patch :=
  let newValue := lowered row.importance
  let outcome := decayOutcome call.cutoffDays newValue call.batchNow
  (Patch.none.set .importance newValue).set .outcomeHistory (row.outcomeHistory ++ [outcome])

/-- The update of one row. -/
def decayStatement (call : DecayCall) (row : RowKey × MemoryEntry) : Statement :=
  updateMemories row.1 (decayFields call row.2)

/-- The code keeps the rows of its window and those that it updates to itself. -/
structure DecayResult where
  processed : Nat
  next : Option RowKey
  examined : List RowKey
  decayed : List RowKey
  deriving DecidableEq

/-- `"more"`. -/
def DecayResult.more (result : DecayResult) : Bool := result.next.isSome

/-- `memory_decay_pass`: what it leaves of the connection, and its result unless it raises. -/
def memoryDecayPass (c : Connection) (namespaces : Option (List String)) (cursor : Option RowKey)
    (call : DecayCall) : Connection × Option DecayResult :=
  if call.batchSize ≤ 0 then (c, none)
  else
    match call.cutoff with
    | none => (c, none)
    | some cutoff =>
        if strikesBegin call.fault then (c, none)
        else
          let rows := decayWindow c.working namespaces cursor call.effectiveBatchSize
          let eligible := rows.filter fun row => decays cutoff row.2
          match executeTo (eligible.map (decayStatement call)) call.fault c.working with
          | (_, some _) => (c.rollback, none)
          | (db, none) =>
              ({ c with working := db }.commit,
                some
                  { processed := eligible.length
                    next :=
                      if rows.length < call.effectiveBatchSize then none
                      else rows.getLast?.map Prod.fst
                    examined := rows.map Prod.fst
                    decayed := eligible.map Prod.fst })

/-- The store, the cursor that is kept between passes, and what was examined so far. -/
structure Decaying where
  connection : Connection
  next : Option RowKey
  examined : List RowKey

/-- One call, after which the cursor is kept only if it returned. -/
def Decaying.pass (namespaces : Option (List String)) (s : Decaying) (call : DecayCall) :
    Decaying :=
  match memoryDecayPass s.connection namespaces s.next call with
  | (connection, none) => { s with connection }
  | (connection, some result) =>
      { connection
        next := result.next
        examined := s.examined ++ result.examined }

def Decaying.start (db : Db) : Decaying := ⟨.idle db, none, []⟩

/-- The rows in scope, in the order of their keys. -/
def scopeKeys (db : Db) (namespaces : Option (List String)) : List RowKey :=
  sortOn decayKey (db.memories.keys.filter (inScope namespaces))

theorem decayKey_injective : Function.Injective decayKey := by
  rintro ⟨ns, id⟩ ⟨ns', id'⟩ h
  obtain ⟨rfl, rfl⟩ := Prod.mk.inj h
  rfl

theorem seeks_iff (cursor : Option RowKey) (k : RowKey) :
    seeks cursor k = true ↔ ∀ c ∈ cursor, decayKey c < decayKey k := by
  cases cursor with
  | none => simp [seeks]
  | some c => simp [seeks, decayKey, Prod.Lex.toLex_lt_toLex]

theorem nodup_scopeKeys (db : Db) (namespaces : Option (List String)) :
    (scopeKeys db namespaces).Nodup :=
  (sortOn_perm decayKey _).nodup_iff.mpr (db.memories.nodup.sublist List.filter_sublist)

theorem mem_scopeKeys {db : Db} {namespaces : Option (List String)} {k : RowKey} :
    k ∈ scopeKeys db namespaces ↔ k ∈ db.memories.keys ∧ inScope namespaces k = true := by
  rw [scopeKeys, mem_sortOn, List.mem_filter]

theorem strictlySorted_scopeKeys (db : Db) (namespaces : Option (List String)) :
    StrictlySorted decayKey (scopeKeys db namespaces) :=
  sortOn_strict decayKey
    ((db.memories.nodup.sublist List.filter_sublist).map decayKey_injective)

/-- Stores with the same keys have the same rows in scope. -/
theorem scopeKeys_congr {db db' : Db} (namespaces : Option (List String))
    (h : ∀ k, k ∈ db'.memories.keys ↔ k ∈ db.memories.keys) :
    scopeKeys db' namespaces = scopeKeys db namespaces := by
  have hperm : db'.memories.keys.Perm db.memories.keys :=
    (List.perm_ext_iff_of_nodup db'.memories.nodup db.memories.nodup).mpr h
  exact sortOn_eq_of_perm decayKey (hperm.filter _)
    ((db'.memories.nodup.sublist List.filter_sublist).map decayKey_injective)

/-- The keys of the rows that are examined. -/
theorem map_decayWindow (db : Db) (namespaces : Option (List String)) (cursor : Option RowKey)
    (n : Nat) :
    (decayWindow db namespaces cursor n).map Prod.fst =
      window decayKey (scopeKeys db namespaces) n (cursor.map decayKey) := by
  have hfilter : (db.memories.rows.filter fun row =>
      seeks cursor row.1 && inScope namespaces row.1).map Prod.fst =
        (db.memories.keys.filter (inScope namespaces)).filter (seeks cursor) := by
    rw [List.filter_filter, Table.keys, List.filter_map]
    rfl
  rw [decayWindow, List.map_take, map_sortOn (fun row : RowKey × MemoryEntry => decayKey row.1)
    Prod.fst (fun _ => rfl), hfilter, ← filter_sortOn, window]
  congr 1
  cases cursor with
  | none => exact List.filter_eq_self.mpr fun k _ => rfl
  | some c =>
      refine List.filter_congr fun k _ => ?_
      rw [Bool.eq_iff_iff, seeks_iff]
      simp

/-- What passes keep: the connection is outside a transaction, the keys are those of the
start, and what was examined is whole rounds up to the cursor. -/
structure Cycling (db : Db) (namespaces : Option (List String)) (s : Decaying) : Prop where
  idle : s.connection = .idle s.connection.working
  keys : ∀ k, k ∈ s.connection.working.memories.keys ↔ k ∈ db.memories.keys
  rounds : Rounds (scopeKeys db namespaces) s.examined
    (remaining decayKey (scopeKeys db namespaces) (s.next.map decayKey))

theorem executeTo_ok {statements : List Statement} {fault : Option Fault} {db db' : Db}
    (h : executeTo statements fault db = (db', none)) : db' = execute statements db := by
  unfold executeTo at h
  split at h
  · split at h
    · cases h
    · exact (Prod.mk.inj h).1.symm
  · exact (Prod.mk.inj h).1.symm

/-- A call that raises leaves a connection outside a transaction as it was. -/
theorem memoryDecayPass_raised {c c' : Connection} {namespaces : Option (List String)}
    {cursor : Option RowKey} {call : DecayCall} (hidle : c = .idle c.working)
    (h : memoryDecayPass c namespaces cursor call = (c', none)) : c' = c := by
  unfold memoryDecayPass at h
  split at h
  · exact (Prod.mk.inj h).1.symm
  · split at h
    · exact (Prod.mk.inj h).1.symm
    · split at h
      · exact (Prod.mk.inj h).1.symm
      · dsimp only at h
        split at h
        · rw [← (Prod.mk.inj h).1, hidle]
          rfl
        · cases (Prod.mk.inj h).2

/-- Updates of rows as they are, under keys of their own. -/
theorem find_decayed (call : DecayCall) {rows : List (RowKey × MemoryEntry)} {db : Db}
    (hrows : ∀ row ∈ rows, db.memories.find row.1 = some row.2)
    (hnodup : (rows.map Prod.fst).Nodup) (k : RowKey) :
    (execute (rows.map (decayStatement call)) db).memories.find k =
      if k ∈ rows.map Prod.fst then
        (db.memories.find k).map fun row => row.patched (decayFields call row)
      else db.memories.find k := by
  induction rows generalizing db with
  | nil => rfl
  | cons row rows ih =>
      obtain ⟨hrow, hrest⟩ := List.forall_mem_cons.mp hrows
      rw [List.map_cons, List.nodup_cons] at hnodup
      have hfirst : decayStatement call row db = { db with
          memories := db.memories.put row.1 (row.2.patched (decayFields call row.2)) } := by
        rw [decayStatement, updateMemories, hrow]
      rw [List.map_cons, execute_cons, hfirst, ih ?_ hnodup.2]
      · dsimp only
        by_cases hk : k = row.1
        · subst hk
          rw [if_neg hnodup.1, if_pos (by simp), Table.find_put_self, hrow]
          rfl
        · have hmem : k ∈ (row :: rows).map Prod.fst ↔ k ∈ rows.map Prod.fst := by
            simp [hk]
          rw [Table.find_put_of_ne _ _ hk]
          exact if_congr hmem.symm rfl rfl
      · intro other hother
        have hne : other.1 ≠ row.1 := fun heq =>
          hnodup.1 (heq ▸ List.mem_map_of_mem hother)
        exact (Table.find_put_of_ne _ _ hne).trans (hrest other hother)

/-- What a call that returns has done: the rows of its window that are old enough are lowered,
no other row is touched, and its result names the last row of the window. -/
structure Decayed (db db' : Db) (namespaces : Option (List String)) (cursor : Option RowKey)
    (call : DecayCall) (result : DecayResult) : Prop where
  examined : result.examined = (decayWindow db namespaces cursor call.effectiveBatchSize).map
    Prod.fst
  decayed : ∃ cutoff, call.cutoff = some cutoff ∧ result.decayed =
    result.examined.filter fun k => (db.memories.find k).any (decays cutoff)
  processed : result.processed = result.decayed.length
  rows : ∀ k, db'.memories.find k =
    if k ∈ result.decayed then
      (db.memories.find k).map fun row => row.patched (decayFields call row)
    else db.memories.find k
  next : result.next.map decayKey =
    nextCursor decayKey call.effectiveBatchSize result.examined

theorem mem_decayWindow {db : Db} {namespaces : Option (List String)} {cursor : Option RowKey}
    {n : Nat} {row : RowKey × MemoryEntry} (h : row ∈ decayWindow db namespaces cursor n) :
    db.memories.find row.1 = some row.2 := by
  have hrow := (mem_sortOn fun row : RowKey × MemoryEntry => decayKey row.1).mp
    (List.mem_of_mem_take h)
  exact (Table.mem_rows _ _ _).mp (List.mem_of_mem_filter hrow)

theorem nodup_decayWindow (db : Db) (namespaces : Option (List String)) (cursor : Option RowKey)
    (n : Nat) : ((decayWindow db namespaces cursor n).map Prod.fst).Nodup := by
  rw [map_decayWindow, window]
  refine (List.take_sublist _ _).nodup ?_
  cases cursor with
  | none => exact nodup_scopeKeys db namespaces
  | some c => exact (nodup_scopeKeys db namespaces).filter _

theorem memoryDecayPass_returned {c c' : Connection} {namespaces : Option (List String)}
    {cursor : Option RowKey} {call : DecayCall} {result : DecayResult}
    (h : memoryDecayPass c namespaces cursor call = (c', some result)) :
    0 < call.effectiveBatchSize ∧ c' = .idle c'.working ∧
      Decayed c.working c'.working namespaces cursor call result := by
  unfold memoryDecayPass at h
  split at h
  · cases (Prod.mk.inj h).2
  · rename_i hpositive
    split at h
    · cases (Prod.mk.inj h).2
    · rename_i cutoff hcutoff
      split at h
      · cases (Prod.mk.inj h).2
      · dsimp only at h
        split at h
        · cases (Prod.mk.inj h).2
        · rename_i hexecute
          rw [executeTo_ok hexecute] at h
          obtain ⟨rfl, hresult⟩ := Prod.mk.inj h
          obtain rfl := Option.some.inj hresult
          have hfound : ∀ row ∈ decayWindow c.working namespaces cursor call.effectiveBatchSize,
              c.working.memories.find row.1 = some row.2 := fun row hrow => mem_decayWindow hrow
          have hnodup := nodup_decayWindow c.working namespaces cursor call.effectiveBatchSize
          refine ⟨?_, rfl, rfl, ⟨cutoff, hcutoff, ?_⟩, (List.length_map _).symm, fun k => ?_, ?_⟩
          · rw [DecayCall.effectiveBatchSize]
            omega
          · dsimp only
            rw [List.filter_map]
            congr 1
            refine List.filter_congr fun row hrow => ?_
            rw [Function.comp_apply, hfound row hrow, Option.any_some]
          · exact find_decayed call (fun row hrow => hfound row (List.mem_of_mem_filter hrow))
              (hnodup.sublist (List.filter_sublist.map _)) k
          · rw [nextCursor, List.length_map]
            split
            · rfl
            · rw [List.getLast?_map]

/-- A call with a positive batch and a cutoff that there is returns where nothing fails. -/
theorem memoryDecayPass_returns {c : Connection} {namespaces : Option (List String)}
    {cursor : Option RowKey} {call : DecayCall} (hbatch : 0 < call.batchSize)
    (hcutoff : call.cutoff.isSome = true) (hfault : call.fault = none) :
    (memoryDecayPass c namespaces cursor call).2.isSome = true := by
  obtain ⟨cutoff, hcutoff⟩ := Option.isSome_iff_exists.mp hcutoff
  rw [memoryDecayPass, if_neg (by omega), hcutoff, hfault]
  rfl

theorem cycling_start (db : Db) (namespaces : Option (List String)) :
    Cycling db namespaces (.start db) where
  idle := rfl
  keys := fun _ => Iff.rfl
  rounds := rounds_nil

theorem cycling_pass {db : Db} {namespaces : Option (List String)} {s : Decaying}
    (h : Cycling db namespaces s) (call : DecayCall) :
    Cycling db namespaces (s.pass namespaces call) := by
  rw [Decaying.pass]
  cases hpass : memoryDecayPass s.connection namespaces s.next call with
  | mk c result =>
      cases result with
      | none =>
          obtain rfl := memoryDecayPass_raised h.idle hpass
          exact h
      | some result =>
          obtain ⟨hpositive, hidle, hpassed⟩ := memoryDecayPass_returned hpass
          have hscope := scopeKeys_congr namespaces h.keys
          refine ⟨hidle, fun k => Iff.trans ?_ (h.keys k), ?_⟩
          · rw [Table.mem_keys, Table.mem_keys, hpassed.rows]
            split <;> simp
          dsimp only
          rw [hpassed.next, hpassed.examined, map_decayWindow, hscope]
          exact rounds_window (strictlySorted_scopeKeys db namespaces) hpositive h.rounds

def unusedRow (id : String) (h : id ≠ "") : MemoryEntry :=
  MemoryEntry.ofDefaults id "text" "default" ⟨0, some 0⟩ h

/-- Two rows that nothing has read. -/
def unusedStore : Db :=
  { Db.empty with
    memories := (Table.empty.put ⟨"default", "a"⟩ (unusedRow "a" a_ne_empty)).put
      ⟨"default", "b"⟩ (unusedRow "b" b_ne_empty) }

/-- A pass over one row, years later. -/
def oneRowPass : DecayCall :=
  ⟨90, 1, ⟨1000 * Datetime.DAY, some 0⟩, ⟨1000 * Datetime.DAY, some 0⟩, none⟩

end TrwMemory.Graph

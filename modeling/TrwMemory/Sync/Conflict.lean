import Mathlib.Data.Finset.Sort
import Mathlib.Data.Int.ConditionallyCompleteOrder
import Mathlib.Data.String.Basic
import Mathlib.Order.Bounds.Basic
import TrwMemory.Models.Timestamps

/-!
Vector clocks and the resolution of conflicts (`sync/conflict.py`). A clock stands for the
function from nodes to counters that is 0 where it has no entry; clocks are ordered as these
functions are, pointwise.
-/
namespace TrwMemory.Sync

/-- `clock.get(node, 0)`. -/
def counter (clock : VectorClock) (node : String) : Int := (clock.lookup node).getD 0

inductive ClockOrder where
  | aWins | bWins | concurrent
  deriving DecidableEq, Repr

def compareClocks (a b : VectorClock) : ClockOrder :=
  let allKeys := a.keys ∪ b.keys
  let aGteB := decide (∀ k ∈ allKeys, counter b k ≤ counter a k)
  let aGtB := decide (∃ k ∈ allKeys, counter b k < counter a k)
  let bGteA := decide (∀ k ∈ allKeys, counter a k ≤ counter b k)
  let bGtA := decide (∃ k ∈ allKeys, counter a k < counter b k)
  if aGteB && aGtB then .aWins
  else if bGteA && bGtA then .bWins
  else .concurrent

def incrementClock (clock : VectorClock) (nodeId : String) : VectorClock :=
  clock.insert nodeId (counter clock nodeId + 1)

def initClock (nodeId : String) : VectorClock := Finmap.singleton nodeId 1

/-- A clock made of nodes and their counters. -/
def clockOf (nodes : List String) (count : String → Int) : VectorClock :=
  (nodes.map fun k => (⟨k, count k⟩ : Sigma fun _ : String => Int)).toFinmap

def mergeClocks (a b : VectorClock) : VectorClock :=
  clockOf ((a.keys ∪ b.keys).sort) fun k => max (counter a k) (counter b k)

theorem counter_of_notMem {clock : VectorClock} {k : String} (h : k ∉ clock.keys) :
    counter clock k = 0 := by
  rw [counter, Finmap.lookup_eq_none.mpr (mt Finmap.mem_keys.mpr h), Option.getD_none]

/-- What holds of the nodes of either clock holds of all, if it holds of equal counters. -/
theorem forall_keys_iff {a b : VectorClock} {P : Int → Int → Prop} (hzero : P 0 0) :
    (∀ k ∈ a.keys ∪ b.keys, P (counter a k) (counter b k)) ↔
      ∀ k, P (counter a k) (counter b k) := by
  refine ⟨fun h k => ?_, fun h k _ => h k⟩
  by_cases hk : k ∈ a.keys ∪ b.keys
  · exact h k hk
  · rw [Finset.mem_union, not_or] at hk
    rw [counter_of_notMem hk.1, counter_of_notMem hk.2]
    exact hzero

theorem wins_iff {a b : VectorClock} :
    ((∀ k ∈ a.keys ∪ b.keys, counter b k ≤ counter a k) ∧
      ∃ k ∈ a.keys ∪ b.keys, counter b k < counter a k) ↔ counter b < counter a := by
  have hle := forall_keys_iff (a := a) (b := b) (P := fun x y => y ≤ x) (le_refl 0)
  have hlt := not_congr (forall_keys_iff (a := a) (b := b) (P := fun x y => ¬y < x) (lt_irrefl 0))
  simp only [not_forall, not_not, exists_prop] at hlt
  rw [Pi.lt_def, Pi.le_def, hle, hlt]

/-- Equal clocks are concurrent. -/
theorem compareClocks_cases (a b : VectorClock) :
    (compareClocks a b = .aWins ∧ counter b < counter a) ∨
      (compareClocks a b = .bWins ∧ counter a < counter b) ∨
      (compareClocks a b = .concurrent ∧ ¬counter b < counter a ∧ ¬counter a < counter b) := by
  have ha := wins_iff (a := a) (b := b)
  have hb := wins_iff (a := b) (b := a)
  rw [Finset.union_comm] at hb
  unfold compareClocks
  simp only [Bool.and_eq_true, decide_eq_true_eq]
  by_cases hwins : counter b < counter a
  · exact .inl ⟨if_pos (ha.mpr hwins), hwins⟩
  · have hfirst := mt ha.mp hwins
    by_cases hloses : counter a < counter b
    · exact .inr (.inl ⟨(if_neg hfirst).trans (if_pos (hb.mpr hloses)), hloses⟩)
    · exact .inr (.inr ⟨(if_neg hfirst).trans (if_neg (mt hb.mp hloses)), hwins, hloses⟩)

theorem compareClocks_aWins {a b : VectorClock} :
    compareClocks a b = .aWins ↔ counter b < counter a := by
  rcases compareClocks_cases a b with ⟨h, hlt⟩ | ⟨h, hlt⟩ | ⟨h, hnot, -⟩
  · simp [h, hlt]
  · simp [h, hlt.asymm]
  · simp [h, hnot]

theorem compareClocks_bWins {a b : VectorClock} :
    compareClocks a b = .bWins ↔ counter a < counter b := by
  rcases compareClocks_cases a b with ⟨h, hlt⟩ | ⟨h, hlt⟩ | ⟨h, -, hnot⟩
  · simp [h, hlt.asymm]
  · simp [h, hlt]
  · simp [h, hnot]

theorem concurrent_comm {a b : VectorClock} (h : compareClocks a b = .concurrent) :
    compareClocks b a = .concurrent := by
  rcases compareClocks_cases b a with ⟨-, hlt⟩ | ⟨-, hlt⟩ | ⟨hba, -⟩
  · rw [compareClocks_bWins.mpr hlt] at h
    cases h
  · rw [compareClocks_aWins.mpr hlt] at h
    cases h
  · exact hba

/-- Counting an event at a node moves its clock up. -/
theorem incrementClock_wins (clock : VectorClock) (nodeId : String) :
    compareClocks (incrementClock clock nodeId) clock = .aWins := by
  rw [compareClocks_aWins, Pi.lt_def]
  have hnode : counter (incrementClock clock nodeId) nodeId = counter clock nodeId + 1 := by
    rw [counter, incrementClock, Finmap.lookup_insert, Option.getD_some]
  refine ⟨fun k => ?_, nodeId, by omega⟩
  by_cases hk : k = nodeId
  · rw [hk, hnode]
    exact Int.le_add_one le_rfl
  · rw [counter, counter, incrementClock, Finmap.lookup_insert_of_ne _ hk]

theorem lookup_clockOf (nodes : List String) (count : String → Int) (k : String) :
    (clockOf nodes count).lookup k = if k ∈ nodes then some (count k) else none := by
  rw [clockOf, Finmap.dlookup_list_toFinmap]
  induction nodes with
  | nil => rfl
  | cons node nodes ih =>
      rw [List.map_cons]
      by_cases hk : k = node
      · subst hk
        rw [List.dlookup_cons_eq, if_pos List.mem_cons_self]
      · rw [List.dlookup_cons_ne _ _ hk, ih]
        simp [hk]

theorem counter_mergeClocks (a b : VectorClock) (k : String) :
    counter (mergeClocks a b) k = max (counter a k) (counter b k) := by
  rw [counter, mergeClocks, lookup_clockOf]
  simp only [Finset.mem_sort]
  split
  · rfl
  · rename_i hk
    rw [Finset.mem_union, not_or] at hk
    rw [counter_of_notMem hk.1, counter_of_notMem hk.2]
    rfl

/-- Merging is the least upper bound. -/
theorem isLUB_mergeClocks (a b : VectorClock) :
    IsLUB {counter a, counter b} (counter (mergeClocks a b)) := by
  have hsup : counter (mergeClocks a b) = counter a ⊔ counter b :=
    funext fun k => counter_mergeClocks a b k
  rw [hsup]
  exact isLUB_pair

theorem mergeClocks_comm (a b : VectorClock) : mergeClocks a b = mergeClocks b a := by
  unfold mergeClocks
  rw [Finset.union_comm]
  congr 1
  exact funext fun k => max_comm _ _

def MAX_MERGED_DETAIL_LENGTH : Nat := 2000

/-- `text[:n]`. -/
def takeText (text : String) (n : Nat) : String := String.ofList (text.toList.take n)

def mergedDetail (localDetail remoteDetail : String) : String :=
  if remoteDetail ≠ "" ∧ remoteDetail ≠ localDetail then
    takeText (localDetail ++ "\n\n---\n\n" ++ remoteDetail) MAX_MERGED_DETAIL_LENGTH
  else localDetail

/-- The two entries as one, at the times of its outcome and of its update. -/
def mergedEntry (localEntry remote : MemoryEntry) (outcomeAt updatedAt : Datetime) :
    MemoryEntry :=
  { localEntry with
    detail := mergedDetail localEntry.detail remote.detail
    tags := (localEntry.tags.toFinset ∪ remote.tags.toFinset).sort
    vectorClock := mergeClocks localEntry.vectorClock remote.vectorClock
    importance := round4 (max localEntry.importance remote.importance)
    mergedFrom := (localEntry.vectorClock.keys ∪ remote.vectorClock.keys).sort
    outcomeHistory := localEntry.outcomeHistory ++
      ["conflict_merged:local=" ++ localEntry.id ++ ":remote=" ++ remote.id ++ ":timestamp=" ++
        outcomeAt.isoformat]
    updatedAt }

def resolveConflict (localEntry remote : MemoryEntry) (outcomeAt updatedAt : Datetime) :
    MemoryEntry :=
  match compareClocks localEntry.vectorClock remote.vectorClock with
  | .aWins => localEntry
  | .bWins => remote
  | .concurrent => mergedEntry localEntry remote outcomeAt updatedAt

/-- Both details stand in the merged one where they fit with the line between them, or where
they are not joined at all. -/
theorem mergedDetail_keeps {localDetail remoteDetail : String}
    (h : remoteDetail ≠ "" ∧ remoteDetail ≠ localDetail →
      localDetail.length + 7 + remoteDetail.length ≤ MAX_MERGED_DETAIL_LENGTH) :
    localDetail.toList <:+: (mergedDetail localDetail remoteDetail).toList ∧
      remoteDetail.toList <:+: (mergedDetail localDetail remoteDetail).toList := by
  rw [mergedDetail]
  split
  · rename_i hjoined
    have hline : "\n\n---\n\n".length = 7 := by decide
    have hlength : (localDetail ++ "\n\n---\n\n" ++ remoteDetail).toList.length ≤
        MAX_MERGED_DETAIL_LENGTH := by
      rw [String.length_toList, String.length_append, String.length_append, hline]
      exact h hjoined
    rw [takeText, String.toList_ofList, List.take_of_length_le hlength, String.toList_append,
      String.toList_append]
    exact ⟨⟨[], _, by rw [List.nil_append, List.append_assoc]⟩, ⟨_, [], by rw [List.append_nil]⟩⟩
  · rename_i hsame
    refine ⟨List.infix_rfl, ?_⟩
    rw [not_and_or, not_not, not_not] at hsame
    rcases hsame with rfl | rfl
    · exact List.nil_infix
    · exact List.infix_rfl

/-- What becomes of two details. They both stand in the merged one where they fit with the line
between them; where they do not, it is the beginning of the joined text, with as much of the local
one as fits. -/
structure MergesDetails (localDetail remoteDetail merged : String) : Prop where
  kept : (remoteDetail ≠ "" ∧ remoteDetail ≠ localDetail →
      localDetail.length + 7 + remoteDetail.length ≤ MAX_MERGED_DETAIL_LENGTH) →
    localDetail.toList <:+: merged.toList ∧ remoteDetail.toList <:+: merged.toList
  cut : remoteDetail ≠ "" → remoteDetail ≠ localDetail →
    MAX_MERGED_DETAIL_LENGTH < localDetail.length + 7 + remoteDetail.length →
      merged.length = MAX_MERGED_DETAIL_LENGTH ∧
        localDetail.toList.take MAX_MERGED_DETAIL_LENGTH <+: merged.toList ∧
        merged.toList <+: localDetail.toList ++ ("\n\n---\n\n" ++ remoteDetail).toList

theorem mergedDetail_merges (localDetail remoteDetail : String) :
    MergesDetails localDetail remoteDetail (mergedDetail localDetail remoteDetail) where
  kept := mergedDetail_keeps
  cut hne hother hlong := by
    have hline : "\n\n---\n\n".length = 7 := by decide
    have htext : (mergedDetail localDetail remoteDetail).toList =
        (localDetail.toList ++ ("\n\n---\n\n" ++ remoteDetail).toList).take
          MAX_MERGED_DETAIL_LENGTH := by
      rw [mergedDetail, if_pos ⟨hne, hother⟩, takeText, String.toList_ofList, String.append_assoc,
        String.toList_append]
    refine ⟨?_, ?_, ?_⟩
    · rw [← String.length_toList, htext, List.length_take, List.length_append,
        String.length_toList, String.length_toList, String.length_append, hline]
      omega
    · rw [htext, List.take_append]
      exact List.prefix_append _ _
    · rw [htext]
      exact List.take_prefix _ _

theorem le_resolveConflict (localEntry remote : MemoryEntry) (outcomeAt updatedAt : Datetime) :
    counter localEntry.vectorClock ≤
        counter (resolveConflict localEntry remote outcomeAt updatedAt).vectorClock ∧
      counter remote.vectorClock ≤
        counter (resolveConflict localEntry remote outcomeAt updatedAt).vectorClock := by
  rcases compareClocks_cases localEntry.vectorClock remote.vectorClock with
    ⟨h, hlt⟩ | ⟨h, hlt⟩ | ⟨h, -, -⟩
  · rw [resolveConflict, h]
    exact ⟨le_rfl, hlt.le⟩
  · rw [resolveConflict, h]
    exact ⟨hlt.le, le_rfl⟩
  · rw [resolveConflict, h]
    have hmerged := isLUB_mergeClocks localEntry.vectorClock remote.vectorClock
    exact ⟨hmerged.1 (by simp), hmerged.1 (by simp)⟩

/-- A version of an entry, by one node. -/
def version (content detail node : String) : MemoryEntry :=
  { MemoryEntry.ofDefaults "L1" content "default" ⟨63840000000000000, some 0⟩ L1_ne_empty with
    detail
    vectorClock := initClock node }

end TrwMemory.Sync

import TrwMemory.Library.Recency
import TrwMemory.Library.Table
import TrwMemory.Models.Entry

/-!
The mirror of written and recalled entries in the tiers of one namespace (`tiers/_manager.py`,
`tiers/_runtime.py`, `warm_add_many` of `tiers/_warm.py`): one entry a call, or all of a recall.
The hot tier is an ordered dictionary; the warm tier is what its sidecar shows, the last write
of each id.

A warm write may fail with what its callers catch. A failed batch has written a beginning of its
records: nothing where the file is replaced, and whole lines where they are appended. Vectors of
the warm tier, which these calls do not write, and the cache of managers are left out.
-/
namespace TrwMemory.Lifecycle

open Library Library.Keyed

/-- `TierManager`, with the `hot_max_entries` of its config. -/
structure HotWarm (ρ : Type) where
  hot : List (String × MemoryEntry)
  warm : Table String ρ
  nodup : (Dict.keys hot).Nodup

variable {ρ : Type} (row : String → MemoryEntry → ρ) (capacity : Nat)

namespace HotWarm

/-- `warm_add`: the sidecar's record of the entry. -/
def warmAdd (s : HotWarm ρ) (id : String) (e : MemoryEntry) : HotWarm ρ :=
  { s with warm := s.warm.put id (row id e) }

/-- `popitem(last=False)`. -/
def hotPopFirst (s : HotWarm ρ) : HotWarm ρ :=
  { s with
    hot := s.hot.tail
    nodup := ((List.tail_sublist _).map Prod.fst).nodup s.nodup }

def hotPop (s : HotWarm ρ) (id : String) : HotWarm ρ :=
  { s with hot := Dict.pop s.hot id, nodup := Dict.nodup_pop s.nodup id }

/-- `hot[id] = entry` and `move_to_end(id)`, of a new or an old id. -/
def hotSet (s : HotWarm ρ) (id : String) (e : MemoryEntry) : HotWarm ρ :=
  { s with
    hot := Dict.moveToEnd (Dict.assign s.hot id e) id
    nodup := by
      rw [Dict.moveToEnd_assign]
      exact Dict.nodup_touch s.nodup id e }

/-- `move_to_end(id)` and `hot[id] = entry`, of an old id. -/
def hotRefresh (s : HotWarm ρ) (id : String) (e : MemoryEntry) (h : id ∈ Dict.keys s.hot) :
    HotWarm ρ :=
  { s with
    hot := Dict.assign (Dict.moveToEnd s.hot id) id e
    nodup := by
      rw [Dict.assign_moveToEnd h]
      exact Dict.nodup_touch s.nodup id e }

/-- `hot_put`; `fails` is the warm write of the evicted entry. -/
def hotPut (fails : Bool) (s : HotWarm ρ) (id : String) (e : MemoryEntry) : HotWarm ρ :=
  if h : id ∈ Dict.keys s.hot then s.hotRefresh id e h
  else
    let s := s.hotSet id e
    if capacity < s.hot.length then
      match s.hot.head? with
      | none => s
      | some (evictedId, evicted) =>
          if fails then s.hotPop evictedId
          else (s.warmAdd row evictedId evicted).hotPopFirst
    else s

/-- `remember_entry_in_tiers`; what fails is the warm write of an evicted entry, or of the entry
itself. -/
def rememberEntry (enabled evictFails mirrorFails : Bool) (s : HotWarm ρ) (e : MemoryEntry) :
    HotWarm ρ :=
  if !enabled then s
  else
    let s := s.hotPut row capacity evictFails e.id e
    if mirrorFails then s else s.warmAdd row e.id e

/-- `hot_put_many`: the evictees, and the tiers. -/
def hotPutMany (dropEvictees : Bool) (s : HotWarm ρ) (items : List (String × MemoryEntry)) :
    List (String × MemoryEntry) × HotWarm ρ :=
  let s := items.foldl (fun s item => s.hotSet item.1 item.2) s
  let evicted := s.hot.take (s.hot.length - capacity)
  (evicted, if dropEvictees then evicted.foldl (fun s item => s.hotPop item.1) s else s)

/-- `hot_drop`. -/
def hotDrop (s : HotWarm ρ) (ids : List String) : HotWarm ρ := ids.foldl hotPop s

/-- `warm_add_many`, without vectors: whether it raises, and the tiers. A failure comes after
some of the records. -/
def warmAddMany (fault : Option Nat) (s : HotWarm ρ) (items : List (String × MemoryEntry)) :
    Bool × HotWarm ρ :=
  if items.isEmpty then (false, s)
  else
    let records := Dict.ofPairs (items.map fun item => (item.1, row item.1 item.2))
    let written := match fault with
      | none => records
      | some n => records.take n
    (fault.isSome,
      { s with warm := written.foldl (fun warm record => warm.put record.1 record.2) s.warm })

def mirrorItems (entries : List MemoryEntry) : List (String × MemoryEntry) :=
  entries.map fun e => (e.id, e)

/-- `remember_entries_data_in_tiers`, of the payloads of one namespace. -/
def rememberEntriesData {π : Type} (validate : π → Option MemoryEntry) (enabled : Bool)
    (fault : Option Nat) (s : HotWarm ρ) (payloads : List π) : HotWarm ρ :=
  if !enabled || payloads.isEmpty then s
  else
    let entries := payloads.filterMap validate
    if entries.isEmpty then s
    else
      let items := mirrorItems entries
      let (evicted, s) := s.hotPutMany capacity false items
      match s.warmAddMany row fault (evicted ++ items) with
      | (true, s) => s
      | (false, s) => s.hotDrop (evicted.map Prod.fst)

/-- The calls for one entry, in order, with no write failing. -/
def rememberEach (enabled : Bool) (s : HotWarm ρ) (entries : List MemoryEntry) : HotWarm ρ :=
  entries.foldl (rememberEntry row capacity enabled false false) s

variable (s : HotWarm ρ)

theorem hot_hotPut (fails : Bool) (id : String) (e : MemoryEntry) :
    (s.hotPut row capacity fails id e).hot =
      if id ∉ Dict.keys s.hot ∧ capacity < (Dict.touch s.hot id e).length then
        (Dict.touch s.hot id e).tail
      else Dict.touch s.hot id e := by
  have hset : (s.hotSet id e).hot = Dict.touch s.hot id e := Dict.moveToEnd_assign s.hot id e
  rw [hotPut]
  split
  · rename_i hmem
    rw [if_neg fun hnot => hnot.1 hmem]
    exact Dict.assign_moveToEnd hmem e
  · rename_i hnew
    dsimp only
    by_cases hover : capacity < (Dict.touch s.hot id e).length
    · rw [if_pos (by rwa [hset]), if_pos ⟨hnew, hover⟩]
      cases hhead : (s.hotSet id e).hot with
      | nil =>
          rw [← hset, hhead] at hover
          exact absurd hover (Nat.not_lt_zero _)
      | cons oldest rest =>
          obtain ⟨evictedId, evicted⟩ := oldest
          dsimp only [List.head?_cons]
          rw [← hset, hhead]
          split
          · -- the failing write drops the same pair
            have hnodup := (s.hotSet id e).nodup
            rw [hhead] at hnodup
            change Dict.pop (s.hotSet id e).hot evictedId = rest
            rw [hhead, Dict.pop_cons_self, Dict.pop_of_not_mem (List.nodup_cons.mp hnodup).1]
          · change (s.hotSet id e).hot.tail = rest
            rw [hhead, List.tail_cons]
    · rw [if_neg (by rwa [hset]), if_neg fun hand => hover hand.2, hset]

/-- A call within the capacity keeps the newest uses. -/
theorem hot_hotPut_newest (hfits : s.hot.length ≤ capacity) (fails : Bool) (id : String)
    (e : MemoryEntry) :
    (s.hotPut row capacity fails id e).hot = Dict.newest capacity (Dict.touch s.hot id e) := by
  rw [hot_hotPut]
  by_cases hmem : id ∈ Dict.keys s.hot
  · rw [if_neg fun hand => hand.1 hmem, Dict.newest_of_length_le]
    rwa [Dict.length_touch_of_mem s.nodup hmem]
  · have hlength := Dict.length_touch_of_not_mem hmem e
    split
    · rename_i hover
      have hone : (Dict.touch s.hot id e).length - capacity = 1 := by omega
      rw [Dict.newest, hone, List.drop_one]
    · rename_i hunder
      exact (Dict.newest_of_length_le (Nat.not_lt.mp fun hover => hunder ⟨hmem, hover⟩)).symm

/-- Above the capacity, as many entries stay as there were. -/
theorem length_hotPut (hover : capacity < s.hot.length) (fails : Bool) (id : String)
    (e : MemoryEntry) : (s.hotPut row capacity fails id e).hot.length = s.hot.length := by
  rw [hot_hotPut]
  by_cases hmem : id ∈ Dict.keys s.hot
  · rw [if_neg fun hand => hand.1 hmem, Dict.length_touch_of_mem s.nodup hmem]
  · have hlength := Dict.length_touch_of_not_mem hmem e
    rw [if_pos ⟨hmem, by omega⟩, List.length_tail, hlength, Nat.add_sub_cancel]

/-- What leaves the hot tier is written to the warm one. -/
theorem find_hotPut (id : String) (e : MemoryEntry) (id' : String) :
    (s.hotPut row capacity false id e).warm.find id' =
      if id' ∈ Dict.keys (Dict.touch s.hot id e) ∧
          id' ∉ Dict.keys (s.hotPut row capacity false id e).hot then
        (Dict.get (Dict.touch s.hot id e) id').map (row id')
      else s.warm.find id' := by
  have hset : (s.hotSet id e).hot = Dict.touch s.hot id e := Dict.moveToEnd_assign s.hot id e
  rw [hot_hotPut]
  by_cases hevicts : id ∉ Dict.keys s.hot ∧ capacity < (Dict.touch s.hot id e).length
  · rw [if_pos hevicts, hotPut, dif_neg hevicts.1]
    dsimp only
    rw [if_pos (hset ▸ hevicts.2), hset]
    have hnodup : (Dict.keys (Dict.touch s.hot id e)).Nodup := Dict.nodup_touch s.nodup id e
    cases htouch : Dict.touch s.hot id e with
    | nil => exact absurd (htouch ▸ hevicts.2) (Nat.not_lt_zero _)
    | cons oldest rest =>
        obtain ⟨evictedId, evicted⟩ := oldest
        rw [htouch] at hnodup
        have hlast : evictedId ∉ Dict.keys rest := (List.nodup_cons.mp hnodup).1
        change (s.warm.put evictedId (row evictedId evicted)).find id' = _
        rw [Table.find_put, List.tail_cons]
        by_cases hid : id' = evictedId
        · subst hid
          rw [if_pos rfl, if_pos ⟨List.mem_cons_self, hlast⟩, Dict.get, if_pos rfl]
          rfl
        · rw [if_neg hid, if_neg fun hand => hand.2 (List.mem_of_ne_of_mem hid hand.1)]
  · have hwarm : (s.hotPut row capacity false id e).warm = s.warm := by
      rw [hotPut]
      split
      · rfl
      · rename_i hnew
        dsimp only
        rw [if_neg fun hover => hevicts ⟨hnew, hset ▸ hover⟩]
        rfl
    rw [if_neg hevicts, if_neg fun hand => hand.2 hand.1, hwarm]

end HotWarm

end TrwMemory.Lifecycle

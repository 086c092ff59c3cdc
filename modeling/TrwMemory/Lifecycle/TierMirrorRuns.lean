import TrwMemory.Lifecycle.TierMirror

/-!
What a whole recall leaves in the tiers, mirrored in one call or entry by entry. Both are
described by one relation on the tiers before and after: the hot tier has the newest uses, and
the warm tier has every mirrored entry, and every one that the hot tier had to give up, as it was
last used.

The calls for one entry give up at most one entry each, so that they never bring a hot tier above
its capacity back to it.
-/
namespace TrwMemory.Lifecycle

open Library Library.Keyed

variable {ρ : Type} (row : String → MemoryEntry → ρ) (capacity : Nat)

namespace HotWarm

/-- Used, or given up by the hot tier. -/
def Written (s : HotWarm ρ) (items : List (String × MemoryEntry)) (s' : HotWarm ρ)
    (id : String) : Prop :=
  id ∈ Dict.keys items ∨ (id ∈ Dict.keys (Dict.touchAll s.hot items) ∧ id ∉ Dict.keys s'.hot)

/-- The tiers after `items` were used, in order, from `s`. -/
structure Mirrored (s : HotWarm ρ) (items : List (String × MemoryEntry)) (s' : HotWarm ρ) :
    Prop where
  hot : s'.hot = Dict.newest capacity (Dict.touchAll s.hot items)
  written : ∀ id, Written s items s' id →
    s'.warm.find id = (Dict.get (Dict.touchAll s.hot items) id).map (row id)
  untouched : ∀ id, ¬ Written s items s' id → s'.warm.find id = s.warm.find id

/-- The same hot entries in the same order, and the same live row of every id. -/
structure SameTiers (s s' : HotWarm ρ) : Prop where
  hot : s.hot = s'.hot
  warm : ∀ id, s.warm.find id = s'.warm.find id

/-- Every id of the tiers is in one of them later. -/
def Keeps (s s' : HotWarm ρ) : Prop :=
  ∀ id, id ∈ Dict.keys s.hot ∨ (s.warm.find id).isSome →
    id ∈ Dict.keys s'.hot ∨ (s'.warm.find id).isSome

variable {row capacity} {s s' : HotWarm ρ}

/-- What was used determines the tiers. -/
theorem Mirrored.same {t : HotWarm ρ} {items : List (String × MemoryEntry)}
    (hs : Mirrored row capacity s items s') (ht : Mirrored row capacity s items t) :
    SameTiers s' t := by
  have hhot : s'.hot = t.hot := hs.hot.trans ht.hot.symm
  refine ⟨hhot, fun id => ?_⟩
  by_cases hid : Written s items s' id
  · have hid' : Written s items t id := by rwa [Written, ← hhot]
    rw [hs.written id hid, ht.written id hid']
  · have hid' : ¬ Written s items t id := by rwa [Written, ← hhot]
    rw [hs.untouched id hid, ht.untouched id hid']

theorem Mirrored.keeps {items : List (String × MemoryEntry)}
    (h : Mirrored row capacity s items s') : Keeps s s' := by
  intro id hid
  by_cases hhot : id ∈ Dict.keys s'.hot
  · exact .inl hhot
  · right
    by_cases hwritten : Written s items s' id
    · rw [h.written id hwritten, Option.isSome_map]
      cases hget : Dict.get (Dict.touchAll s.hot items) id with
      | some e => rfl
      | none =>
          have hmem : id ∈ Dict.keys (Dict.touchAll s.hot items) :=
            hwritten.elim (fun hitem => Dict.mem_keys_touchAll.mpr (.inl hitem)) And.left
          exact absurd hmem (Dict.get_eq_none.mp hget)
    · rw [h.untouched id hwritten]
      refine hid.resolve_left fun hmem => hwritten (.inr ⟨?_, hhot⟩)
      exact Dict.mem_keys_touchAll.mpr (.inr hmem)

theorem Mirrored.nil (hfits : s.hot.length ≤ capacity) : Mirrored row capacity s [] s where
  hot := (Dict.newest_of_length_le hfits).symm
  written id := by
    rintro (hmem | ⟨hmem, hnot⟩)
    · cases hmem
    · exact absurd hmem hnot
  untouched _ _ := rfl

theorem Mirrored.concat {items : List (String × MemoryEntry)}
    (h : Mirrored row capacity s items s') (e : MemoryEntry) :
    Mirrored row capacity s (items ++ [(e.id, e)])
      (s'.rememberEntry row capacity true false false e) := by
  have hnodup := Dict.nodup_touchAll s.nodup items
  have hfits : s'.hot.length ≤ capacity := by
    rw [h.hot, Dict.length_newest]
    exact Nat.min_le_left _ _
  have hput := hot_hotPut_newest row capacity s' hfits false e.id e
  have hstep : s'.rememberEntry row capacity true false false e =
      (s'.hotPut row capacity false e.id e).warmAdd row e.id e := rfl
  rw [hstep]
  generalize hafter : s'.hotPut row capacity false e.id e = after at hput
  have hself : (after.warmAdd row e.id e).warm.find e.id = some (row e.id e) :=
    Table.find_put_self _ _ _
  have hother : ∀ id, id ≠ e.id → (after.warmAdd row e.id e).warm.find id =
      if id ∈ Dict.keys s'.hot ∧ id ∉ Dict.keys after.hot then
        (Dict.get s'.hot id).map (row id)
      else s'.warm.find id := by
    intro id hid
    have hfind := find_hotPut row capacity s' e.id e id
    rw [hafter, Dict.get_touch, if_neg (Ne.symm hid)] at hfind
    simp only [Dict.mem_keys_touch, or_iff_right hid] at hfind
    exact (Table.find_put_of_ne _ _ hid).trans hfind
  have hgives : ∀ id, id ≠ e.id → id ∈ Dict.keys after.hot → id ∈ Dict.keys s'.hot := by
    intro id hid hmem
    rw [hput] at hmem
    exact (Dict.mem_keys_touch.mp (Dict.keys_newest_subset hmem)).resolve_left hid
  have hwritten : ∀ id, id ≠ e.id →
      (Written s (items ++ [(e.id, e)]) (after.warmAdd row e.id e) id ↔
        Written s items s' id ∨ (id ∈ Dict.keys s'.hot ∧ id ∉ Dict.keys after.hot)) := by
    intro id hid
    have hold : id ∈ Dict.keys s'.hot → id ∈ Dict.keys (Dict.touchAll s.hot items) := by
      rw [h.hot]
      exact Dict.keys_newest_subset
    have hitems : id ∈ Dict.keys (items ++ [(e.id, e)]) ↔ id ∈ Dict.keys items := by
      simp [Dict.keys, hid]
    have hlater : id ∈ Dict.keys (Dict.touchAll s.hot (items ++ [(e.id, e)])) ↔
        id ∈ Dict.keys (Dict.touchAll s.hot items) := by
      rw [Dict.touchAll_concat, Dict.mem_keys_touch]
      exact or_iff_right hid
    have hgives := hgives id hid
    rw [Written, Written, hitems, hlater]
    change _ ∨ (_ ∧ id ∉ Dict.keys after.hot) ↔ _
    tauto
  have hvalue : ∀ id, id ≠ e.id → Dict.get (Dict.touchAll s.hot (items ++ [(e.id, e)])) id =
      Dict.get (Dict.touchAll s.hot items) id := by
    intro id hid
    rw [Dict.touchAll_concat, Dict.get_touch, if_neg (Ne.symm hid)]
  refine ⟨?_, fun id hid => ?_, fun id hid => ?_⟩
  · change after.hot = _
    rw [hput, h.hot, Dict.newest_touch hnodup, Dict.touchAll_concat]
  · by_cases heq : id = e.id
    · subst heq
      rw [hself, Dict.touchAll_concat, Dict.get_touch, if_pos rfl]
      rfl
    · rw [hother id heq, hvalue id heq]
      split
      · rename_i hleaves
        have hmem := hleaves.1
        rw [h.hot] at hmem ⊢
        rw [Dict.get_newest hnodup hmem]
      · rename_i hstays
        exact h.written id (((hwritten id heq).mp hid).resolve_right hstays)
  · have heq : id ≠ e.id := by
      rintro rfl
      exact hid (.inl (by simp [Dict.keys]))
    have hnot := not_or.mp ((hwritten id heq).not.mp hid)
    rw [hother id heq, if_neg hnot.2, h.untouched id hnot.1]

theorem mirrored_rememberEach (hfits : s.hot.length ≤ capacity) (entries : List MemoryEntry) :
    Mirrored row capacity s (mirrorItems entries)
      (s.rememberEach row capacity true entries) := by
  induction entries using List.reverseRecOn with
  | nil => exact .nil hfits
  | append_singleton entries e ih =>
      rw [rememberEach, List.foldl_append, mirrorItems, List.map_append]
      exact ih.concat e

theorem length_rememberEach (hover : capacity < s.hot.length) (entries : List MemoryEntry) :
    (s.rememberEach row capacity true entries).hot.length = s.hot.length := by
  induction entries generalizing s with
  | nil => rfl
  | cons e entries ih =>
      have hstep : (s.rememberEntry row capacity true false false e).hot.length = s.hot.length :=
        length_hotPut row capacity s hover false e.id e
      exact (ih (hstep ▸ hover)).trans hstep

theorem hot_foldl_hotSet (s : HotWarm ρ) (items : List (String × MemoryEntry)) :
    (items.foldl (fun s item => s.hotSet item.1 item.2) s).hot = Dict.touchAll s.hot items := by
  induction items generalizing s with
  | nil => rfl
  | cons item items ih =>
      have hset : (s.hotSet item.1 item.2).hot = Dict.touch s.hot item.1 item.2 :=
        Dict.moveToEnd_assign s.hot item.1 item.2
      rw [List.foldl_cons, ih, hset, Dict.touchAll_cons]

theorem warm_foldl_hotSet (s : HotWarm ρ) (items : List (String × MemoryEntry)) :
    (items.foldl (fun s item => s.hotSet item.1 item.2) s).warm = s.warm := by
  induction items generalizing s with
  | nil => rfl
  | cons item items ih => exact ih (s.hotSet item.1 item.2)

theorem hot_hotDrop (s : HotWarm ρ) (ids : List String) :
    (s.hotDrop ids).hot = ids.foldl Dict.pop s.hot := by
  induction ids generalizing s with
  | nil => rfl
  | cons id ids ih => exact ih (s.hotPop id)

theorem warm_hotDrop (s : HotWarm ρ) (ids : List String) : (s.hotDrop ids).warm = s.warm := by
  induction ids generalizing s with
  | nil => rfl
  | cons id ids ih => exact ih (s.hotPop id)

/-- Of records with distinct ids, each is found. -/
theorem find_foldl_put {records : List (String × ρ)} (hrecords : (Dict.keys records).Nodup)
    (warm : Table String ρ) (id : String) :
    (records.foldl (fun warm record => warm.put record.1 record.2) warm).find id =
      (Dict.get records id).or (warm.find id) := by
  induction records generalizing warm with
  | nil => rfl
  | cons record records ih =>
      obtain ⟨id', r⟩ := record
      obtain ⟨hid', hrecords⟩ := List.nodup_cons.mp hrecords
      rw [List.foldl_cons, ih hrecords, Table.find_put, Dict.get]
      by_cases hid : id' = id
      · subst hid
        rw [if_pos rfl, if_pos rfl, Dict.get_eq_none.mpr hid']
        rfl
      · rw [if_neg (Ne.symm hid), if_neg hid]

variable (row) in
/-- The records of a batch are the last values of its ids. -/
theorem find_warmAddMany (s : HotWarm ρ) (items : List (String × MemoryEntry)) (id : String) :
    (s.warmAddMany row none items).2.warm.find id =
      ((Dict.get (Dict.touchAll [] items) id).map (row id)).or (s.warm.find id) := by
  rw [warmAddMany]
  split
  · rename_i hempty
    rw [List.isEmpty_iff.mp hempty]
    rfl
  · rw [find_foldl_put (Dict.nodup_ofPairs _), Dict.get_ofPairs, Dict.get_touchAll_map]

theorem hot_warmAddMany (s : HotWarm ρ) (fault : Option Nat)
    (items : List (String × MemoryEntry)) :
    (s.warmAddMany row fault items).2.hot = s.hot := by
  rw [warmAddMany]
  split <;> rfl

variable (row) in
/-- Only a write that succeeds is followed by the drops. -/
theorem settle_warmAddMany (s : HotWarm ρ) {items : List (String × MemoryEntry)}
    (hitems : items ≠ []) (fault : Option Nat) (ids : List String) :
    (match s.warmAddMany row fault items with
      | (true, s) => s
      | (false, s) => s.hotDrop ids) =
      if fault.isSome then (s.warmAddMany row fault items).2
      else (s.warmAddMany row fault items).2.hotDrop ids := by
  have hfails : (s.warmAddMany row fault items).1 = fault.isSome := by
    rw [warmAddMany, if_neg (List.isEmpty_iff.not.mpr hitems)]
  cases hadd : s.warmAddMany row fault items with
  | mk raised added =>
      rw [hadd] at hfails
      subst hfails
      cases fault <;> rfl

/-- A batch that begins with what the hot tier gives up writes the last use of an id. -/
theorem get_evicted_append {hot items used : List (String × MemoryEntry)}
    (hhot : (Dict.keys hot).Nodup) (hused : used = Dict.touchAll hot items) {id : String}
    (hid : id ∈ Dict.keys items ∨
      (id ∈ Dict.keys used ∧ id ∉ Dict.keys (Dict.newest capacity used))) :
    Dict.get (Dict.touchAll [] (used.take (used.length - capacity) ++ items)) id =
      Dict.get used id := by
  rw [Dict.touchAll_append]
  by_cases hitem : id ∈ Dict.keys items
  · rw [Dict.get_touchAll_of_mem hitem, hused, ← Dict.get_touchAll_of_mem hitem hot]
  · have hnodup : (Dict.keys used).Nodup := hused ▸ Dict.nodup_touchAll hhot items
    have htake : (Dict.keys (used.take (used.length - capacity))).Nodup :=
      ((List.take_sublist _ _).map Prod.fst).nodup hnodup
    have hmem := (Dict.mem_keys_take hnodup capacity id).mpr (hid.resolve_left hitem)
    rw [Dict.get_touchAll_of_not_mem hitem, ← Dict.get_ofPairs, Dict.ofPairs_of_nodup htake]
    cases hget : Dict.get (used.take (used.length - capacity)) id with
    | none => exact absurd hmem (Dict.get_eq_none.mp hget)
    | some e => exact (Dict.get_of_mem hnodup (List.mem_of_mem_take (Dict.mem_of_get hget))).symm

/-- No other id is in it. -/
theorem get_evicted_append_none {hot items used : List (String × MemoryEntry)}
    (hhot : (Dict.keys hot).Nodup) (hused : used = Dict.touchAll hot items) {id : String}
    (hid : ¬ (id ∈ Dict.keys items ∨
      (id ∈ Dict.keys used ∧ id ∉ Dict.keys (Dict.newest capacity used)))) :
    Dict.get (Dict.touchAll [] (used.take (used.length - capacity) ++ items)) id = none := by
  have hnodup : (Dict.keys used).Nodup := hused ▸ Dict.nodup_touchAll hhot items
  rw [Dict.get_eq_none, Dict.mem_keys_touchAll, Dict.keys, List.map_append, List.mem_append]
  rintro ((hmem | hmem) | hmem)
  · exact hid (.inr ((Dict.mem_keys_take hnodup capacity id).mp hmem))
  · exact hid (.inl hmem)
  · cases hmem

section Batch

variable {π : Type} (validate : π → Option MemoryEntry) (s : HotWarm ρ) (payloads : List π)

variable (row capacity) in
theorem rememberEntriesData_idle (enabled : Bool) (fault : Option Nat)
    (h : enabled = false ∨ payloads.filterMap validate = []) :
    s.rememberEntriesData row capacity validate enabled fault payloads = s := by
  rw [rememberEntriesData]
  split
  · rfl
  · rename_i hrun
    have hentries : payloads.filterMap validate = [] :=
      h.resolve_left fun hoff => hrun (by rw [hoff]; rfl)
    dsimp only
    rw [if_pos (List.isEmpty_iff.mpr hentries)]

variable (row capacity) in
/-- The batch: the uses, the rows of those that go and of those used, and then the drops. -/
theorem rememberEntriesData_run (fault : Option Nat)
    (hentries : payloads.filterMap validate ≠ []) :
    s.rememberEntriesData row capacity validate true fault payloads =
      let items := mirrorItems (payloads.filterMap validate)
      let put := items.foldl (fun s item => s.hotSet item.1 item.2) s
      let evicted := put.hot.take (put.hot.length - capacity)
      let added := (put.warmAddMany row fault (evicted ++ items)).2
      if fault.isSome then added else added.hotDrop (evicted.map Prod.fst) := by
  have hpayloads : payloads ≠ [] := fun hnil => hentries (by rw [hnil]; rfl)
  rw [rememberEntriesData, if_neg (by simp [hpayloads])]
  dsimp only
  rw [if_neg (List.isEmpty_iff.not.mpr hentries)]
  refine settle_warmAddMany row _ ?_ fault _
  exact fun hnil => hentries (List.map_eq_nil_iff.mp (List.append_eq_nil_iff.mp hnil).2)

/-- The batch, whatever the hot tier had. -/
theorem mirrored_rememberEntriesData (hentries : payloads.filterMap validate ≠ []) :
    Mirrored row capacity s (mirrorItems (payloads.filterMap validate))
      (s.rememberEntriesData row capacity validate true none payloads) := by
  rw [rememberEntriesData_run row capacity validate s payloads none hentries]
  dsimp only
  generalize mirrorItems (payloads.filterMap validate) = items
  have hput : (items.foldl (fun s item => s.hotSet item.1 item.2) s).hot =
      Dict.touchAll s.hot items := hot_foldl_hotSet s items
  have hwarm := warm_foldl_hotSet s items
  generalize items.foldl (fun s item => s.hotSet item.1 item.2) s = put at hput hwarm
  have hfind (evicted : List (String × MemoryEntry)) (id : String) :
      ((put.warmAddMany row none (evicted ++ items)).2.hotDrop
        (evicted.map Prod.fst)).warm.find id =
      ((Dict.get (Dict.touchAll [] (evicted ++ items)) id).map (row id)).or
        (s.warm.find id) := by
    rw [warm_hotDrop, find_warmAddMany, hwarm]
  have hhot : ((put.warmAddMany row none
      (put.hot.take (put.hot.length - capacity) ++ items)).2.hotDrop
        ((put.hot.take (put.hot.length - capacity)).map Prod.fst)).hot =
      Dict.newest capacity put.hot := by
    rw [hot_hotDrop, hot_warmAddMany, Dict.foldl_pop_take put.nodup]
    rfl
  rw [Option.isSome_none, if_neg Bool.false_ne_true]
  refine ⟨by rw [hhot, hput], fun id hid => ?_, fun id hid => ?_⟩
  · rw [Written, hhot, ← hput] at hid
    have hmem : id ∈ Dict.keys put.hot := by
      refine hid.elim (fun hitem => ?_) And.left
      rw [hput, Dict.mem_keys_touchAll]
      exact .inl hitem
    rw [hfind, get_evicted_append s.nodup hput hid, ← hput]
    cases hget : Dict.get put.hot id with
    | none => exact absurd hmem (Dict.get_eq_none.mp hget)
    | some e => rfl
  · rw [Written, hhot, ← hput] at hid
    rw [hfind, get_evicted_append_none s.nodup hput hid]
    rfl

theorem isSome_find_foldl_put {records : List (String × ρ)} (warm : Table String ρ) {id : String}
    (h : (warm.find id).isSome) :
    ((records.foldl (fun warm record => warm.put record.1 record.2) warm).find id).isSome := by
  induction records generalizing warm with
  | nil => exact h
  | cons record records ih =>
      refine ih (warm.put record.1 record.2) ?_
      rw [Table.find_put]
      split
      · rfl
      · exact h

theorem isSome_find_warmAddMany (s : HotWarm ρ) (fault : Option Nat)
    (items : List (String × MemoryEntry)) {id : String} (h : (s.warm.find id).isSome) :
    ((s.warmAddMany row fault items).2.warm.find id).isSome := by
  rw [warmAddMany]
  split
  · exact h
  · exact isSome_find_foldl_put s.warm h

/-- A batch whose write fails gives nothing up. -/
theorem keeps_interrupted (n : Nat) (hentries : payloads.filterMap validate ≠ []) :
    Keeps s (s.rememberEntriesData row capacity validate true (some n) payloads) := by
  rw [rememberEntriesData_run row capacity validate s payloads (some n) hentries]
  dsimp only
  rw [Option.isSome_some, if_pos rfl]
  rintro id (hhot | hwarm)
  · left
    rw [hot_warmAddMany, hot_foldl_hotSet]
    exact Dict.mem_keys_touchAll.mpr (.inr hhot)
  · right
    refine isSome_find_warmAddMany _ _ _ ?_
    rwa [warm_foldl_hotSet]

variable (row capacity) in
/-- The batch and the calls for one entry, and the batch whose write fails after any records. -/
structure BatchMirrors (enabled : Bool) : Prop where
  same : SameTiers (s.rememberEntriesData row capacity validate enabled none payloads)
    (s.rememberEach row capacity enabled (payloads.filterMap validate))
  keeps : ∀ n, Keeps s (s.rememberEntriesData row capacity validate enabled (some n) payloads)

theorem rememberEach_disabled (entries : List MemoryEntry) :
    s.rememberEach row capacity false entries = s := by
  induction entries with
  | nil => rfl
  | cons e entries ih => exact ih

variable (row capacity) in
/-- A batch mirrors as its entries do exactly from a hot tier within its capacity, if there is
anything to mirror. -/
theorem batchMirrors_iff (enabled : Bool) :
    BatchMirrors row capacity validate s payloads enabled ↔
      enabled = false ∨ payloads.filterMap validate = [] ∨ s.hot.length ≤ capacity := by
  by_cases hidle : enabled = false ∨ payloads.filterMap validate = []
  · have hbatch := rememberEntriesData_idle row capacity validate s payloads enabled
    have heach : s.rememberEach row capacity enabled (payloads.filterMap validate) = s := by
      rcases hidle with hoff | hnil
      · rw [hoff, rememberEach_disabled]
      · rw [hnil]
        rfl
    refine iff_of_true ⟨?_, fun n => ?_⟩ (hidle.imp_right .inl)
    · rw [hbatch none hidle, heach]
      exact ⟨rfl, fun _ => rfl⟩
    · rw [hbatch (some n) hidle]
      exact fun _ hid => hid
  · obtain ⟨hon, hentries⟩ := not_or.mp hidle
    obtain rfl : enabled = true := Bool.eq_true_of_not_eq_false hon
    have hbatch : Mirrored row capacity s _ _ :=
      mirrored_rememberEntriesData validate s payloads hentries
    constructor
    · intro h
      refine .inr (.inr (Nat.not_lt.mp fun hover => ?_))
      have hlength := congrArg List.length h.same.hot
      rw [length_rememberEach hover, hbatch.hot, Dict.length_newest] at hlength
      omega
    · intro h
      have hfits := (h.resolve_left hon).resolve_left hentries
      exact ⟨hbatch.same (mirrored_rememberEach hfits _),
        fun n => keeps_interrupted validate s payloads n hentries⟩

end Batch

def letter (id : String) (h : id ≠ "") : MemoryEntry :=
  MemoryEntry.ofDefaults id id "south" ⟨0, some 0⟩ h

/-- Two entries, with room for one. -/
def lowered : HotWarm String where
  hot := [("a", letter "a" (by decide)), ("b", letter "b" (by decide))]
  warm := .empty
  nodup := by decide

theorem lowered_differs :
    ¬ BatchMirrors (fun id _ => id) 1 some lowered [letter "c" (by decide)] true := by
  intro h
  have hhot := congrArg Dict.keys h.same.hot
  revert hhot
  decide +kernel

end HotWarm

end TrwMemory.Lifecycle

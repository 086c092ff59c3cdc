import Mathlib.Algebra.Order.BigOperators.Group.List
import Mathlib.Algebra.Ring.Int.Defs
import Mathlib.Algebra.Ring.Nat
import Mathlib.Logic.Function.Basic
import TrwMemory.Embeddings.Provenance
import TrwMemory.Library.OrderedDict

/-!
The candidates of sibling stores (`_graph_sibling_index.py`) as one process keeps them: the states
of stores under their paths, the least recently used first, with a count of their bytes. A state
is an object that batches go on using after it has left the cache.

How vectors are normalised, and how many bytes a coordinate takes, are parameters.
-/
namespace TrwMemory.Graph.Sibling

open Library

/-- `(dev, inode, size, mtime_ns)`. -/
abbrev StatKey := Nat × Nat × Nat × Nat

abbrev FileToken := StatKey × Option StatKey

/-- A zero vector has no unit vector. -/
structure Matrices where
  unit : List Rat → Option (List Rat)
  itemsize : Nat

structure CandidateVectors where
  groups : List (Nat × List (String × List Rat))
  deriving DecidableEq

abbrev BySpace := List (EmbeddingSpace × CandidateVectors)

variable (m : Matrices)

/-- `CandidateVectors(vectors, compact=True)`. -/
def CandidateVectors.compact (vectors : List (String × List Rat)) : CandidateVectors where
  groups := (Dict.groupBy (fun vector => vector.2.length) vectors).map fun group =>
    (group.1, group.2.filterMap fun vector => (m.unit vector.2).map fun unit => (vector.1, unit))

def CandidateVectors.nbytes (candidates : CandidateVectors) : Nat :=
  (candidates.groups.map fun group => group.2.length * group.1 * m.itemsize).sum

/-- `group_by_space`. -/
def groupBySpace (records : List (String × StoredVector)) : BySpace :=
  (Dict.groupBy Prod.fst (records.filterMap fun record =>
      record.2.provenance.map fun p => (p.space, (record.1, record.2.embedding)))).map fun group =>
    (group.1, CandidateVectors.compact m (group.2.map Prod.snd))

structure StoreState where
  token : FileToken
  loadedAt : Nat
  namespaces : List String
  byNamespace : List (String × BySpace)
  nbytes : Int

/-- A state as `SiblingStoreView` makes it. -/
def StoreState.fresh (token : FileToken) (now : Nat) (namespaces : List String) : StoreState :=
  ⟨token, now, namespaces, [], 0⟩

/-- `sum(vectors.nbytes for vectors in candidates.values())`. -/
def size (candidates : BySpace) : Int :=
  (candidates.map fun entry => (entry.2.nbytes m : Int)).sum

/-- The states are objects, the stores name them. -/
structure SiblingCandidateCache where
  states : Nat → StoreState
  stores : List (String × Nat)
  nbytes : Int

namespace SiblingCandidateCache

/-- `_drop`. -/
def drop (c : SiblingCandidateCache) (key : String) (i : Nat) : SiblingCandidateCache :=
  { c with stores := Dict.pop c.stores key, nbytes := c.nbytes - (c.states i).nbytes }

/-- `_evict`, of the stores that are left. -/
def evicted (maxBytes : Nat) (states : Nat → StoreState) :
    List (String × Nat) → Int → List (String × Nat) × Int
  | [], nbytes => ([], nbytes)
  | entry :: stores, nbytes =>
      if nbytes > maxBytes then evicted maxBytes states stores (nbytes - (states entry.2).nbytes)
      else (entry :: stores, nbytes)

def evict (c : SiblingCandidateCache) (maxBytes : Nat) : SiblingCandidateCache :=
  { c with
    stores := (evicted maxBytes c.states c.stores c.nbytes).1
    nbytes := (evicted maxBytes c.states c.stores c.nbytes).2 }

def clear (c : SiblingCandidateCache) : SiblingCandidateCache :=
  { c with stores := [], nbytes := 0 }

def lookup (c : SiblingCandidateCache) (maxAge : Int) (key : String) (token : FileToken)
    (now : Nat) : SiblingCandidateCache × Option Nat :=
  match Dict.get c.stores key with
  | none => (c, none)
  | some i =>
      if (c.states i).token ≠ token ∨ (now : Int) - (c.states i).loadedAt > maxAge then
        (c.drop key i, none)
      else ({ c with stores := Dict.pop c.stores key ++ [(key, i)] }, some i)

def install (c : SiblingCandidateCache) (maxBytes : Nat) (key : String) (i : Nat) :
    SiblingCandidateCache :=
  let c := match Dict.get c.stores key with
    | some held => c.drop key held
    | none => c
  { c with stores := c.stores ++ [(key, i)], nbytes := c.nbytes + (c.states i).nbytes }.evict
    maxBytes

/-- How much larger a state gets by the candidates of a namespace. -/
def delta (c : SiblingCandidateCache) (i : Nat) (ns : String) (candidates : BySpace) : Int :=
  size m candidates - size m ((Dict.get (c.states i).byNamespace ns).getD [])

/-- The state with the candidates. -/
def grown (c : SiblingCandidateCache) (i : Nat) (ns : String) (candidates : BySpace) : StoreState :=
  { c.states i with
    byNamespace := Dict.assign (c.states i).byNamespace ns candidates
    nbytes := (c.states i).nbytes + c.delta m i ns candidates }

def grow (c : SiblingCandidateCache) (i : Nat) (ns : String) (candidates : BySpace) :
    SiblingCandidateCache :=
  { c with states := Function.update c.states i (c.grown m i ns candidates) }

def addNamespace (c : SiblingCandidateCache) (maxBytes : Nat) (key : String) (i : Nat)
    (ns : String) (candidates : BySpace) : SiblingCandidateCache :=
  if Dict.get c.stores key = some i then
    { c.grow m i ns candidates with nbytes := c.nbytes + c.delta m i ns candidates }.evict maxBytes
  else c.grow m i ns candidates

/-- The bytes of the states that are held. -/
def held (c : SiblingCandidateCache) : Int :=
  (c.stores.map fun entry => (c.states entry.2).nbytes).sum

/-- The count is that of the states that are held, each under one path. -/
structure Balanced (c : SiblingCandidateCache) : Prop where
  keys : (Dict.keys c.stores).Nodup
  once : (c.stores.map Prod.snd).Nodup
  nbytes : c.nbytes = c.held
  states : ∀ i, (c.states i).nbytes =
    ((c.states i).byNamespace.map fun entry => size m entry.2).sum

/-- What evictions leave. -/
theorem evicted_spec {maxBytes : Nat} {states : Nat → StoreState} {stores : List (String × Nat)}
    {nbytes : Int} (h : nbytes = (stores.map fun entry => (states entry.2).nbytes).sum) :
    (evicted maxBytes states stores nbytes).1 <:+ stores ∧
      (evicted maxBytes states stores nbytes).2 =
        ((evicted maxBytes states stores nbytes).1.map fun entry => (states entry.2).nbytes).sum ∧
      (evicted maxBytes states stores nbytes).2 ≤ maxBytes := by
  induction stores generalizing nbytes with
  | nil =>
      rw [evicted, h]
      exact ⟨List.suffix_rfl, rfl, Int.natCast_nonneg maxBytes⟩
  | cons entry stores ih =>
      rw [evicted]
      split
      · rw [List.map_cons, List.sum_cons] at h
        obtain ⟨hsuffix, hcount⟩ := @ih (nbytes - (states entry.2).nbytes) (by omega)
        exact ⟨hsuffix.trans (List.suffix_cons _ _), hcount⟩
      · rename_i hfits
        exact ⟨List.suffix_rfl, h, not_lt.mp hfits⟩

variable {m} {c : SiblingCandidateCache} {key : String} {i : Nat}

theorem balanced_evict (h : c.Balanced m) (maxBytes : Nat) :
    (c.evict maxBytes).Balanced m ∧ (c.evict maxBytes).nbytes ≤ maxBytes ∧
      (c.evict maxBytes).stores <:+ c.stores := by
  obtain ⟨hsuffix, hcount, hbound⟩ := @evicted_spec maxBytes c.states c.stores c.nbytes h.nbytes
  exact ⟨⟨(hsuffix.sublist.map Prod.fst).nodup h.keys, (hsuffix.sublist.map Prod.snd).nodup h.once,
    hcount, h.states⟩, hbound, hsuffix⟩

theorem balanced_clear (h : c.Balanced m) : c.clear.Balanced m :=
  ⟨List.nodup_nil, List.nodup_nil, rfl, h.states⟩

theorem perm_drop (h : c.Balanced m) (hget : Dict.get c.stores key = some i) :
    c.stores.Perm ((key, i) :: (c.drop key i).stores) := Dict.perm_pop h.keys hget

theorem balanced_drop (h : c.Balanced m) (hget : Dict.get c.stores key = some i) :
    (c.drop key i).Balanced m := by
  have hperm := perm_drop h hget
  have hheld := (hperm.map fun entry => (c.states entry.2).nbytes).sum_eq
  rw [List.map_cons, List.sum_cons] at hheld
  refine ⟨Dict.nodup_pop h.keys key, ?_, ?_, h.states⟩
  · exact (List.nodup_cons.mp ((hperm.map Prod.snd).nodup_iff.mp h.once)).2
  · change c.nbytes - (c.states i).nbytes =
      ((c.drop key i).stores.map fun entry => (c.states entry.2).nbytes).sum
    rw [h.nbytes, held, hheld, add_sub_cancel_left]

theorem balanced_lookup (h : c.Balanced m) (maxAge : Int) (key : String) (token : FileToken)
    (now : Nat) : (c.lookup maxAge key token now).1.Balanced m := by
  rw [lookup]
  split
  · exact h
  · rename_i i hget
    split
    · exact balanced_drop h hget
    · have hperm : (Dict.pop c.stores key ++ [(key, i)]).Perm c.stores :=
        (List.perm_append_comm.trans (perm_drop h hget).symm)
      exact ⟨(hperm.map Prod.fst).nodup_iff.mpr h.keys, (hperm.map Prod.snd).nodup_iff.mpr h.once,
        h.nbytes.trans (hperm.map _).sum_eq.symm, h.states⟩

theorem nbytes_nonneg (h : c.Balanced m) (i : Nat) : 0 ≤ (c.states i).nbytes := by
  rw [h.states i]
  refine List.sum_nonneg fun n hn => ?_
  obtain ⟨entry, -, rfl⟩ := List.mem_map.mp hn
  refine List.sum_nonneg fun n hn => ?_
  obtain ⟨vectors, -, rfl⟩ := List.mem_map.mp hn
  exact Int.natCast_nonneg _

/-- A lookup drops a store or moves it, and returns a state that carries the token. -/
theorem lookup_spec (h : c.Balanced m) (maxAge : Int) (key : String) (token : FileToken)
    (now : Nat) : (c.lookup maxAge key token now).1.states = c.states ∧
      (c.lookup maxAge key token now).1.nbytes ≤ c.nbytes ∧
      (∀ entry ∈ (c.lookup maxAge key token now).1.stores, entry ∈ c.stores) ∧
      ∀ i, (c.lookup maxAge key token now).2 = some i →
        (key, i) ∈ c.stores ∧ (c.states i).token = token := by
  rw [lookup]
  split
  · exact ⟨rfl, le_rfl, fun _ hentry => hentry, nofun⟩
  · rename_i i hget
    split
    · have hnonneg := nbytes_nonneg h i
      refine ⟨rfl, ?_, fun _ hentry => List.filter_sublist.subset hentry, nofun⟩
      change c.nbytes - (c.states i).nbytes ≤ c.nbytes
      omega
    · rename_i hfresh
      refine ⟨rfl, le_rfl, fun entry hentry => ?_, fun j hj => ?_⟩
      · exact (List.perm_append_comm.trans (perm_drop h hget).symm).mem_iff.mp hentry
      · cases hj
        exact ⟨Dict.mem_of_get hget, Decidable.not_not.mp (not_or.mp hfresh).1⟩

theorem install_states (c : SiblingCandidateCache) (maxBytes : Nat) (key : String) (i : Nat) :
    (c.install maxBytes key i).states = c.states := by
  rw [install]
  cases Dict.get c.stores key <;> rfl

theorem addNamespace_states (c : SiblingCandidateCache) (maxBytes : Nat) (key : String) (i : Nat)
    (ns : String) (candidates : BySpace) :
    (c.addNamespace m maxBytes key i ns candidates).states =
      Function.update c.states i (c.grown m i ns candidates) := by
  rw [addNamespace]
  split <;> rfl

/-- A state that is not held changes nothing else. -/
theorem addNamespace_not_held (h : Dict.get c.stores key ≠ some i) (maxBytes : Nat) (ns : String)
    (candidates : BySpace) : (c.addNamespace m maxBytes key i ns candidates).nbytes = c.nbytes ∧
      (c.addNamespace m maxBytes key i ns candidates).stores = c.stores := by
  rw [addNamespace, if_neg h]
  exact ⟨rfl, rfl⟩

/-- Installing keeps the count where the state stands under no other path. -/
theorem balanced_install (h : c.Balanced m)
    (honly : ∀ entry ∈ c.stores, entry.2 = i → entry.1 = key) (maxBytes : Nat) :
    (c.install maxBytes key i).Balanced m ∧
      (c.install maxBytes key i).nbytes ≤ maxBytes ∧
      ∀ entry ∈ (c.install maxBytes key i).stores, entry = (key, i) ∨ entry ∈ c.stores := by
  have hinstall : ∀ d : SiblingCandidateCache, d.Balanced m → key ∉ Dict.keys d.stores →
      d.stores ⊆ c.stores →
      ({ d with stores := d.stores ++ [(key, i)], nbytes := d.nbytes + (d.states i).nbytes } :
        SiblingCandidateCache).Balanced m := by
    intro d hd hkey hsubset
    refine ⟨?_, ?_, ?_, hd.states⟩
    · rw [Dict.keys, List.map_append]
      exact List.nodup_append.mpr ⟨hd.keys, List.nodup_singleton _, fun k hk k' hk' heq =>
        hkey ((show k = key from heq.trans (List.mem_singleton.mp hk')) ▸ hk)⟩
    · rw [List.map_append]
      refine List.nodup_append.mpr ⟨hd.once, List.nodup_singleton _, fun j hj j' hj' heq => ?_⟩
      obtain ⟨entry, hentry, rfl⟩ := List.mem_map.mp hj
      have hkeyed := honly entry (hsubset hentry) (heq.trans (List.mem_singleton.mp hj'))
      exact hkey (hkeyed ▸ List.mem_map_of_mem hentry)
    · simp [held, hd.nbytes]
  rw [install]
  cases hget : Dict.get c.stores key with
  | none =>
      have hbalanced := hinstall c h (Dict.get_eq_none.mp hget) (List.Subset.refl _)
      obtain ⟨hkept, hbound, hsuffix⟩ := balanced_evict hbalanced maxBytes
      refine ⟨hkept, hbound, fun entry hentry => ?_⟩
      have hmem := hsuffix.subset hentry
      rcases List.mem_append.mp hmem with hmem | hmem
      · exact .inr hmem
      · exact .inl (List.mem_singleton.mp hmem)
  | some old =>
      have hbalanced := hinstall (c.drop key old) (balanced_drop h hget)
        (fun hmem => (Dict.mem_keys_pop.mp hmem).1 rfl) List.filter_sublist.subset
      obtain ⟨hkept, hbound, hsuffix⟩ := balanced_evict hbalanced maxBytes
      refine ⟨hkept, hbound, fun entry hentry => ?_⟩
      have hmem := hsuffix.subset hentry
      rcases List.mem_append.mp hmem with hmem | hmem
      · exact .inr (List.filter_sublist.subset hmem)
      · exact .inl (List.mem_singleton.mp hmem)

/-- One state of another size. -/
theorem sum_update (states : Nat → StoreState) (state : StoreState) {stores : List (String × Nat)}
    (honce : (stores.map Prod.snd).Nodup) :
    (stores.map fun entry => (Function.update states i state entry.2).nbytes).sum =
      (stores.map fun entry => (states entry.2).nbytes).sum +
        if i ∈ stores.map Prod.snd then state.nbytes - (states i).nbytes else 0 := by
  induction stores with
  | nil => simp
  | cons entry stores ih =>
      obtain ⟨hnot, honce⟩ := List.nodup_cons.mp honce
      rw [List.map_cons, List.sum_cons, ih honce, List.map_cons, List.sum_cons, List.map_cons]
      by_cases heq : entry.2 = i
      · rw [heq, Function.update_self, if_neg (heq ▸ hnot), if_pos List.mem_cons_self]
        omega
      · rw [Function.update_of_ne heq]
        simp only [List.mem_cons, Ne.symm heq, false_or]
        omega

theorem sum_assign (d : List (String × BySpace)) (ns : String) (candidates : BySpace) :
    ((Dict.assign d ns candidates).map fun entry => size m entry.2).sum =
      (d.map fun entry => size m entry.2).sum +
        (size m candidates - size m ((Dict.get d ns).getD [])) := by
  induction d with
  | nil => simp [Dict.assign, Dict.get, size]
  | cons entry d ih =>
      obtain ⟨ns', old⟩ := entry
      rw [Dict.assign, Dict.get]
      split
      · simp only [List.map_cons, List.sum_cons, Option.getD_some]
        omega
      · simp only [List.map_cons, List.sum_cons, ih]
        omega

/-- Adding a namespace keeps the count where the state stands under no other path. -/
theorem balanced_addNamespace (h : c.Balanced m)
    (honly : ∀ entry ∈ c.stores, entry.2 = i → entry.1 = key) {maxBytes : Nat}
    (hbound : c.nbytes ≤ maxBytes) (ns : String) (candidates : BySpace) :
    (c.addNamespace m maxBytes key i ns candidates).Balanced m ∧
      (c.addNamespace m maxBytes key i ns candidates).nbytes ≤ maxBytes ∧
      (c.addNamespace m maxBytes key i ns candidates).stores <:+ c.stores := by
  have hmem : i ∈ c.stores.map Prod.snd ↔ Dict.get c.stores key = some i := by
    constructor
    · intro hi
      obtain ⟨⟨key', i'⟩, hentry, rfl⟩ := List.mem_map.mp hi
      obtain rfl := honly _ hentry rfl
      exact Dict.get_of_mem h.keys hentry
    · exact fun hget => List.mem_map.mpr ⟨_, Dict.mem_of_get hget, rfl⟩
  have hstates : ∀ j, ((c.grow m i ns candidates).states j).nbytes =
      (((c.grow m i ns candidates).states j).byNamespace.map fun entry => size m entry.2).sum := by
    intro j
    by_cases hj : j = i
    · subst hj
      simp only [grow, Function.update_self, grown, sum_assign, ← h.states j, delta]
    · simp only [grow, Function.update_of_ne hj]
      exact h.states j
  have hheld : (c.grow m i ns candidates).held =
      c.held + if Dict.get c.stores key = some i then c.delta m i ns candidates else 0 := by
    simp only [held, grow, sum_update _ _ h.once, hmem, grown, add_sub_cancel_left]
  rw [addNamespace]
  split
  · rename_i hget
    have hgrown : ({ c.grow m i ns candidates with
        nbytes := c.nbytes + c.delta m i ns candidates } : SiblingCandidateCache).Balanced m := by
      refine ⟨h.keys, h.once, ?_, hstates⟩
      rw [if_pos hget] at hheld
      exact (congrArg (· + c.delta m i ns candidates) h.nbytes).trans hheld.symm
    exact balanced_evict hgrown maxBytes
  · rename_i hgone
    refine ⟨⟨h.keys, h.once, ?_, hstates⟩, hbound, List.suffix_rfl⟩
    rw [if_neg hgone, add_zero] at hheld
    exact h.nbytes.trans hheld.symm

end SiblingCandidateCache

end TrwMemory.Graph.Sibling

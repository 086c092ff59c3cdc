import Mathlib.Algebra.Ring.Nat
import Mathlib.Data.List.FinRange
import TrwMemory.Library.OrderedDict

/-!
Complete-linkage clustering (`lifecycle/consolidation.py`). Items and vectors are of any type;
scores of any type with a decidable order relation, of which no law is used, so that they may be
floating-point numbers. The similarity function may raise; two of its errors count as a zero.
-/
namespace TrwMemory.Lifecycle

open Library

/-- What the similarity function may raise. -/
inductive SimilarityError where
  | dimensionMismatch
  | zeroDivision
  | other
  deriving DecidableEq, Repr

section

variable {T V S : Type} [LE S] [DecidableLE S] [Zero S]
variable (similarityFn : V → V → Except SimilarityError S)

/-- A pair of vectors that cannot be compared scores zero. -/
def pairSimilarity (a b : V) : Except SimilarityError S :=
  match similarityFn a b with
  | .error .dimensionMismatch | .error .zeroDivision => .ok 0
  | result => result

variable (items : List (T × V)) (similarityThreshold : S)

/-- `cluster_id`. -/
abbrev ClusterIds (n : Nat) := Fin n → Nat

/-- `_pair_similarity(items[a][1], items[b][1]) >= similarity_threshold`. -/
def reaches (a b : Fin items.length) : Except SimilarityError Bool := do
  let sim ← pairSimilarity similarityFn items[a].2 items[b].2
  return decide (similarityThreshold ≤ sim)

def members {n : Nat} (clusterId : ClusterIds n) (cid : Nat) : List (Fin n) :=
  (List.finRange n).filter fun k => decide (clusterId k = cid)

def canMerge (clusterId : ClusterIds items.length) (i j : Fin items.length) :
    Except SimilarityError Bool :=
  (members clusterId (clusterId i)).allM fun a =>
    (members clusterId (clusterId j)).allM fun b =>
      reaches similarityFn items similarityThreshold a b

def merge {n : Nat} (clusterId : ClusterIds n) (i j : Fin n) : ClusterIds n := fun k =>
  if clusterId k = clusterId j then clusterId i else clusterId k

/-- The body of the two loops. -/
def linkStep (clusterId : ClusterIds items.length) (pair : Fin items.length × Fin items.length) :
    Except SimilarityError (ClusterIds items.length) := do
  if ← reaches similarityFn items similarityThreshold pair.1 pair.2 then
    if clusterId pair.1 = clusterId pair.2 then return clusterId
    else if ← canMerge similarityFn items similarityThreshold clusterId pair.1 pair.2 then
      return merge clusterId pair.1 pair.2
    else return clusterId
  else return clusterId

/-- The clusters of one item each. -/
def singletons (n : Nat) : ClusterIds n := fun k => k.val

/-- The pairs of the two loops, in their order. -/
def loopPairs (n : Nat) : List (Fin n × Fin n) :=
  (List.finRange n).flatMap fun i =>
    ((List.finRange n).filter fun j => decide (i < j)).map fun j => (i, j)

def clusterGroups (minClusterSize : Int) {n : Nat} (clusterId : ClusterIds n) :
    List (List (Fin n)) :=
  ((Dict.groupBy clusterId (List.finRange n)).map Prod.snd).filter fun group =>
    decide (minClusterSize ≤ group.length)

def completeLinkageCluster (minClusterSize : Int) : Except SimilarityError (List (List T)) := do
  let clusterId ← (loopPairs items.length).foldlM (linkStep similarityFn items similarityThreshold)
    (singletons items.length)
  return (clusterGroups minClusterSize clusterId).map fun group => group.map fun k => items[k].1

end

variable {T V S : Type} [LE S] [DecidableLE S] [Zero S]
variable {similarityFn : V → V → Except SimilarityError S}
variable {items : List (T × V)} {similarityThreshold : S}

/-- The pair's similarity is at least the threshold. -/
def Similar (similarityFn : V → V → Except SimilarityError S) (similarityThreshold : S)
    (a b : V) : Prop :=
  ∃ sim, pairSimilarity similarityFn a b = .ok sim ∧ similarityThreshold ≤ sim

theorem similar_of_reaches {a b : Fin items.length}
    (h : reaches similarityFn items similarityThreshold a b = .ok true) :
    Similar similarityFn similarityThreshold items[a].2 items[b].2 := by
  rw [reaches] at h
  cases hsim : pairSimilarity similarityFn items[a].2 items[b].2 with
  | error e => rw [hsim] at h; cases h
  | ok sim =>
      rw [hsim] at h
      exact ⟨sim, hsim, of_decide_eq_true (Except.ok.inj h)⟩

omit [DecidableLE S] in
theorem similar_symm (hsym : ∀ a b, similarityFn a b = similarityFn b a) {a b : V}
    (h : Similar similarityFn similarityThreshold a b) :
    Similar similarityFn similarityThreshold b a := by
  obtain ⟨sim, hsim, hle⟩ := h
  refine ⟨sim, ?_, hle⟩
  rwa [pairSimilarity, hsym b a]

theorem forall_of_allM {α : Type} {p : α → Except SimilarityError Bool} {l : List α}
    (h : l.allM p = .ok true) : ∀ a ∈ l, p a = .ok true := by
  induction l with
  | nil => exact fun a ha => absurd ha List.not_mem_nil
  | cons a l ih =>
      rw [List.allM] at h
      cases hp : p a with
      | error e => rw [hp] at h; cases h
      | ok b =>
          rw [hp] at h
          cases b with
          | false => cases h
          | true => exact List.forall_mem_cons.mpr ⟨hp, ih h⟩

theorem similar_of_canMerge {clusterId : ClusterIds items.length} {i j : Fin items.length}
    (h : canMerge similarityFn items similarityThreshold clusterId i j = .ok true)
    {a b : Fin items.length} (ha : clusterId a = clusterId i) (hb : clusterId b = clusterId j) :
    Similar similarityFn similarityThreshold items[a].2 items[b].2 := by
  have hmem : ∀ {k l : Fin items.length}, clusterId k = clusterId l →
      k ∈ members clusterId (clusterId l) := fun hk =>
    List.mem_filter.mpr ⟨List.mem_finRange _, decide_eq_true hk⟩
  exact similar_of_reaches (forall_of_allM (forall_of_allM h a (hmem ha)) b (hmem hb))

/-- Two items of one cluster are similar. -/
def Linked (similarityFn : V → V → Except SimilarityError S) (items : List (T × V))
    (similarityThreshold : S) (clusterId : ClusterIds items.length) : Prop :=
  ∀ a b, clusterId a = clusterId b → a ≠ b →
    Similar similarityFn similarityThreshold items[a].2 items[b].2

theorem linked_merge (hsym : ∀ a b, similarityFn a b = similarityFn b a)
    {clusterId : ClusterIds items.length} {i j : Fin items.length}
    (hlinked : Linked similarityFn items similarityThreshold clusterId)
    (h : canMerge similarityFn items similarityThreshold clusterId i j = .ok true) :
    Linked similarityFn items similarityThreshold (merge clusterId i j) := by
  intro a b hab hne
  rw [merge, merge] at hab
  by_cases ha : clusterId a = clusterId j <;> by_cases hb : clusterId b = clusterId j
  · exact hlinked a b (ha.trans hb.symm) hne
  · rw [if_pos ha, if_neg hb] at hab
    exact similar_symm hsym (similar_of_canMerge h hab.symm ha)
  · rw [if_neg ha, if_pos hb] at hab
    exact similar_of_canMerge h hab hb
  · rw [if_neg ha, if_neg hb] at hab
    exact hlinked a b hab hne

theorem linked_linkStep (hsym : ∀ a b, similarityFn a b = similarityFn b a)
    {clusterId clusterId' : ClusterIds items.length} {pair : Fin items.length × Fin items.length}
    (hlinked : Linked similarityFn items similarityThreshold clusterId)
    (h : linkStep similarityFn items similarityThreshold clusterId pair = .ok clusterId') :
    Linked similarityFn items similarityThreshold clusterId' := by
  rw [linkStep] at h
  cases hreach : reaches similarityFn items similarityThreshold pair.1 pair.2 with
  | error e => rw [hreach] at h; cases h
  | ok sim =>
      rw [hreach] at h
      cases sim with
      | false => exact Except.ok.inj h ▸ hlinked
      | true =>
          by_cases hsame : clusterId pair.1 = clusterId pair.2
          · exact Except.ok.inj ((if_pos hsame).symm.trans h) ▸ hlinked
          · replace h := (if_neg hsame).symm.trans h
            cases hmerge :
                canMerge similarityFn items similarityThreshold clusterId pair.1 pair.2 with
            | error e => rw [hmerge] at h; cases h
            | ok can =>
                rw [hmerge] at h
                cases can with
                | false => exact Except.ok.inj h ▸ hlinked
                | true => exact Except.ok.inj h ▸ linked_merge hsym hlinked hmerge

theorem linked_foldlM (hsym : ∀ a b, similarityFn a b = similarityFn b a)
    {pairs : List (Fin items.length × Fin items.length)}
    {clusterId clusterId' : ClusterIds items.length}
    (hlinked : Linked similarityFn items similarityThreshold clusterId)
    (h : pairs.foldlM (linkStep similarityFn items similarityThreshold) clusterId =
      .ok clusterId') :
    Linked similarityFn items similarityThreshold clusterId' := by
  induction pairs generalizing clusterId with
  | nil => exact Except.ok.inj h ▸ hlinked
  | cons pair pairs ih =>
      rw [List.foldlM_cons] at h
      cases hstep : linkStep similarityFn items similarityThreshold clusterId pair with
      | error e => rw [hstep] at h; cases h
      | ok next =>
          rw [hstep] at h
          exact ih (linked_linkStep hsym hlinked hstep) h

omit [DecidableLE S] in
theorem linked_initial :
    Linked similarityFn items similarityThreshold (singletons items.length) :=
  fun _ _ hab hne => absurd (Fin.ext hab) hne

theorem mem_clusterGroups {minClusterSize : Int} {n : Nat} {clusterId : ClusterIds n}
    {group : List (Fin n)} (h : group ∈ clusterGroups minClusterSize clusterId) :
    minClusterSize ≤ group.length ∧ ∃ cid, group = members clusterId cid := by
  obtain ⟨hgroup, hsize⟩ := List.mem_filter.mp h
  obtain ⟨⟨cid, group⟩, hmem, rfl⟩ := List.mem_map.mp hgroup
  exact ⟨of_decide_eq_true hsize, cid, Dict.eq_filter_of_mem_groupBy hmem⟩

theorem nodup_flatten_clusterGroups (minClusterSize : Int) {n : Nat} (clusterId : ClusterIds n) :
    (clusterGroups minClusterSize clusterId).flatten.Nodup := by
  have hgroups := Dict.nodup_flatten_groupBy clusterId (List.nodup_finRange n)
  rw [List.nodup_flatten] at hgroups ⊢
  exact ⟨fun group h => hgroups.1 group (List.mem_filter.mp h).1, hgroups.2.filter _⟩

omit [LE S] [DecidableLE S] in
theorem exists_pairSimilarity (hfn : ∀ a b, similarityFn a b ≠ .error .other) (a b : V) :
    ∃ sim, pairSimilarity similarityFn a b = .ok sim := by
  rw [pairSimilarity]
  cases h : similarityFn a b with
  | ok sim => exact ⟨sim, rfl⟩
  | error e =>
      cases e with
      | dimensionMismatch => exact ⟨0, rfl⟩
      | zeroDivision => exact ⟨0, rfl⟩
      | other => exact absurd h (hfn a b)

theorem exists_reaches (hfn : ∀ a b, similarityFn a b ≠ .error .other)
    (a b : Fin items.length) :
    ∃ reached, reaches similarityFn items similarityThreshold a b = .ok reached := by
  obtain ⟨sim, hsim⟩ := exists_pairSimilarity hfn items[a].2 items[b].2
  exact ⟨decide (similarityThreshold ≤ sim), by rw [reaches, hsim]; rfl⟩

theorem exists_allM {α : Type} {p : α → Except SimilarityError Bool}
    (hp : ∀ a, ∃ b, p a = .ok b) (l : List α) : ∃ b, l.allM p = .ok b := by
  induction l with
  | nil => exact ⟨true, rfl⟩
  | cons a l ih =>
      obtain ⟨b, hb⟩ := hp a
      rw [List.allM, hb]
      cases b with
      | false => exact ⟨false, rfl⟩
      | true => exact ih

theorem exists_linkStep (hfn : ∀ a b, similarityFn a b ≠ .error .other)
    (clusterId : ClusterIds items.length) (pair : Fin items.length × Fin items.length) :
    ∃ clusterId', linkStep similarityFn items similarityThreshold clusterId pair =
      .ok clusterId' := by
  obtain ⟨reached, hreach⟩ : ∃ reached,
      reaches similarityFn items similarityThreshold pair.1 pair.2 = .ok reached :=
    exists_reaches hfn _ _
  obtain ⟨can, hcan⟩ : ∃ can,
      canMerge similarityFn items similarityThreshold clusterId pair.1 pair.2 = .ok can :=
    exists_allM (fun _ => exists_allM (exists_reaches hfn _) _) _
  rw [linkStep, hreach, hcan]
  cases reached with
  | false => exact ⟨_, rfl⟩
  | true =>
      by_cases hsame : clusterId pair.1 = clusterId pair.2
      · exact ⟨clusterId, if_pos hsame⟩
      · cases can with
        | false => exact ⟨clusterId, if_neg hsame⟩
        | true => exact ⟨merge clusterId pair.1 pair.2, if_neg hsame⟩

theorem exists_foldlM (hfn : ∀ a b, similarityFn a b ≠ .error .other)
    (pairs : List (Fin items.length × Fin items.length)) (clusterId : ClusterIds items.length) :
    ∃ clusterId', pairs.foldlM (linkStep similarityFn items similarityThreshold) clusterId =
      .ok clusterId' := by
  induction pairs generalizing clusterId with
  | nil => exact ⟨clusterId, rfl⟩
  | cons pair pairs ih =>
      obtain ⟨next, hstep⟩ : ∃ next,
          linkStep similarityFn items similarityThreshold clusterId pair = .ok next :=
        exists_linkStep hfn _ _
      rw [List.foldlM_cons, hstep]
      exact ih next

/-- The clusters are groups of positions of the list: no position stands in two groups or twice
in one, two positions of a group are similar, and a group has the least size. -/
def SoundClusters (similarityFn : V → V → Except SimilarityError S) (items : List (T × V))
    (similarityThreshold : S) (minClusterSize : Int) (clusters : List (List T)) : Prop :=
  ∃ groups : List (List (Fin items.length)),
    clusters = groups.map (fun group => group.map fun k => items[k].1) ∧
    groups.flatten.Nodup ∧
    (∀ group ∈ groups, ∀ a ∈ group, ∀ b ∈ group, a ≠ b →
      Similar similarityFn similarityThreshold items[a].2 items[b].2) ∧
    ∀ group ∈ groups, minClusterSize ≤ group.length

/-- The clustering returns unless the similarity function raises an error it does not expect,
and what it returns is sound. -/
theorem completeLinkageCluster_sound (similarityFn : V → V → Except SimilarityError S)
    (hsym : ∀ a b, similarityFn a b = similarityFn b a) (items : List (T × V))
    (similarityThreshold : S) (minClusterSize : Int) :
    ((∀ a b, similarityFn a b ≠ .error .other) → ∃ clusters,
      completeLinkageCluster similarityFn items similarityThreshold minClusterSize =
        .ok clusters) ∧
    ∀ clusters, completeLinkageCluster similarityFn items similarityThreshold minClusterSize =
        .ok clusters →
      SoundClusters similarityFn items similarityThreshold minClusterSize clusters := by
  constructor
  · intro hfn
    obtain ⟨clusterId, hfold⟩ : ∃ clusterId, (loopPairs items.length).foldlM
        (linkStep similarityFn items similarityThreshold) (singletons items.length) =
          .ok clusterId := exists_foldlM hfn _ _
    exact ⟨_, by rw [completeLinkageCluster, hfold]; rfl⟩
  intro clusters h
  rw [completeLinkageCluster] at h
  cases hfold : (loopPairs items.length).foldlM
      (linkStep similarityFn items similarityThreshold) (singletons items.length) with
  | error e => rw [hfold] at h; cases h
  | ok clusterId =>
      rw [hfold] at h
      have hlinked := linked_foldlM hsym linked_initial hfold
      refine ⟨clusterGroups minClusterSize clusterId, (Except.ok.inj h).symm,
        nodup_flatten_clusterGroups _ _, fun group hgroup a ha b hb => ?_,
        fun group hgroup => (mem_clusterGroups hgroup).1⟩
      obtain ⟨-, cid, rfl⟩ := mem_clusterGroups hgroup
      have hcid : ∀ k ∈ members clusterId cid, clusterId k = cid := fun k hk =>
        of_decide_eq_true (List.mem_filter.mp hk).2
      exact hlinked a b ((hcid a ha).trans (hcid b hb).symm)

/-- Vectors of one length are similar, others cannot be compared. -/
theorem completeLinkageCluster_sound_lengths :
    SoundClusters (fun a b : List Nat =>
        if a.length = b.length then .ok (1 : Nat) else .error .dimensionMismatch)
      [('a', [0]), ('b', [0, 0]), ('c', [1])] 1 2 [['a', 'c']] :=
  (completeLinkageCluster_sound _ (fun a b => by simp only [eq_comm]) _ _ _).2 _ (by decide)

end TrwMemory.Lifecycle

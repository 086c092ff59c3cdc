import Mathlib.Data.List.Nodup
import Mathlib.Data.List.Pairwise
import Mathlib.Data.List.Perm.Subperm

/-!
Breadth-first search, one discovery at a time. The state is what was found, in the order in
which it was found: nodes that are done with, and behind them the queue. The head of the queue
finds one of its successors, or is done with once all of them are found. However far a search
gets, what it has found has the length of its shortest walk; a search whose queue has nothing
left below the limit has found all there is.
-/
namespace Library.Bfs

universe u

variable {α : Type u}

/-- A walk of a length from one of the roots. -/
inductive Walk (roots : List α) (next : α → α → Prop) : Nat → α → Prop where
  | root {r : α} (h : r ∈ roots) : Walk roots next 0 r
  | step {n : Nat} {u v : α} (walk : Walk roots next n u) (h : next u v) :
      Walk roots next (n + 1) v

/-- A node with the depth at which it was found. -/
abbrev Node (α : Type u) := α × Nat

structure State (α : Type u) where
  done : List (Node α)
  queue : List (Node α)

namespace State

def found (s : State α) : List (Node α) := s.done ++ s.queue

def names (s : State α) : List α := s.found.map Prod.fst

def start (roots : List α) : State α := ⟨[], roots.map fun r => (r, 0)⟩

/-- The head of the queue finds a node. -/
def discover (s : State α) (node : Node α) : State α := { s with queue := s.queue ++ [node] }

/-- The head of the queue is done with. -/
def retire (s : State α) (head : Node α) (rest : List (Node α)) : State α :=
  ⟨s.done ++ [head], rest⟩

theorem found_discover (s : State α) (node : Node α) :
    (s.discover node).found = s.found ++ [node] := (List.append_assoc _ _ _).symm

theorem found_retire {s : State α} {head : Node α} {rest : List (Node α)}
    (h : s.queue = head :: rest) : (s.retire head rest).found = s.found := by
  rw [found, found, h, retire, List.append_assoc]
  rfl

theorem mem_names {s : State α} {v : α} : v ∈ s.names ↔ ∃ k, (v, k) ∈ s.found := by
  rw [names, List.mem_map]
  exact ⟨fun ⟨node, hmem, hv⟩ => ⟨node.2, hv ▸ hmem⟩, fun ⟨k, hmem⟩ => ⟨(v, k), hmem, rfl⟩⟩

end State

/-- What holds of every state of a search. -/
structure Sound (roots : List α) (next : α → α → Prop) (limit : Nat) (s : State α) : Prop where
  nodup : s.names.Nodup
  sorted : s.found.Pairwise fun a b => a.2 ≤ b.2
  near : ∀ head ∈ s.queue.head?, ∀ node ∈ s.queue, node.2 ≤ head.2 + 1
  bounded : ∀ node ∈ s.found, node.2 ≤ limit
  walks : ∀ node ∈ s.found, Walk roots next node.2 node.1
  roots : ∀ r ∈ roots, (r, 0) ∈ s.found
  closed : ∀ node ∈ s.done, node.2 < limit → ∀ v, next node.1 v →
    ∃ k, k ≤ node.2 + 1 ∧ (v, k) ∈ s.found

variable {roots : List α} {next : α → α → Prop} {limit : Nat} {s : State α}

theorem sound_start (next : α → α → Prop) (limit : Nat) (h : roots.Nodup) :
    Sound roots next limit (State.start roots) := by
  have hmem : ∀ node ∈ (State.start roots).queue, node.1 ∈ roots ∧ node.2 = 0 := by
    intro node hnode
    obtain ⟨r, hr, rfl⟩ := List.mem_map.mp hnode
    exact ⟨hr, rfl⟩
  have hfound : (State.start roots).found = (State.start roots).queue := List.nil_append _
  refine ⟨?_, ?_, fun head _ node hnode => ?_, ?_, ?_, fun r hr => ?_, nofun⟩
  · rw [State.names, hfound, State.start, List.map_map]
    exact (List.map_id roots).symm ▸ h
  · rw [hfound]
    refine List.Pairwise.imp_of_mem (R := fun _ _ => True) (fun ha _ _ => ?_)
      (List.pairwise_of_forall fun _ _ => trivial)
    exact (hmem _ ha).2 ▸ Nat.zero_le _
  · exact (hmem node hnode).2 ▸ Nat.zero_le _
  · rw [hfound]
    exact fun node hnode => (hmem node hnode).2 ▸ Nat.zero_le _
  · rw [hfound]
    intro node hnode
    obtain ⟨hroot, hzero⟩ := hmem node hnode
    rw [hzero]
    exact .root hroot
  · rw [hfound]
    exact List.mem_map_of_mem hr

/-- Nothing that was found lies deeper than one below the head of the queue. -/
theorem Sound.depth_le (h : Sound roots next limit s) {head : Node α} {rest : List (Node α)}
    (hqueue : s.queue = head :: rest) {node : Node α} (hnode : node ∈ s.found) :
    node.2 ≤ head.2 + 1 := by
  rcases List.mem_append.mp hnode with hdone | hqueued
  · have hhead : head ∈ s.queue := hqueue ▸ List.mem_cons_self
    exact Nat.le_succ_of_le ((List.pairwise_append.mp h.sorted).2.2 node hdone head hhead)
  · exact h.near head (by rw [hqueue]; rfl) node hqueued

theorem Sound.discover (h : Sound roots next limit s) {head : Node α} {rest : List (Node α)}
    (hqueue : s.queue = head :: rest) (hlimit : head.2 < limit) {v : α} (hv : next head.1 v)
    (hnew : v ∉ s.names) : Sound roots next limit (s.discover (v, head.2 + 1)) := by
  have hhead : head ∈ s.found := List.mem_append_right _ (hqueue ▸ List.mem_cons_self)
  have hforall : ∀ {p : Node α → Prop}, (∀ node ∈ s.found, p node) → p (v, head.2 + 1) →
      ∀ node ∈ (s.discover (v, head.2 + 1)).found, p node := by
    intro p hold hlast node hnode
    rw [State.found_discover] at hnode
    rcases List.mem_append.mp hnode with hnode | hnode
    · exact hold node hnode
    · exact List.mem_singleton.mp hnode ▸ hlast
  have hgrow : ∀ {node : Node α}, node ∈ s.found → node ∈ (s.discover (v, head.2 + 1)).found :=
    fun hnode => State.found_discover s _ ▸ List.mem_append_left _ hnode
  refine ⟨?_, ?_, ?_, hforall h.bounded hlimit, hforall h.walks (.step (h.walks _ hhead) hv),
    fun r hr => hgrow (h.roots r hr), fun node hnode hlt w hw => ?_⟩
  · rw [State.names, State.found_discover, List.map_append]
    exact List.nodup_append.mpr ⟨h.nodup, List.nodup_singleton _, fun a ha b hb heq =>
      hnew ((show a = v from heq.trans (List.mem_singleton.mp hb)) ▸ ha)⟩
  · rw [State.found_discover]
    refine List.pairwise_append.mpr ⟨h.sorted, List.pairwise_singleton _ _, ?_⟩
    exact fun node hnode last hlast => List.mem_singleton.mp hlast ▸ h.depth_le hqueue hnode
  · intro head' hhead' node hnode
    rw [State.discover, hqueue, List.cons_append, List.head?_cons, Option.mem_some_iff] at hhead'
    subst hhead'
    rcases List.mem_append.mp hnode with hnode | hnode
    · exact h.near _ (by rw [hqueue]; rfl) node hnode
    · exact List.mem_singleton.mp hnode ▸ Nat.le_refl _
  · obtain ⟨k, hk, hmem⟩ := h.closed node hnode hlt w hw
    exact ⟨k, hk, hgrow hmem⟩

theorem Sound.retire (h : Sound roots next limit s) {head : Node α} {rest : List (Node α)}
    (hqueue : s.queue = head :: rest)
    (hall : head.2 < limit → ∀ v, next head.1 v → v ∈ s.names) :
    Sound roots next limit (s.retire head rest) := by
  have hfound := State.found_retire hqueue
  refine ⟨?_, ?_, fun head' hhead' node hnode => ?_, ?_, ?_, ?_, fun node hnode hlt v hv => ?_⟩
  · rw [State.names, hfound]
    exact h.nodup
  · rw [hfound]
    exact h.sorted
  · have hsorted := (List.pairwise_append.mp h.sorted).2.1
    rw [hqueue] at hsorted
    have hle := (List.pairwise_cons.mp hsorted).1 head' (List.mem_of_mem_head? hhead')
    have hnear := h.near head (by rw [hqueue]; rfl) node (hqueue ▸ List.mem_cons_of_mem _ hnode)
    omega
  · rw [hfound]
    exact h.bounded
  · rw [hfound]
    exact h.walks
  · rw [hfound]
    exact h.roots
  · rw [hfound]
    rcases List.mem_append.mp hnode with hnode | hnode
    · exact h.closed node hnode hlt v hv
    · obtain rfl := List.mem_singleton.mp hnode
      obtain ⟨k, hk⟩ := State.mem_names.mp (hall hlt v hv)
      exact ⟨k, h.depth_le hqueue hk, hk⟩

/-- Every walk that is no longer than the limit and than the depths of the queue ends in a node
that was found, no deeper than the walk is long. -/
theorem Sound.exists_found (h : Sound roots next limit s) {n : Nat} {v : α}
    (hwalk : Walk roots next n v) (hlimit : n ≤ limit) (hqueue : ∀ node ∈ s.queue, n ≤ node.2) :
    ∃ k, k ≤ n ∧ (v, k) ∈ s.found := by
  induction hwalk with
  | root hr => exact ⟨0, Nat.le_refl 0, h.roots _ hr⟩
  | @step n u v hwalk hnext ih =>
      obtain ⟨k, hk, hmem⟩ := ih (Nat.le_of_succ_le hlimit) fun node hnode =>
        Nat.le_of_succ_le (hqueue node hnode)
      rcases List.mem_append.mp hmem with hdone | hqueued
      · obtain ⟨k', hk', hmem'⟩ := h.closed (u, k) hdone (by dsimp only; omega) v hnext
        exact ⟨k', Nat.le_trans hk' (Nat.succ_le_succ hk), hmem'⟩
      · have hle := hqueue (u, k) hqueued
        dsimp only at hle
        omega

/-- A node is found at the length of its shortest walk. -/
theorem Sound.shortest (h : Sound roots next limit s) {v : α} {k : Nat} (hfound : (v, k) ∈ s.found)
    {n : Nat} (hwalk : Walk roots next n v) : k ≤ n := by
  by_contra hlt
  have hbound : k ≤ limit := h.bounded _ hfound
  have hqueue : ∀ node ∈ s.queue, n ≤ node.2 := by
    intro node hnode
    rcases List.mem_append.mp hfound with hdone | hqueued
    · have hle : k ≤ node.2 := (List.pairwise_append.mp h.sorted).2.2 _ hdone node hnode
      omega
    · cases hs : s.queue with
      | nil => rw [hs] at hqueued; cases hqueued
      | cons head rest =>
          have hk : k ≤ head.2 + 1 := h.near head (by rw [hs]; rfl) _ hqueued
          have hsorted := (List.pairwise_append.mp h.sorted).2.1
          rw [hs] at hsorted hnode
          rcases List.mem_cons.mp hnode with rfl | hrest
          · omega
          · have hle := (List.pairwise_cons.mp hsorted).1 node hrest
            omega
  obtain ⟨k', hk', hmem⟩ := h.exists_found hwalk (by omega) hqueue
  have heq := List.inj_on_of_nodup_map h.nodup hfound hmem rfl
  have hsame : k = k' := congrArg Prod.snd heq
  omega

/-- With nothing left below the limit, every walk up to it ends in a node that was found. -/
theorem Sound.complete (h : Sound roots next limit s) (hqueue : ∀ node ∈ s.queue, limit ≤ node.2)
    {n : Nat} {v : α} (hwalk : Walk roots next n v) (hlimit : n ≤ limit) : v ∈ s.names := by
  obtain ⟨k, -, hmem⟩ := h.exists_found hwalk hlimit fun node hnode =>
    Nat.le_trans hlimit (hqueue node hnode)
  exact State.mem_names.mpr ⟨k, hmem⟩

/-- What was found is no more than the nodes there are. -/
theorem Sound.length_le (h : Sound roots next limit s) {nodes : List α}
    (hnodes : ∀ v ∈ s.names, v ∈ nodes) : s.found.length ≤ nodes.length := by
  have hle := (h.nodup.subperm hnodes).length_le
  rwa [State.names, List.length_map] at hle

theorem Walk.mono {next' : α → α → Prop} (h : ∀ u v, next u v → next' u v) {n : Nat} {v : α}
    (hwalk : Walk roots next n v) : Walk roots next' n v := by
  induction hwalk with
  | root hr => exact .root hr
  | step _ hnext ih => exact .step ih (h _ _ hnext)

/-!
Searches of a program. A program keeps the queue and what was found, and takes the head off the
queue before it looks
for its successors. -/

structure Tracks (roots : List α) (next : α → α → Prop) (limit : Nat)
    (done found queue : List (Node α)) : Prop where
  sound : Sound roots next limit ⟨done, queue⟩
  found_eq : done ++ queue = found

variable {done found queue : List (Node α)} {head : Node α}

theorem tracks_start (next : α → α → Prop) (limit : Nat) (h : roots.Nodup) :
    Tracks roots next limit [] (roots.map fun r => (r, 0)) (roots.map fun r => (r, 0)) :=
  ⟨sound_start next limit h, rfl⟩

namespace Tracks

theorem names_eq (h : Tracks roots next limit done found queue) :
    State.names ⟨done, queue⟩ = found.map Prod.fst := congrArg (List.map Prod.fst) h.found_eq

theorem discover (h : Tracks roots next limit done found (head :: queue)) (hlimit : head.2 < limit)
    {v : α} (hv : next head.1 v) (hnew : v ∉ found.map Prod.fst) :
    Tracks roots next limit done (found ++ [(v, head.2 + 1)])
      (head :: (queue ++ [(v, head.2 + 1)])) where
  sound := h.sound.discover rfl hlimit hv (h.names_eq ▸ hnew)
  found_eq := by rw [← h.found_eq, List.append_assoc, List.cons_append]

theorem retire (h : Tracks roots next limit done found (head :: queue))
    (hall : head.2 < limit → ∀ v, next head.1 v → v ∈ found.map Prod.fst) :
    Tracks roots next limit (done ++ [head]) found queue where
  sound := h.sound.retire rfl fun hlimit v hv => h.names_eq ▸ hall hlimit v hv
  found_eq := by rw [← h.found_eq, List.append_assoc, List.singleton_append]

theorem nodup (h : Tracks roots next limit done found queue) : (found.map Prod.fst).Nodup :=
  h.names_eq ▸ h.sound.nodup

theorem mem_found (h : Tracks roots next limit done found queue) {node : Node α}
    (hmem : node ∈ found) : node ∈ State.found ⟨done, queue⟩ := by
  rw [State.found, h.found_eq]
  exact hmem

/-- A node is found at the length of its shortest walk, within the limit. -/
theorem distance (h : Tracks roots next limit done found queue) {v : α} {k : Nat}
    (hmem : (v, k) ∈ found) :
    k ≤ limit ∧ Walk roots next k v ∧ ∀ n, Walk roots next n v → k ≤ n :=
  ⟨h.sound.bounded _ (h.mem_found hmem), h.sound.walks _ (h.mem_found hmem),
    fun _ hwalk => h.sound.shortest (h.mem_found hmem) hwalk⟩

/-- A search that ran out of nodes has found every node within the limit. -/
theorem complete (h : Tracks roots next limit done found []) {n : Nat} {v : α}
    (hwalk : Walk roots next n v) (hlimit : n ≤ limit) : v ∈ found.map Prod.fst :=
  h.names_eq ▸ h.sound.complete nofun hwalk hlimit

/-- No more nodes were done with than there are. -/
theorem length_le (h : Tracks roots next limit done found queue) {nodes : List α}
    (hnodes : ∀ v ∈ found.map Prod.fst, v ∈ nodes) : found.length ≤ nodes.length := by
  have hle := h.sound.length_le fun v hv => hnodes v (h.names_eq ▸ hv)
  rwa [State.found, h.found_eq] at hle

end Tracks

end Library.Bfs

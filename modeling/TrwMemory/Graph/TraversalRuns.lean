import TrwMemory.Graph.Traversal

/-!
What a traversal finds (`graph_query`). The rows of a page find successors of the node, one by
one, and so the whole walk is a breadth-first search, cut off where a budget is reached.
-/
namespace TrwMemory.Graph

open Library Library.Keyed Library.Keyset Storage Retrieval

variable {store : GraphStore} {q : GraphQuery} {depth : Nat} {s : Traversal}
  {roots : List String} {done queue : List (Bfs.Node String)}

/-- An edge that is walked: of an asked type, in the namespace, to a target that counts. -/
def Steps (store : GraphStore) (q : GraphQuery) (u v : String) : Prop :=
  ∃ e ∈ store.edges, (edgeScan store q u).admits e = true ∧ e.targetId = v ∧
    validTarget store q v = true

def GraphQuery.limit (q : GraphQuery) : Nat := q.clampedDepth.toNat

def GraphNode.place (node : GraphNode) : Bfs.Node String := (node.id, node.depth)

/-- The roots and the results. -/
def Traversal.found (roots : List String) (s : Traversal) : List (Bfs.Node String) :=
  roots.map (fun r => (r, 0)) ++ s.results.map GraphNode.place

/-- What was found by a traversal with this queue is a breadth-first search's. -/
structure Follows (store : GraphStore) (q : GraphQuery) (roots : List String)
    (done : List (Bfs.Node String)) (s : Traversal) (queue : List (Bfs.Node String)) : Prop where
  tracks : Bfs.Tracks roots (Steps store q) q.limit done (s.found roots) queue
  visited : s.visited = roots ++ s.results.map GraphNode.id
  capped : ∀ n ∈ q.cap, s.results.length ≤ n

theorem Follows.names (h : Follows store q roots done s queue) :
    (s.found roots).map Prod.fst = s.visited := by
  rw [h.visited, Traversal.found, List.map_append, List.map_map, List.map_map]
  exact congrArg (· ++ _) (List.map_id roots)

theorem full_mono {s' : Traversal} (hle : s.results.length ≤ s'.results.length)
    (h : s.full q = true) : s'.full q = true := by
  rw [Traversal.full] at h ⊢
  cases hcap : q.cap with
  | none => rw [hcap] at h; cases h
  | some n =>
      rw [hcap, Option.any_some, decide_eq_true_eq] at h
      rw [Option.any_some, decide_eq_true_eq]
      exact h.trans hle

theorem follows_takeRow {head : Bfs.Node String} (hlt : head.2 < q.limit)
    (h : Follows store q roots done s (head :: s.queue)) {row : EdgeRow}
    (hrow : row ∈ adjacency store.edges (edgeScan store q head.1)) :
    Follows store q roots done (takeRow store q head.2 s row)
      (head :: (takeRow store q head.2 s row).queue) ∧
    (s.full q = true ∨ (validTarget store q row.targetId = true →
      row.targetId ∈ (takeRow store q head.2 s row).visited)) := by
  rw [takeRow]
  by_cases hfull : s.full q = true
  · rw [if_pos hfull]
    exact ⟨h, .inl hfull⟩
  rw [if_neg hfull]
  by_cases hvalid : validTarget store q row.targetId = true
  · rw [if_neg (by simp [hvalid])]
    by_cases hseen : row.targetId ∈ s.visited
    · rw [if_pos hseen]
      exact ⟨h, .inr fun _ => hseen⟩
    rw [if_neg hseen]
    obtain ⟨hedge, hadmits⟩ := mem_adjacency.mp hrow
    refine ⟨⟨?_, ?_, fun n hn => ?_⟩,
      .inr fun _ => List.mem_append_right _ (List.mem_singleton_self _)⟩
    · have hdiscover := h.tracks.discover hlt ⟨row, hedge, hadmits, rfl, hvalid⟩
        (h.names ▸ hseen)
      rw [Traversal.found, List.append_assoc] at hdiscover
      rw [Traversal.found, List.map_append]
      exact hdiscover
    · rw [h.visited, List.map_append, List.append_assoc]
      rfl
    · rw [List.length_append, List.length_singleton]
      rw [Traversal.full, Option.mem_def.mp hn, Option.any_some, decide_eq_true_eq] at hfull
      omega
  · rw [if_pos (by simp [hvalid])]
    exact ⟨h, .inr fun hvalid' => absurd hvalid' hvalid⟩

theorem takeRow_grows (depth : Nat) (s : Traversal) (row : EdgeRow) :
    s.results.length ≤ (takeRow store q depth s row).results.length ∧
    ∀ id ∈ s.visited, id ∈ (takeRow store q depth s row).visited := by
  rw [takeRow]
  split
  · exact ⟨le_rfl, fun _ h => h⟩
  split
  · exact ⟨le_rfl, fun _ h => h⟩
  split
  · exact ⟨le_rfl, fun _ h => h⟩
  · exact ⟨by rw [List.length_append]; exact Nat.le_add_right _ _,
      fun _ h => List.mem_append_left _ h⟩

theorem foldl_takeRow_grows (depth : Nat) (s : Traversal) (rows : List EdgeRow) :
    s.results.length ≤ (rows.foldl (takeRow store q depth) s).results.length ∧
    ∀ id ∈ s.visited, id ∈ (rows.foldl (takeRow store q depth) s).visited := by
  induction rows generalizing s with
  | nil => exact ⟨le_rfl, fun _ h => h⟩
  | cons row rows ih =>
      have hstep : s.results.length ≤ (takeRow store q depth s row).results.length ∧ _ :=
        takeRow_grows depth s row
      exact ⟨hstep.1.trans (ih _).1, fun id h => (ih _).2 id (hstep.2 id h)⟩

theorem follows_foldl {head : Bfs.Node String} (hlt : head.2 < q.limit) (rows : List EdgeRow)
    (hrows : ∀ row ∈ rows, row ∈ adjacency store.edges (edgeScan store q head.1))
    (h : Follows store q roots done s (head :: s.queue)) :
    Follows store q roots done (rows.foldl (takeRow store q head.2) s)
      (head :: (rows.foldl (takeRow store q head.2) s).queue) ∧
    ((rows.foldl (takeRow store q head.2) s).full q = true ∨
      ∀ row ∈ rows, validTarget store q row.targetId = true →
        row.targetId ∈ (rows.foldl (takeRow store q head.2) s).visited) := by
  induction rows generalizing s with
  | nil => exact ⟨h, .inr nofun⟩
  | cons row rows ih =>
      obtain ⟨h₁, hfound⟩ := follows_takeRow hlt h (hrows row List.mem_cons_self)
      obtain ⟨h₂, hrest⟩ := ih (fun row' hrow' => hrows row' (List.mem_cons_of_mem _ hrow')) h₁
      refine ⟨h₂, ?_⟩
      rw [List.foldl_cons]
      have hgrows : _ ≤ (rows.foldl (takeRow store q head.2) _).results.length ∧ _ :=
        foldl_takeRow_grows head.2 (takeRow store q head.2 s row) rows
      obtain ⟨hle, hmono⟩ := hgrows
      rcases hfound with hfull | hmem
      · exact .inl (full_mono ((takeRow_grows head.2 s row).1.trans hle) hfull)
      · refine hrest.imp_right fun hall row' hrow' hvalid => ?_
        rcases List.mem_cons.mp hrow' with rfl | hrow'
        · exact hmono _ (hmem hvalid)
        · exact hall row' hrow' hvalid

/-- What holds whenever the walk looks at its queue. -/
structure Walks (store : GraphStore) (q : GraphQuery) (roots : List String)
    (done : List (Bfs.Node String)) (s : Traversal) : Prop where
  follows : Follows store q roots done s s.queue
  once : s.examined.Nodup
  sources : ∀ row ∈ s.examined, row.sourceId ∈ done.map Prod.fst
  scanned : ∀ node ∈ done, node.2 < q.limit →
    ∀ row ∈ adjacency store.edges (edgeScan store q node.1), row ∈ s.examined

/-- A budget is reached. -/
def Traversal.exhausted (q : GraphQuery) (s : Traversal) : Prop :=
  s.full q = true ∨ q.edgeScanBudget ≤ s.examined.length

/-- How the walk ends. -/
def Ended (store : GraphStore) (q : GraphQuery) (roots : List String) (s : Traversal) : Prop :=
  ∃ done queue, Follows store q roots done s queue ∧ s.examined.Nodup ∧
    (s.exhausted q ∨ queue = [] ∧ ∀ node ∈ done, node.2 < q.limit →
      ∀ row ∈ adjacency store.edges (edgeScan store q node.1), row ∈ s.examined)

theorem traverse_of_exhausted {fuel : Nat} (h : s.exhausted q) : traverse store q fuel s = s := by
  cases fuel with
  | zero => rfl
  | succ fuel =>
      rw [traverse]
      split
      · rfl
      · exact if_pos h

theorem Follows.length_le (h : Follows store q roots done s queue) :
    done.length + queue.length ≤ roots.length + store.edges.length := by
  have hnodes : ∀ v ∈ (s.found roots).map Prod.fst,
      v ∈ roots ++ store.edges.map EdgeRow.targetId := by
    intro v hv
    obtain ⟨⟨v, k⟩, hk, rfl⟩ := List.mem_map.mp hv
    obtain ⟨-, hwalk, -⟩ := h.tracks.distance hk
    cases hwalk with
    | root hr => exact List.mem_append_left _ hr
    | step _ hstep =>
        obtain ⟨e, he, -, rfl, -⟩ := hstep
        exact List.mem_append_right _ (List.mem_map_of_mem he)
  have hle := h.tracks.length_le hnodes
  rwa [← h.tracks.found_eq, List.length_append, List.length_append, List.length_map] at hle

/-- The rows of a node that is being scanned were not handed out before. -/
theorem once_append {head : Bfs.Node String} (h : Walks store q roots done s)
    (htracks : Bfs.Tracks roots (Steps store q) q.limit done (s.found roots) (head :: queue))
    (m : Nat) :
    (s.examined ++ (adjacency store.edges (edgeScan store q head.1)).take m).Nodup := by
  have hadj : (adjacency store.edges (edgeScan store q head.1)).Nodup :=
    nodup_of_strict (strict_adjacency store.rowids_nodup)
  refine List.nodup_append.mpr ⟨h.once, hadj.sublist (List.take_sublist m _),
    fun a ha b hb heq => ?_⟩
  obtain ⟨-, hadmits⟩ := mem_adjacency.mp (List.mem_of_mem_take hb)
  rw [EdgeScan.admits, Bool.and_eq_true, Bool.and_eq_true, beq_iff_eq] at hadmits
  have hdone := h.sources a ha
  rw [heq, hadmits.1.1] at hdone
  have hnodup := htracks.nodup
  rw [← htracks.found_eq, List.map_append] at hnodup
  exact (List.nodup_append.mp hnodup).2.2 _ hdone _ List.mem_cons_self rfl

/-- The head of the queue is scanned: either a budget is reached, or it is done with. -/
theorem walks_scanNode {head : Bfs.Node String} {rest : List (Bfs.Node String)}
    (h : Walks store q roots done s) (hqueue : s.queue = head :: rest) (hlt : head.2 < q.limit) :
    Ended store q roots (scanNode store q head.1 head.2 { s with queue := rest }) ∧
      (scanNode store q head.1 head.2 { s with queue := rest }).exhausted q ∨
    Walks store q roots (done ++ [head])
      (scanNode store q head.1 head.2 { s with queue := rest }) := by
  have hfollows : Follows store q roots done { s with queue := rest } (head :: rest) := by
    have hqueue' := h.follows
    rw [hqueue] at hqueue'
    exact ⟨hqueue'.tracks, hqueue'.visited, hqueue'.capped⟩
  obtain ⟨m, heq, hend⟩ : ∃ m, scanNode store q head.1 head.2 { s with queue := rest } = _ ∧ _ :=
    scanNode_spec head.1 head.2 { s with queue := rest }
  obtain ⟨hscan, hfound⟩ := follows_foldl hlt
    ((adjacency store.edges (edgeScan store q head.1)).take m)
    (fun row hrow => List.mem_of_mem_take hrow) hfollows
  have honce := once_append h hfollows.tracks m
  rw [examine_eq] at heq
  rw [heq] at hend ⊢
  by_cases hstop : Traversal.exhausted q { ((adjacency store.edges (edgeScan store q head.1)).take
      m).foldl (takeRow store q head.2) { s with queue := rest } with
      examined := s.examined ++ (adjacency store.edges (edgeScan store q head.1)).take m }
  · exact .inl ⟨⟨done, _, ⟨hscan.tracks, hscan.visited, hscan.capped⟩, honce, .inl hstop⟩, hstop⟩
  · have hall : (adjacency store.edges (edgeScan store q head.1)).take m =
        adjacency store.edges (edgeScan store q head.1) :=
      List.take_of_length_le (hend.resolve_right hstop)
    rw [hall] at hstop honce hscan hfound ⊢
    have htargets := hfound.resolve_left fun hfull => hstop (.inl hfull)
    refine .inr ⟨⟨hscan.tracks.retire fun _ v hv => ?_, hscan.visited, hscan.capped⟩, honce,
      fun row hrow => ?_, fun node hnode hnode_lt row hrow => ?_⟩
    · obtain ⟨e, he, hadmits, rfl, hvalid⟩ := hv
      rw [hscan.names]
      exact htargets e (mem_adjacency.mpr ⟨he, hadmits⟩) hvalid
    · rw [List.map_append]
      rcases List.mem_append.mp hrow with hold | hnew
      · exact List.mem_append_left _ (h.sources row hold)
      · obtain ⟨-, hadmits⟩ := mem_adjacency.mp hnew
        rw [EdgeScan.admits, Bool.and_eq_true, Bool.and_eq_true, beq_iff_eq] at hadmits
        exact List.mem_append_right _ (List.mem_singleton.mpr hadmits.1.1)
    · rcases List.mem_append.mp hnode with hold | hnew
      · exact List.mem_append_left _ (h.scanned node hold hnode_lt row hrow)
      · obtain rfl := List.mem_singleton.mp hnew
        exact List.mem_append_right _ hrow

/-- A node at the depth limit is done with at once. -/
theorem walks_skip {head : Bfs.Node String} {rest : List (Bfs.Node String)}
    (h : Walks store q roots done s) (hqueue : s.queue = head :: rest)
    (hdeep : ¬ head.2 < q.limit) :
    Walks store q roots (done ++ [head]) { s with queue := rest } := by
  have hfollows := h.follows
  rw [hqueue] at hfollows
  refine ⟨⟨hfollows.tracks.retire fun hlt => absurd hlt hdeep, hfollows.visited,
    hfollows.capped⟩, h.once, fun row hrow => ?_, fun node hnode hlt => ?_⟩
  · rw [List.map_append]
    exact List.mem_append_left _ (h.sources row hrow)
  · rcases List.mem_append.mp hnode with hold | hnew
    · exact h.scanned node hold hlt
    · exact absurd (List.mem_singleton.mp hnew ▸ hlt) hdeep

theorem traverse_ends {fuel : Nat} (h : Walks store q roots done s)
    (hfuel : roots.length + store.edges.length ≤ fuel + done.length) :
    Ended store q roots (traverse store q fuel s) := by
  induction fuel generalizing s done with
  | zero =>
      have hle := h.follows.length_le
      refine ⟨done, s.queue, h.follows, h.once, .inr ⟨?_, h.scanned⟩⟩
      exact List.length_eq_zero_iff.mp (by omega)
  | succ fuel ih =>
      rw [traverse]
      split
      · rename_i hnil
        exact ⟨done, s.queue, h.follows, h.once, .inr ⟨hnil, h.scanned⟩⟩
      rename_i nodeId depth rest hcons
      have hdone : (done ++ [(nodeId, depth)]).length = done.length + 1 := List.length_append
      split
      · rename_i hexhausted
        exact ⟨done, s.queue, h.follows, h.once, .inl hexhausted⟩
      split
      · rename_i hdeep
        have hlimit : ¬ depth < q.limit := by
          rw [GraphQuery.limit]
          omega
        exact ih (walks_skip h hcons hlimit) (by omega)
      · rename_i hshallow
        have hlimit : depth < q.limit := by
          rw [GraphQuery.limit]
          omega
        obtain ⟨hended, hstop⟩ | hwalks := walks_scanNode h hcons hlimit
        · rw [traverse_of_exhausted hstop]
          exact hended
        · exact ih hwalks (by omega)

end TrwMemory.Graph

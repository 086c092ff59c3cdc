import TrwMemory.Graph.TraversalRuns

/-!
What a query answers (`graph_query`): the nodes of a breadth-first search along the materialised
edges, each at its distance from the root, and behind them, where their type is named, derived
neighbours of the root.
-/
namespace TrwMemory.Graph

open Library Library.Keyed Library.Keyset Storage Retrieval

variable {store : GraphStore} {q : GraphQuery} {roots : List String}

/-- The walk's roots: those of the query that are rows of its namespace. -/
def queryRoots (store : GraphStore) (q : GraphQuery) : List String :=
  allowedRoots store q (q.rootIds.take MAX_TRAVERSAL_ROOTS)

/-- The length of a shortest walk from the roots within the namespace. -/
def Distance (store : GraphStore) (q : GraphQuery) (k : Nat) (v : String) : Prop :=
  Bfs.Walk (queryRoots store q) (Steps store q) k v ∧
    ∀ n, Bfs.Walk (queryRoots store q) (Steps store q) n v → k ≤ n

/-- What is found along the materialised edges, and which edges were read for it. -/
structure Searched (store : GraphStore) (q : GraphQuery) (root : String)
    (walked : List GraphNode) (examined : List EdgeRow) : Prop where
  nodup : (walked.map GraphNode.id).Nodup
  root_notMem : root ∉ walked.map GraphNode.id
  shortest : ∀ node ∈ walked, (node.depth : Int) ≤ q.clampedDepth ∧
    Distance store q node.depth node.id
  once : examined.Nodup
  complete : (∀ n ∈ q.maxNodes, (walked.length : Int) < n) →
    examined.length < q.edgeScanBudget → ∀ k v, Distance store q k v → k ≤ q.clampedDepth →
      v = root ∨ v ∈ walked.map GraphNode.id
  adjacent : (∀ n ∈ q.maxNodes, (walked.length : Int) < n) →
    examined.length < q.edgeScanBudget → ∀ k u, Distance store q k u → k < q.clampedDepth →
      ∀ row ∈ adjacency store.edges (edgeScan store q u), row ∈ examined

/-- Derived neighbours are at depth 1, each once, and never the root. -/
structure Derived (root : String) (derived : List GraphNode) : Prop where
  nodup : (derived.map GraphNode.id).Nodup
  root_notMem : root ∉ derived.map GraphNode.id
  depth : ∀ node ∈ derived, node.depth = 1 ∧ node.edgeType = DERIVED_EDGE_TYPE

theorem not_walk_of_nil {roots : List String} {next : String → String → Prop} {k : Nat}
    {v : String} (h : roots = []) : ¬ Bfs.Walk roots next k v := by
  intro hwalk
  induction hwalk with
  | root hr => exact absurd (h ▸ hr) List.not_mem_nil
  | step _ _ ih => exact ih

theorem walk_ended (h : roots.Nodup) : Ended store q roots (walk store q roots) := by
  have hwalks : Walks store q roots [] ⟨roots, [], roots.map fun r => (r, 0), []⟩ := by
    refine ⟨⟨?_, (List.append_nil roots).symm, fun _ _ => Nat.zero_le _⟩, List.nodup_nil,
      nofun, nofun⟩
    rw [Traversal.found, List.map_nil, List.append_nil]
    exact Bfs.tracks_start _ _ h
  exact traverse_ends hwalks (Nat.le_add_right _ _)

theorem clampedDepth_of_lt_limit {k : Nat} (h : k < q.limit) :
    (q.limit : Int) = q.clampedDepth := by
  rw [GraphQuery.limit] at h ⊢
  omega

theorem cap_eq_of_mem {n : Int} (hmax : ∀ n ∈ q.maxNodes, 1 ≤ n) (h : n ∈ q.maxNodes) :
    ∃ m : Nat, (m : Int) = n ∧ q.cap = some m := by
  refine ⟨n.toNat, ?_, by rw [GraphQuery.cap, h]; rfl⟩
  have hone := hmax n h
  omega

/-- A walk from a row of the namespace, or from none. -/
theorem searched_walk {root : String}
    (hroots : queryRoots store q = [root] ∨ queryRoots store q = []) :
    Searched store q root (walk store q (queryRoots store q)).results
      (walk store q (queryRoots store q)).examined := by
  have hnodup : (queryRoots store q).Nodup := by
    rcases hroots with h | h <;> rw [h]
    · exact List.nodup_singleton _
    · exact List.nodup_nil
  obtain ⟨done, queue, hfollows, honce, hend⟩ : Ended store q _ _ := walk_ended hnodup
  generalize walk store q (queryRoots store q) = t at hfollows honce hend ⊢
  have hnames := hfollows.tracks.nodup
  rw [hfollows.names, hfollows.visited] at hnames
  obtain ⟨-, hids, hdisjoint⟩ := List.nodup_append.mp hnames
  have hplace : ∀ node ∈ t.results, (node.id, node.depth) ∈ t.found (queryRoots store q) :=
    fun node hnode => List.mem_append_right _ (List.mem_map_of_mem hnode)
  have hpositive : ∀ node ∈ t.results, 0 < node.depth := by
    intro node hnode
    obtain ⟨-, hwalk, -⟩ := hfollows.tracks.distance (hplace node hnode)
    cases hdepth : node.depth with
    | succ k => exact Nat.succ_pos k
    | zero =>
        rw [hdepth] at hwalk
        cases hwalk with
        | root hr => exact absurd rfl (hdisjoint _ hr _ (List.mem_map_of_mem hnode))
  have hnot_exhausted : (∀ n ∈ q.maxNodes, (t.results.length : Int) < n) →
      t.examined.length < q.edgeScanBudget → ¬ t.exhausted q := by
    rintro hcap hbudget (hfull | hspent)
    · rw [Traversal.full, GraphQuery.cap] at hfull
      cases hn : q.maxNodes with
      | none => rw [hn] at hfull; cases hfull
      | some n =>
          have hlt := hcap n hn
          rw [hn, Option.map_some, Option.any_some, decide_eq_true_eq] at hfull
          omega
    · omega
  refine ⟨hids, fun hroot => ?_, fun node hnode => ?_, honce, fun hcap hbudget k v hv hk => ?_,
    fun hcap hbudget k u hu hk row hrow => ?_⟩
  · obtain ⟨node, hnode, rfl⟩ := List.mem_map.mp hroot
    rcases hroots with h | h
    · refine hdisjoint node.id ?_ node.id hroot rfl
      rw [h]
      exact List.mem_singleton_self _
    · obtain ⟨-, hwalk, -⟩ := hfollows.tracks.distance (hplace node hnode)
      exact absurd hwalk (not_walk_of_nil h)
  · obtain ⟨hle, hwalk, hmin⟩ := hfollows.tracks.distance (hplace node hnode)
    have hpos := hpositive node hnode
    have hlimit := clampedDepth_of_lt_limit (q := q) (k := 0) (by omega)
    exact ⟨by omega, hwalk, hmin⟩
  · obtain ⟨hqueue, -⟩ := hend.resolve_left (hnot_exhausted hcap hbudget)
    rw [hqueue] at hfollows
    have hlimit : k ≤ q.limit := by
      rw [GraphQuery.limit]
      omega
    have hmem := hfollows.tracks.complete hv.1 hlimit
    rw [hfollows.names, hfollows.visited, List.mem_append] at hmem
    refine hmem.imp_left fun hroot => ?_
    rcases hroots with h | h
    · exact List.mem_singleton.mp (h ▸ hroot)
    · rw [h] at hroot
      cases hroot
  · obtain ⟨hqueue, hscanned⟩ := hend.resolve_left (hnot_exhausted hcap hbudget)
    rw [hqueue] at hfollows
    have hlimit : k < q.limit := by
      rw [GraphQuery.limit]
      omega
    have hmem := hfollows.tracks.complete hu.1 hlimit.le
    obtain ⟨⟨v, j⟩, hfound, rfl⟩ := List.mem_map.mp hmem
    obtain ⟨-, hwalk, hmin⟩ := hfollows.tracks.distance hfound
    have hdone : (v, j) ∈ done := by
      have heq := hfollows.tracks.found_eq
      rw [List.append_nil] at heq
      exact heq ▸ hfound
    exact hscanned (v, j) hdone ((hmin k hu.1).trans_lt hlimit) row hrow

/-- The nodes so far are at depth 1, and with the root they are what was seen. -/
structure Seen (root : String) (seen : List GraphNode × List String) : Prop where
  ids : seen.2 = root :: seen.1.map GraphNode.id
  nodup : seen.2.Nodup
  depth : ∀ node ∈ seen.1, node.depth = 1 ∧ node.edgeType = DERIVED_EDGE_TYPE

theorem seen_deriveNodes {root rootId ns : String} {seen : List GraphNode × List String}
    (h : Seen root seen) : Seen root (deriveNodes store q ns seen rootId) := by
  rw [deriveNodes]
  generalize deriveTagNeighbours (store.memoryTags.getD []) q.config ns rootId = neighbours
  induction neighbours generalizing seen with
  | nil => exact h
  | cons neighbour neighbours ih =>
      rw [List.foldl_cons]
      split
      · exact ih h
      · rename_i hnew
        refine ih ⟨?_, ?_, fun node hnode => ?_⟩
        · rw [h.ids, List.map_append]
          rfl
        · refine List.nodup_append.mpr ⟨h.nodup, List.nodup_singleton _, fun a ha b hb heq => ?_⟩
          exact hnew (List.mem_singleton.mp hb ▸ heq ▸ ha)
        · rcases List.mem_append.mp hnode with hold | hlast
          · exact h.depth node hold
          · rw [List.mem_singleton.mp hlast]
            exact ⟨rfl, rfl⟩

theorem derived_of_sublist {root : String} {derived derived' : List GraphNode}
    (h : Derived root derived) (hsub : derived'.Sublist derived) : Derived root derived' :=
  ⟨h.nodup.sublist (hsub.map _), fun hmem => h.root_notMem ((hsub.map _).subset hmem),
    fun node hnode => h.depth node (hsub.subset hnode)⟩

theorem derived_deriveTagEdges (store : GraphStore) (q : GraphQuery) (root : String) :
    Derived root (deriveTagEdges store q [root]) := by
  rw [deriveTagEdges]
  cases q.ns with
  | none => exact ⟨List.nodup_nil, List.not_mem_nil, nofun⟩
  | some ns =>
      have hstart : Seen root ([], [root]) := ⟨rfl, List.nodup_singleton _, nofun⟩
      have hseen : Seen root (deriveNodes store q ns ([], [root]) root) := seen_deriveNodes hstart
      have hnodup := hseen.nodup
      rw [hseen.ids, List.nodup_cons] at hnodup
      exact derived_of_sublist ⟨hnodup.2, hnodup.1, hseen.depth⟩ List.filter_sublist

theorem cut_eq (walked derived : List GraphNode) (hwalked : ∀ n ∈ q.cap, walked.length ≤ n) :
    ∃ derived', derived'.Sublist derived ∧ cut q (walked ++ derived) = walked ++ derived' ∧
      ∀ n ∈ q.cap, (walked ++ derived').length ≤ n := by
  rw [cut]
  cases hcap : q.cap with
  | none => exact ⟨derived, List.Sublist.refl _, rfl, nofun⟩
  | some n =>
      have hle := hwalked n hcap
      refine ⟨derived.take (n - walked.length), List.take_sublist _ _, ?_, fun m hm => ?_⟩
      · dsimp only
        rw [List.take_append, List.take_of_length_le hle]
      · obtain rfl := Option.mem_some_iff.mp hm
        rw [List.length_append, List.length_take]
        omega

/-- The roots of a query for one root. -/
theorem queryRoots_singleton (store : GraphStore) {root : String} (hroot : q.rootIds = [root]) :
    queryRoots store q = allowedRoots store q [root] ∧
      (queryRoots store q = [root] ∨ queryRoots store q = []) := by
  have heq : queryRoots store q = allowedRoots store q [root] := by rw [queryRoots, hroot]; rfl
  refine ⟨heq, ?_⟩
  rw [heq, allowedRoots, List.filter_cons, List.filter_nil]
  split
  · exact .inl rfl
  · exact .inr rfl

/-- A query for one root answers what a breadth-first search along the materialised edges finds,
and behind it derived neighbours, of which there are none unless their type is named. -/
theorem graphQuery_searches (store : GraphStore) (q : GraphQuery) (root : String)
    (hroot : q.rootIds = [root]) (hmax : ∀ n ∈ q.maxNodes, 1 ≤ n) :
    ∃ walked derived, graphQuery store q = .ok (walked ++ derived) ∧
      (∀ n ∈ q.maxNodes, ((walked ++ derived).length : Int) ≤ n) ∧
      (q.derives = true ∧ q.walkedTypes = [] ∨
        Searched store q root walked (walk store q (queryRoots store q)).examined) ∧
      Derived root derived ∧ (q.derives = false → derived = []) := by
  have hcap : ∀ n ∈ q.maxNodes, ∃ m : Nat, (m : Int) = n ∧ q.cap = some m := fun n hn =>
    cap_eq_of_mem hmax hn
  have hcut : ∀ {nodes : List GraphNode}, (∀ n ∈ q.cap, nodes.length ≤ n) →
      ∀ n ∈ q.maxNodes, (nodes.length : Int) ≤ n := by
    intro nodes hnodes n hn
    obtain ⟨m, rfl, hm⟩ := hcap n hn
    exact_mod_cast hnodes m hm
  have hderived : Derived root (if q.derives then deriveTagEdges store q [root] else []) := by
    split
    · exact derived_deriveTagEdges store q root
    · exact ⟨List.nodup_nil, List.not_mem_nil, nofun⟩
  have hnone : ∀ {nodes : List GraphNode},
      nodes.Sublist (if q.derives then deriveTagEdges store q [root] else []) →
      q.derives = false → nodes = [] := by
    intro nodes hsub hderives
    rw [hderives, if_neg Bool.false_ne_true] at hsub
    exact List.sublist_nil.mp hsub
  obtain ⟨hroots, hcases⟩ := queryRoots_singleton store hroot
  have hsearched := searched_walk hcases
  have hwalked : ∀ n ∈ q.cap, (walk store q (queryRoots store q)).results.length ≤ n := by
    obtain ⟨_, _, hfollows, -⟩ : Ended store q _ (walk store q (queryRoots store q)) :=
      walk_ended (by rcases hcases with h | h <;> rw [h] <;> simp)
    exact hfollows.capped
  have hmin : ¬ (q.maxNodes.any fun n => decide (n < 1)) = true := by
    rw [Option.any_eq_true]
    rintro ⟨n, hn, hlt⟩
    have hone := hmax n hn
    have hlt' := of_decide_eq_true hlt
    omega
  rw [graphQuery, if_neg (by rw [hroot]; simp), if_neg hmin]
  dsimp only
  rw [hroot, show [root].take MAX_TRAVERSAL_ROOTS = [root] from rfl, ← hroots]
  split
  · rename_i honly
    obtain ⟨derived, hsub, heq, hlength⟩ := cut_eq (q := q) []
      (if q.derives then deriveTagEdges store q [root] else []) fun _ _ => Nat.zero_le _
    exact ⟨[], derived, congrArg _ heq, hcut hlength, .inl honly,
      derived_of_sublist hderived hsub, hnone hsub⟩
  split
  · rename_i hempty
    have hresults : (walk store q (queryRoots store q)).results = [] := by
      rw [hempty, walk]
      cases [].length + store.edges.length <;> rfl
    rw [hresults] at hsearched
    exact ⟨[], [], rfl, hcut fun _ _ => Nat.zero_le _, .inr hsearched,
      ⟨List.nodup_nil, List.not_mem_nil, nofun⟩, fun _ => rfl⟩
  · obtain ⟨derived, hsub, heq, hlength⟩ :=
      cut_eq _ (if q.derives then deriveTagEdges store q [root] else []) hwalked
    exact ⟨_, derived, congrArg _ heq, hcut hlength, .inr hsearched,
      derived_of_sublist hderived hsub, hnone hsub⟩

def graphRow (id : String) (hid : id ≠ "") : RowKey × MemoryEntry :=
  (⟨"a", id⟩, MemoryEntry.ofDefaults id "text" "a" ⟨0, some 0⟩ hid)

/-- `r` shares two tags with `x`, from which an edge leads to `y`. -/
def tagged : GraphStore where
  memories :=
    ⟨[graphRow "r" r_ne_empty, graphRow "x" x_ne_empty, graphRow "y" (by decide)], by decide⟩
  edges := [⟨1, "a", "x", "y", "similarity", 1, by decide⟩]
  memoryTags := some [⟨"a", "s", "r"⟩, ⟨"a", "t", "r"⟩, ⟨"a", "s", "x"⟩, ⟨"a", "t", "x"⟩]
  hasEdgeNamespace := true
  rowids_nodup := by decide

def taggedQuery : GraphQuery where
  rootIds := ["r"]
  depth := 2
  edgeTypes := some [DERIVED_EDGE_TYPE, "similarity"]
  ns := some "a"
  maxNodes := some 10
  config := ⟨2, 500, 25⟩
  activeOnly := false

/-- Two edges lead from `r` to `x`, and the walk comes back to `r` over `y`. -/
def ringed : GraphStore where
  memories :=
    ⟨[graphRow "r" r_ne_empty, graphRow "x" x_ne_empty, graphRow "y" (by decide)], by decide⟩
  edges := [⟨1, "a", "r", "x", "similarity", 1, by decide⟩,
    ⟨2, "a", "r", "x", "similarity", 1 / 2, by decide⟩,
    ⟨3, "a", "x", "y", "similarity", 1, by decide⟩, ⟨4, "a", "y", "r", "similarity", 1, by decide⟩]
  memoryTags := none
  hasEdgeNamespace := true
  rowids_nodup := by decide

theorem graphQuery_searches_ringed :
    (graphQuery ringed taggedQuery).toOption.map List.length = some 2 ∧
      ∃ walked derived, graphQuery ringed taggedQuery = .ok (walked ++ derived) ∧
        Searched ringed taggedQuery "r" walked
          (walk ringed taggedQuery (queryRoots ringed taggedQuery)).examined ∧
        Derived "r" derived := by
  obtain ⟨walked, derived, heq, -, hsearched, hderived, -⟩ :=
    graphQuery_searches ringed taggedQuery "r" rfl (by decide)
  exact ⟨by decide +kernel, walked, derived, heq, hsearched.resolve_left (by decide), hderived⟩

/-- An edge that the filter allows: a materialised one, or a derived one. -/
def AllowedSteps (store : GraphStore) (q : GraphQuery) (u v : String) : Prop :=
  Steps store q u v ∨ ∃ ns ∈ q.ns, ∃ neighbour ∈
    deriveTagNeighbours (store.memoryTags.getD []) q.config ns u, neighbour.entryId = v

/-- Two allowed edges lead to `y`, but it is not found. -/
theorem graphQuery_misses :
    Bfs.Walk ["r"] (AllowedSteps tagged taggedQuery) 2 "y" ∧
    graphQuery tagged taggedQuery = .ok [⟨"x", 1, DERIVED_EDGE_TYPE, 1⟩] := by
  have hderived : deriveTagNeighbours [⟨"a", "s", "r"⟩, ⟨"a", "t", "r"⟩, ⟨"a", "s", "x"⟩,
      ⟨"a", "t", "x"⟩] ⟨2, 500, 25⟩ "a" "r" = [⟨"x", 2, 1⟩] := by decide +kernel
  have hfirst : AllowedSteps tagged taggedQuery "r" "x" :=
    .inr ⟨"a", rfl, ⟨"x", 2, 1⟩, hderived ▸ List.mem_singleton_self _, rfl⟩
  have hsecond : AllowedSteps tagged taggedQuery "x" "y" :=
    .inl ⟨_, List.mem_singleton_self _, by decide +kernel, rfl, by decide +kernel⟩
  exact ⟨.step (.step (.root (List.mem_singleton_self _)) hfirst) hsecond, by decide +kernel⟩

end TrwMemory.Graph

import TrwMemory.Graph.Traversal
import TrwMemory.Library.Bfs
import TrwMemory.Models.Timestamps
import TrwMemory.Storage.Database

/-!
Impact propagation (`propagate_impact`, `_graph_clusters.py`). A breadth-first search along the
edges of any namespace adds a dampened delta to every row whose id it reaches.

SQLite hands out the edges of a node in an order of its own, which a call names. Numbers are
exact. A statement that raises rolls everything back; where it does is left out.
-/
namespace TrwMemory.Graph

open Library Library.Keyed Storage

def PROPAGATION_RATES : List (String × Rat) :=
  [("evidence_for", 3 / 10), ("co_anchored", 1 / 5), ("same_root_cause", 3 / 20),
    ("related_to", 1 / 10), ("depends_on", 1 / 10)]

def NEGATIVE_MULTIPLIER : Rat := 1 / 2

def propagationTypes : List String := PROPAGATION_RATES.map Prod.fst

def propagationRate (edgeType : String) : Rat := (PROPAGATION_RATES.lookup edgeType).getD 0

structure ImpactCall where
  entryId : String
  importanceDelta : Rat
  maxDepth : Int
  maxAffected : Int
  now : Datetime
  /-- The order in which rows are handed out. -/
  order : List EdgeRow → List EdgeRow
  order_perm : ∀ rows, (order rows).Perm rows
  /-- Some statement raises. -/
  struck : Bool

/-- `f"{x:+.4f}"`. -/
def signed4 (x : Rat) : String := (if x < 0 then "-" else "+") ++ text4 (if x < 0 then -x else x)

/-- `round(x, 6)`. -/
def round6 (x : Rat) : Rat := roundHalfEven (x * 1000000) / 1000000

def impactOutcome (call : ImpactCall) (propagated : Rat) (edgeType : String) : String :=
  "impact_propagation:delta=" ++ signed4 propagated ++ ":from=" ++ call.entryId ++ ":via=" ++
    edgeType ++ ":timestamp=" ++ call.now.isoformat

/-- What the update makes of a row. -/
def impacted (delta : Rat) (outcome : String) (e : MemoryEntry) : MemoryEntry :=
  { e with
    importance := min (max (e.importance + delta) 0) 1
    outcomeHistory := e.outcomeHistory ++ [outcome] }

/-- `UPDATE memories SET ... WHERE id = ?`. -/
def updateImpact (memories : Table RowKey MemoryEntry) (id : String) (delta : Rat)
    (outcome : String) : Table RowKey MemoryEntry :=
  memories.alter fun k e => if k.id = id then impacted delta outcome e else e

/-- The variables of the loop. -/
structure Spread where
  memories : Table RowKey MemoryEntry
  affected : List (String × Rat)
  visited : List String
  queue : List (String × Nat × Rat)

def propagated (call : ImpactCall) (delta : Rat) (edgeType : String) : Rat :=
  delta * propagationRate edgeType * if call.importanceDelta < 0 then NEGATIVE_MULTIPLIER else 1

def spreadTo (call : ImpactCall) (depth : Nat) (delta : Rat) (s : Spread) (row : EdgeRow) :
    Spread :=
  let p := propagated call delta row.edgeType
  { memories := updateImpact s.memories row.targetId p (impactOutcome call p row.edgeType)
    affected := s.affected ++ [(row.targetId, round6 p)]
    visited := s.visited ++ [row.targetId]
    queue := s.queue ++ [(row.targetId, depth + 1, p)] }

/-- The body of the loop over the rows. -/
def spreadRow (call : ImpactCall) (depth : Nat) (delta : Rat) (s : Spread) (row : EdgeRow) :
    Spread :=
  if row.targetId ∈ s.visited ∨ call.maxAffected ≤ s.affected.length then s
  else if propagationRate row.edgeType = 0 then s
  else spreadTo call depth delta s row

def propagationRows (call : ImpactCall) (edges : List EdgeRow) (nodeId : String) : List EdgeRow :=
  call.order (edges.filter fun e => e.sourceId = nodeId ∧ e.edgeType ∈ propagationTypes)

/-- The loop, for as many rounds as there may be. -/
def spread (call : ImpactCall) (edges : List EdgeRow) : Nat → Spread → Spread
  | 0, s => s
  | fuel + 1, s =>
      match s.queue with
      | [] => s
      | (nodeId, depth, delta) :: rest =>
          if call.maxAffected ≤ s.affected.length then s
          else if call.maxDepth ≤ depth then spread call edges fuel { s with queue := rest }
          else
            spread call edges fuel
              ((propagationRows call edges nodeId).foldl (spreadRow call depth delta)
                { s with queue := rest })

def spreadStart (memories : Table RowKey MemoryEntry) (call : ImpactCall) : Spread :=
  ⟨memories, [], [call.entryId], [(call.entryId, 0, call.importanceDelta)]⟩

/-- An id enters the queue once, so there are no more rounds than edges and the root. -/
def propagateImpact (memories : Table RowKey MemoryEntry) (edges : List EdgeRow)
    (call : ImpactCall) : Table RowKey MemoryEntry × Option (List (String × Rat)) :=
  let s := spread call edges (edges.length + 1) (spreadStart memories call)
  if call.struck then (memories, none) else (s.memories, some s.affected)

/-- Every row whose id was reached, the root apart, was changed once, every other one never. -/
structure Touched (memories : Table RowKey MemoryEntry) (root : String) (s : Spread) : Prop where
  visited : s.visited = root :: s.affected.map Prod.fst
  kept : ∀ k : RowKey, k.id ∉ s.affected.map Prod.fst → s.memories.find k = memories.find k
  changed : ∀ k : RowKey, k.id ∈ s.affected.map Prod.fst →
    ∃ delta outcome, s.memories.find k = (memories.find k).map (impacted delta outcome)

theorem find_updateImpact (memories : Table RowKey MemoryEntry) (id : String) (delta : Rat)
    (outcome : String) (k : RowKey) :
    (updateImpact memories id delta outcome).find k =
      if k.id = id then (memories.find k).map (impacted delta outcome) else memories.find k := by
  rw [updateImpact, Table.find_alter]
  split
  · rfl
  · exact Option.map_id_apply

variable {memories : Table RowKey MemoryEntry} {edges : List EdgeRow} {call : ImpactCall}
  {root : String} {s : Spread} {done : List (Bfs.Node String)} {depth : Nat} {delta : Rat}

theorem touched_spreadTo (h : Touched memories root s) {row : EdgeRow}
    (hnew : row.targetId ∉ s.visited) :
    Touched memories root (spreadTo call depth delta s row) := by
  have hids : (spreadTo call depth delta s row).affected.map Prod.fst =
      s.affected.map Prod.fst ++ [row.targetId] := List.map_append
  have hfresh : row.targetId ∉ s.affected.map Prod.fst := fun hmem =>
    hnew (h.visited ▸ List.mem_cons_of_mem _ hmem)
  refine ⟨?_, fun k hk => ?_, fun k hk => ?_⟩
  · rw [hids, ← List.cons_append, ← h.visited]
    rfl
  · rw [hids, List.mem_append, List.mem_singleton, not_or] at hk
    exact (find_updateImpact _ _ _ _ k).trans ((if_neg hk.2).trans (h.kept k hk.1))
  · rw [hids, List.mem_append, List.mem_singleton] at hk
    have hfind := find_updateImpact s.memories row.targetId
      (propagated call delta row.edgeType)
      (impactOutcome call (propagated call delta row.edgeType) row.edgeType) k
    by_cases hid : k.id = row.targetId
    · rw [if_pos hid, h.kept k (hid ▸ hfresh)] at hfind
      exact ⟨_, _, hfind⟩
    · rw [if_neg hid] at hfind
      obtain ⟨d, outcome, hchanged⟩ := h.changed k (hk.resolve_right hid)
      exact ⟨d, outcome, hfind.trans hchanged⟩

/-- The queue without its deltas. -/
def Spread.nodes (s : Spread) : List (Bfs.Node String) := s.queue.map fun node => (node.1, node.2.1)

/-- The search that a loop with these ids visited and this queue is in the middle of. -/
def Searches (edges : List EdgeRow) (root : String) (limit : Nat) (done : List (Bfs.Node String))
    (visited : List String) (queue : List (Bfs.Node String)) : Prop :=
  ∃ found, found.map Prod.fst = visited ∧
    Bfs.Tracks [root] (Links edges propagationTypes none) limit done found queue

theorem rate_ne_zero {edgeType : String} (h : edgeType ∈ propagationTypes) :
    propagationRate edgeType ≠ 0 := by
  simp only [propagationTypes, PROPAGATION_RATES, List.map_cons, List.map_nil, List.mem_cons,
    List.not_mem_nil, or_false] at h
  rcases h with rfl | rfl | rfl | rfl | rfl <;> decide +kernel

theorem searches_spreadRow (call : ImpactCall) (delta : Rat) {limit : Nat}
    {head : Bfs.Node String} (h : Searches edges root limit done s.visited (head :: s.nodes))
    (ht : Touched memories root s) (hlt : head.2 < limit) {row : EdgeRow}
    (hlink : Links edges propagationTypes none head.1 row.targetId)
    (htype : row.edgeType ∈ propagationTypes) :
    Touched memories root (spreadRow call head.2 delta s row) ∧
    Searches edges root limit done (spreadRow call head.2 delta s row).visited
      (head :: (spreadRow call head.2 delta s row).nodes) ∧
    (row.targetId ∈ (spreadRow call head.2 delta s row).visited ∨
      call.maxAffected ≤ s.affected.length) := by
  rw [spreadRow]
  by_cases hskip : row.targetId ∈ s.visited ∨ call.maxAffected ≤ s.affected.length
  · rw [if_pos hskip]
    exact ⟨ht, h, hskip⟩
  · rw [if_neg hskip, if_neg (rate_ne_zero htype)]
    obtain ⟨hnew, -⟩ := not_or.mp hskip
    obtain ⟨found, hfound, htracks⟩ := h
    have hnodes : (spreadTo call head.2 delta s row).nodes =
        s.nodes ++ [(row.targetId, head.2 + 1)] := List.map_append
    refine ⟨touched_spreadTo ht hnew, ⟨found ++ [(row.targetId, head.2 + 1)], ?_, ?_⟩,
      .inl (List.mem_append_right _ (List.mem_singleton_self _))⟩
    · rw [List.map_append, hfound]
      rfl
    · rw [hnodes]
      exact htracks.discover hlt hlink (hfound ▸ hnew)

variable (call depth delta)

theorem visited_spreadRow_subset (row : EdgeRow) {id : String} (h : id ∈ s.visited) :
    id ∈ (spreadRow call depth delta s row).visited := by
  rw [spreadRow]
  split
  · exact h
  · split
    · exact h
    · exact List.mem_append_left _ h

theorem affected_spreadRow_le (s : Spread) (row : EdgeRow) :
    s.affected.length ≤ (spreadRow call depth delta s row).affected.length := by
  rw [spreadRow]
  split
  · exact le_rfl
  · split
    · exact le_rfl
    · rw [spreadTo, List.length_append]
      exact Nat.le_add_right _ _

theorem visited_foldl_subset (rows : List EdgeRow) {id : String} (h : id ∈ s.visited) :
    id ∈ (rows.foldl (spreadRow call depth delta) s).visited := by
  induction rows generalizing s with
  | nil => exact h
  | cons row rows ih => exact ih (visited_spreadRow_subset call depth delta row h)

theorem affected_foldl_le (s : Spread) (rows : List EdgeRow) :
    s.affected.length ≤ (rows.foldl (spreadRow call depth delta) s).affected.length := by
  induction rows generalizing s with
  | nil => exact le_rfl
  | cons row rows ih => exact (affected_spreadRow_le call depth delta s row).trans (ih _)

variable {call depth delta}

/-- After the scan every target was found, unless the cap was reached. -/
theorem searches_foldl (call : ImpactCall) (delta : Rat) {limit : Nat} {head : Bfs.Node String}
    (hlt : head.2 < limit) {rows : List EdgeRow}
    (hrows : ∀ row ∈ rows, Links edges propagationTypes none head.1 row.targetId ∧
      row.edgeType ∈ propagationTypes)
    (h : Searches edges root limit done s.visited (head :: s.nodes))
    (ht : Touched memories root s) :
    Touched memories root (rows.foldl (spreadRow call head.2 delta) s) ∧
    Searches edges root limit done (rows.foldl (spreadRow call head.2 delta) s).visited
      (head :: (rows.foldl (spreadRow call head.2 delta) s).nodes) ∧
    ((∀ row ∈ rows, row.targetId ∈ (rows.foldl (spreadRow call head.2 delta) s).visited) ∨
      call.maxAffected ≤ (rows.foldl (spreadRow call head.2 delta) s).affected.length) := by
  induction rows generalizing s with
  | nil => exact ⟨ht, h, .inl nofun⟩
  | cons row rows ih =>
      obtain ⟨hlink, htype⟩ := hrows row List.mem_cons_self
      obtain ⟨ht₁, h₁, hfound⟩ := searches_spreadRow call delta h ht hlt hlink htype
      obtain ⟨ht₂, h₂, hrest⟩ :=
        ih (fun row' hrow' => hrows row' (List.mem_cons_of_mem _ hrow')) h₁ ht₁
      refine ⟨ht₂, h₂, ?_⟩
      rw [List.foldl_cons]
      rcases hfound with hmem | hcap
      · refine hrest.imp (fun hall row' hrow' => ?_) id
        rcases List.mem_cons.mp hrow' with rfl | hrow'
        · exact visited_foldl_subset call head.2 delta rows hmem
        · exact hall row' hrow'
      · have hle := (affected_spreadRow_le call head.2 delta s row).trans
          (affected_foldl_le call head.2 delta _ rows)
        exact .inr (hcap.trans (by exact_mod_cast hle))

theorem spread_of_cap {fuel : Nat} (h : call.maxAffected ≤ s.affected.length) :
    spread call edges fuel s = s := by
  cases fuel with
  | zero => rfl
  | succ fuel =>
      rw [spread]
      split
      · rfl
      · rw [if_pos h]

theorem mem_propagationRows {nodeId : String} {row : EdgeRow} :
    row ∈ propagationRows call edges nodeId ↔
      row ∈ edges ∧ row.sourceId = nodeId ∧ row.edgeType ∈ propagationTypes := by
  rw [propagationRows, (call.order_perm _).mem_iff, List.mem_filter, decide_eq_true_eq]

/-- Every id that is found is the root or the target of an edge. -/
theorem visited_length_le {limit : Nat} {visited : List String} {queue : List (Bfs.Node String)}
    (h : Searches edges root limit done visited queue) :
    done.length + queue.length = visited.length ∧ visited.length ≤ edges.length + 1 := by
  obtain ⟨found, rfl, htracks⟩ := h
  rw [List.length_map]
  refine ⟨by rw [← htracks.found_eq, List.length_append], ?_⟩
  have hnodes : ∀ v ∈ found.map Prod.fst, v ∈ root :: edges.map EdgeRow.targetId := by
    intro v hv
    obtain ⟨⟨v, k⟩, hk, rfl⟩ := List.mem_map.mp hv
    obtain ⟨-, hwalk, -⟩ := htracks.distance hk
    cases hwalk with
    | root hr => exact List.mem_singleton.mp hr ▸ List.mem_cons_self
    | step _ hlink =>
        obtain ⟨e, he, -, rfl, -⟩ := hlink
        exact List.mem_cons_of_mem _ (List.mem_map_of_mem he)
  have hle := htracks.length_le hnodes
  rwa [List.length_cons, List.length_map] at hle

/-- The loop ends with an empty queue or with the cap reached. -/
theorem spread_ends {limit : Nat} (hlimit : call.maxDepth.toNat = limit) {fuel : Nat}
    (h : Searches edges root limit done s.visited s.nodes) (ht : Touched memories root s)
    (hfuel : edges.length + 1 ≤ fuel + done.length) :
    Touched memories root (spread call edges fuel s) ∧
    ∃ done' queue', Searches edges root limit done' (spread call edges fuel s).visited queue' ∧
      (queue' = [] ∨ call.maxAffected ≤ (spread call edges fuel s).affected.length) := by
  induction fuel generalizing s done with
  | zero =>
      refine ⟨ht, done, _, h, .inl (List.length_eq_zero_iff.mp ?_)⟩
      obtain ⟨hlength, hle⟩ := visited_length_le h
      omega
  | succ fuel ih =>
      rw [spread]
      split
      · rename_i hnil
        exact ⟨ht, done, _, h, .inl (by rw [Spread.nodes, hnil]; rfl)⟩
      · rename_i nodeId depth delta rest hcons
        have hhead : s.nodes = (nodeId, depth) :: Spread.nodes { s with queue := rest } := by
          rw [Spread.nodes, hcons]
          rfl
        have hdone : (done ++ [(nodeId, depth)]).length = done.length + 1 := List.length_append
        have ht₀ : Touched memories root { s with queue := rest } :=
          ⟨ht.visited, ht.kept, ht.changed⟩
        split
        · rename_i hcap
          exact ⟨ht, done, _, h, .inr hcap⟩
        rw [hhead] at h
        split
        · rename_i hdepth
          have hdeep : ¬ depth < limit := by omega
          obtain ⟨found, hfound, htracks⟩ := h
          exact ih ⟨found, hfound, htracks.retire fun hlt => absurd hlt hdeep⟩ ht₀ (by omega)
        · rename_i hdepth
          have hlt : depth < limit := by omega
          have hrows : ∀ row ∈ propagationRows call edges nodeId,
              Links edges propagationTypes none nodeId row.targetId ∧
                row.edgeType ∈ propagationTypes := by
            intro row hrow
            obtain ⟨he, hsource, htype⟩ := mem_propagationRows.mp hrow
            exact ⟨⟨row, he, hsource, rfl, htype, nofun⟩, htype⟩
          obtain ⟨ht', h', hall | hcap⟩ := searches_foldl call delta hlt hrows h ht₀
          · obtain ⟨found, hfound, htracks⟩ := h'
            refine ih ⟨found, hfound, htracks.retire fun _ v hv => ?_⟩ ht' (by omega)
            obtain ⟨e, he, hsource, rfl, htype, -⟩ := hv
            exact hfound ▸ hall e (mem_propagationRows.mpr ⟨he, hsource, htype⟩)
          · rw [spread_of_cap hcap]
            exact ⟨ht', done, _, h', .inr hcap⟩

/-- An id is reached within the hop limit, in one namespace or in any. -/
def Reached (edges : List EdgeRow) (scope : Option String) (root : String) (maxDepth : Int)
    (id : String) : Prop :=
  ∃ n : Nat, n ≤ maxDepth.toNat ∧ Bfs.Walk [root] (Links edges propagationTypes scope) n id

/-- A row is left as it is, or else it is one of the namespace whose id is reached, its
importance is set within its bounds, and one record of that is made. -/
def Confined (ns : String) (reached : String → Prop) (before after : Table RowKey MemoryEntry) :
    Prop :=
  ∀ k : RowKey, after.find k = before.find k ∨
    k.ns = ns ∧ reached k.id ∧ ∃ e importance outcome, before.find k = some e ∧
      0 ≤ importance ∧ importance ≤ 1 ∧
      after.find k =
        some { e with importance, outcomeHistory := e.outcomeHistory ++ [outcome] }

/-- Every row but the root's whose id is reached, along whichever edges, is a row of the
namespace whose id is reached in it. -/
def StaysInside (memories : Table RowKey MemoryEntry) (edges : List EdgeRow) (root ns : String)
    (maxDepth : Int) : Prop :=
  ∀ k ∈ memories.keys, k.id ≠ root → Reached edges none root maxDepth k.id →
    k.ns = ns ∧ Reached edges (some ns) root maxDepth k.id

theorem touched_start (memories : Table RowKey MemoryEntry) (call : ImpactCall) :
    Touched memories call.entryId (spreadStart memories call) :=
  ⟨rfl, fun _ _ => rfl, fun _ hk => absurd hk List.not_mem_nil⟩

/-- What the whole loop leaves. -/
theorem spread_spec (memories : Table RowKey MemoryEntry) (edges : List EdgeRow)
    (call : ImpactCall) :
    Touched memories call.entryId
      (spread call edges (edges.length + 1) (spreadStart memories call)) ∧
    ∃ done queue, Searches edges call.entryId call.maxDepth.toNat done
        (spread call edges (edges.length + 1) (spreadStart memories call)).visited queue ∧
      (queue = [] ∨ call.maxAffected ≤
        (spread call edges (edges.length + 1) (spreadStart memories call)).affected.length) :=
  spread_ends rfl ⟨_, rfl, Bfs.tracks_start _ _ (List.nodup_singleton _)⟩
    (touched_start memories call) (Nat.le_add_right _ _)

theorem impacted_bounds (delta : Rat) (outcome : String) (e : MemoryEntry) :
    0 ≤ (impacted delta outcome e).importance ∧ (impacted delta outcome e).importance ≤ 1 :=
  ⟨le_min (le_max_right _ _) zero_le_one, min_le_right _ _⟩

theorem confined_of_staysInside {ns : String} (call : ImpactCall)
    (h : StaysInside memories edges call.entryId ns call.maxDepth) :
    Confined ns (Reached edges (some ns) call.entryId call.maxDepth) memories
      (propagateImpact memories edges call).1 := by
  intro k
  rw [propagateImpact]
  by_cases hstruck : call.struck = true
  · exact .inl (by rw [if_pos hstruck])
  rw [if_neg hstruck]
  obtain ⟨ht, done, queue, ⟨found, hfound, htracks⟩, -⟩ := spread_spec memories edges call
  by_cases hk : k.id ∈ (spread call edges (edges.length + 1)
      (spreadStart memories call)).affected.map Prod.fst
  · cases hrow : memories.find k with
    | none =>
        obtain ⟨delta, outcome, hfind⟩ := ht.changed k hk
        exact .inl (by rw [hfind, hrow, Option.map_none])
    | some e =>
        have hvisited := htracks.nodup
        rw [hfound, ht.visited] at hvisited
        have hroot : k.id ≠ call.entryId := fun heq =>
          (List.nodup_cons.mp hvisited).1 (heq ▸ hk)
        have hmem : k.id ∈ found.map Prod.fst := by
          rw [hfound, ht.visited]
          exact List.mem_cons_of_mem _ hk
        obtain ⟨⟨id, n⟩, hn, rfl⟩ := List.mem_map.mp hmem
        obtain ⟨hle, hwalk, -⟩ := htracks.distance hn
        have hkeys : k ∈ memories.keys := (memories.mem_keys k).mpr (by rw [hrow]; rfl)
        obtain ⟨hns, hreached⟩ := h k hkeys hroot ⟨n, hle, hwalk⟩
        obtain ⟨delta, outcome, hfind⟩ := ht.changed k hk
        obtain ⟨hlow, hhigh⟩ := impacted_bounds delta outcome e
        rw [hrow, Option.map_some] at hfind
        exact .inr ⟨hns, hreached, e, _, outcome, rfl, hlow, hhigh, hfind⟩
  · exact .inl (ht.kept k hk)

/-- A call whose cap is never reached. -/
def uncappedCall (edges : List EdgeRow) (root : String) (maxDepth : Int) : ImpactCall where
  entryId := root
  importanceDelta := 0
  maxDepth
  maxAffected := edges.length + 1
  now := ⟨0, none⟩
  order := id
  order_perm := List.Perm.refl
  struck := false

/-- Without a cap every row whose id is reached is changed. -/
theorem changed_of_reached {k : RowKey} {e : MemoryEntry} {maxDepth : Int}
    (hrow : memories.find k = some e) (hroot : k.id ≠ root)
    (hreached : Reached edges none root maxDepth k.id) :
    (propagateImpact memories edges (uncappedCall edges root maxDepth)).1.find k ≠
      memories.find k := by
  obtain ⟨ht, done, queue, hsearch, hend⟩ :=
    spread_spec memories edges (uncappedCall edges root maxDepth)
  obtain ⟨-, hlength⟩ := visited_length_le hsearch
  rw [ht.visited, List.length_cons, List.length_map] at hlength
  have hqueue : queue = [] := hend.resolve_right fun hcap => by
    change (edges.length : Int) + 1 ≤ _ at hcap
    omega
  obtain ⟨found, hfound, htracks⟩ := hsearch
  obtain ⟨n, hn, hwalk⟩ := hreached
  have hmem := (hqueue ▸ htracks).complete hwalk hn
  rw [hfound, ht.visited] at hmem
  obtain ⟨delta, outcome, hfind⟩ :=
    ht.changed k ((List.mem_cons.mp hmem).resolve_left hroot)
  change (spread _ _ _ _).memories.find k ≠ _
  rw [hfind, hrow, Option.map_some]
  intro heq
  have hlist := congrArg List.length (congrArg MemoryEntry.outcomeHistory (Option.some.inj heq))
  rw [impacted, List.length_append, List.length_singleton] at hlist
  omega

/-- Whatever its delta, cap, order and failures, a propagation from a root within a hop limit
stays inside the namespace exactly when the graph around the root does. -/
theorem propagateImpact_confined_iff (memories : Table RowKey MemoryEntry)
    (edges : List EdgeRow) (root ns : String) (maxDepth : Int) :
    (∀ call : ImpactCall, call.entryId = root → call.maxDepth = maxDepth →
      Confined ns (Reached edges (some ns) root maxDepth) memories
        (propagateImpact memories edges call).1) ↔
    StaysInside memories edges root ns maxDepth := by
  constructor
  · intro h k hk hroot hreached
    obtain ⟨e, hrow⟩ := Option.isSome_iff_exists.mp ((memories.mem_keys k).mp hk)
    obtain hkept | ⟨hns, hin, -⟩ := h (uncappedCall edges root maxDepth) rfl rfl k
    · exact absurd hkept (changed_of_reached hrow hroot hreached)
    · exact ⟨hns, hin⟩
  · rintro h call rfl rfl
    exact confined_of_staysInside call h

def twinRow (ns id : String) (hid : id ≠ "") : RowKey × MemoryEntry :=
  (⟨ns, id⟩, MemoryEntry.ofDefaults id "text" ns ⟨0, some 0⟩ hid)

/-- Two namespaces with the same two ids. -/
def twins : Table RowKey MemoryEntry where
  rows := [twinRow "a" "r" (by decide), twinRow "a" "x" (by decide),
    twinRow "b" "r" (by decide), twinRow "b" "x" (by decide)]
  nodup := by decide

def twinEdge : EdgeRow := ⟨1, "a", "r", "x", "evidence_for", 9 / 10, by decide⟩

/-- An edge of the root's namespace changes the other namespace's row. -/
theorem propagateImpact_twin :
    ¬ Confined "a" (Reached [twinEdge] (some "a") "r" 2) twins
      (propagateImpact twins [twinEdge]
        { uncappedCall [twinEdge] "r" 2 with importanceDelta := 1 / 5 }).1 := by
  intro h
  have hchanged : ((propagateImpact twins [twinEdge]
      { uncappedCall [twinEdge] "r" 2 with importanceDelta := 1 / 5 }).1.find
        ⟨"b", "x"⟩).map MemoryEntry.importance = some (14 / 25) := by decide +kernel
  have hbefore : (twins.find ⟨"b", "x"⟩).map MemoryEntry.importance = some (1 / 2) := by
    decide +kernel
  obtain hkept | ⟨hns, -⟩ := h ⟨"b", "x"⟩
  · rw [hkept, hbefore] at hchanged
    exact absurd (Option.some.inj hchanged) (by decide +kernel)
  · exact absurd hns (by decide)

end TrwMemory.Graph

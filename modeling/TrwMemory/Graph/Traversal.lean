import Mathlib.Algebra.Order.Ring.Rat
import Mathlib.Data.Prod.Lex
import Mathlib.Data.String.Basic
import TrwMemory.Library.Bfs
import TrwMemory.Library.Keyset
import TrwMemory.Retrieval.TagDerivation
import TrwMemory.Storage.Database

/-!
The rows of `memory_graph_edges` (`storage/_schema.py`), and the pages in which the traversal
reads those of one source: the rest of the type it stands in by row id, and, as far as there is
room, the later types. An edge belongs to a namespace, as its two ends do; ids are only unique
within one. Every writer checks the type.

The traversal itself (`graph_query`, `_graph_traversal.py`): a breadth-first search along the
materialised edges, with a budget of nodes and one of edge rows, and behind what it finds the
derived tag neighbours where a caller names their type. A row stays examined once it was handed
out, whatever became of it. The pages of one node hand out a prefix of its adjacency, each row
once, and all of it unless a budget is reached. Logs and errors of the database are left out.
-/
namespace TrwMemory.Graph

open Library.Keyset

section Pages

structure EdgeRow where
  rowid : Nat
  ns : String
  sourceId : String
  targetId : String
  edgeType : String
  weight : Rat
  type_ne : edgeType ≠ ""
  deriving Repr

instance : DecidableEq EdgeRow := fun e f =>
  decidable_of_iff (e.rowid = f.rowid ∧ e.ns = f.ns ∧ e.sourceId = f.sourceId ∧
      e.targetId = f.targetId ∧ e.edgeType = f.edgeType ∧ e.weight = f.weight) (by
    cases e
    cases f
    simp)

/-- An edge of some type leads from one id to another, in one namespace or in any. -/
def Links (edges : List EdgeRow) (types : List String) (scope : Option String) (u v : String) :
    Prop :=
  ∃ e ∈ edges, e.sourceId = u ∧ e.targetId = v ∧ e.edgeType ∈ types ∧ ∀ ns ∈ scope, e.ns = ns

/-- What is asked of a source's edges: no types are all types, no namespace is any. -/
structure EdgeScan where
  sourceId : String
  types : List String
  scope : Option String

def EdgeScan.admits (scan : EdgeScan) (e : EdgeRow) : Bool :=
  e.sourceId == scan.sourceId && (scan.types.isEmpty || scan.types.contains e.edgeType) &&
    scan.scope.all fun ns => e.ns == ns

/-- `ORDER BY edge_type, rowid`. -/
def edgeKey (e : EdgeRow) : String ×ₗ Nat := toLex (e.edgeType, e.rowid)

/-- `sql_same_type`. -/
def sameType (edges : List EdgeRow) (scan : EdgeScan) (last : String × Nat) (limit : Nat) :
    List EdgeRow :=
  (sortOn EdgeRow.rowid (edges.filter fun e =>
    scan.admits e && e.edgeType == last.1 && decide (last.2 < e.rowid))).take limit

/-- `sql_later_types`. -/
def laterTypes (edges : List EdgeRow) (scan : EdgeScan) (last : String × Nat) (limit : Nat) :
    List EdgeRow :=
  (sortOn edgeKey (edges.filter fun e =>
    scan.admits e && decide (last.1 < e.edgeType))).take limit

/-- One page behind a cursor, which is empty before the first. -/
def edgePage (edges : List EdgeRow) (scan : EdgeScan) (last : String × Nat) (limit : Nat) :
    List EdgeRow :=
  let rows := if last.1 ≠ "" then sameType edges scan last limit else []
  if rows.length < limit then rows ++ laterTypes edges scan last (limit - rows.length) else rows

/-- Where the next page begins. -/
def cursorAfter (rows : List EdgeRow) (last : String × Nat) : String × Nat :=
  match rows.getLast? with
  | none => last
  | some e => (e.edgeType, e.rowid)

/-- The edges of a source, in the order in which they are paged. -/
def adjacency (edges : List EdgeRow) (scan : EdgeScan) : List EdgeRow :=
  sortOn edgeKey (edges.filter scan.admits)

variable {edges : List EdgeRow} {scan : EdgeScan} {last : String × Nat}

theorem mem_adjacency {e : EdgeRow} :
    e ∈ adjacency edges scan ↔ e ∈ edges ∧ scan.admits e = true := by
  rw [adjacency, mem_sortOn, List.mem_filter]

theorem nodup_map_edgeKey {l : List EdgeRow} (h : (l.map EdgeRow.rowid).Nodup) :
    (l.map edgeKey).Nodup := by
  refine List.Nodup.of_map (fun key => (ofLex key).2) ?_
  rwa [List.map_map]

theorem strict_adjacency (h : (edges.map EdgeRow.rowid).Nodup) :
    StrictlySorted edgeKey (adjacency edges scan) :=
  sortOn_strict edgeKey (nodup_map_edgeKey (h.sublist (List.filter_sublist.map _)))

theorem nodup_of_strict {l : List EdgeRow} (h : StrictlySorted edgeKey l) : l.Nodup :=
  h.imp fun {a b} hlt heq => absurd hlt (by rw [heq]; exact lt_irrefl _)

/-- Strictly sorted lists of the same rows are the same. -/
theorem eq_of_strict {l l' : List EdgeRow} (h : StrictlySorted edgeKey l)
    (h' : StrictlySorted edgeKey l') (hmem : ∀ e, e ∈ l ↔ e ∈ l') : l = l' :=
  ((List.perm_ext_iff_of_nodup (nodup_of_strict h) (nodup_of_strict h')).mpr hmem).eq_of_pairwise
    (fun _ _ _ _ hab hba => absurd hab (lt_asymm hba)) h h'

/-- The rest of one type, sorted by row id, is sorted by the whole key. -/
theorem strict_sortOn_rowid {l : List EdgeRow} (edgeType : String)
    (htype : ∀ e ∈ l, e.edgeType = edgeType) (h : (l.map EdgeRow.rowid).Nodup) :
    StrictlySorted edgeKey (sortOn EdgeRow.rowid l) := by
  refine List.Pairwise.imp_of_mem (fun {a b} ha hb hlt => ?_) (sortOn_strict EdgeRow.rowid h)
  rw [edgeKey, edgeKey, Prod.Lex.toLex_lt_toLex]
  rw [mem_sortOn] at ha hb
  exact .inr ⟨(htype a ha).trans (htype b hb).symm, hlt⟩

theorem key_lt_iff {e : EdgeRow} :
    toLex last < edgeKey e ↔ last.1 < e.edgeType ∨ last.1 = e.edgeType ∧ last.2 < e.rowid :=
  Prod.Lex.toLex_lt_toLex

/-- The two queries without their limits are what is behind the cursor. -/
theorem queries_eq_behind (h : (edges.map EdgeRow.rowid).Nodup) :
    sortOn EdgeRow.rowid (edges.filter fun e =>
        scan.admits e && e.edgeType == last.1 && decide (last.2 < e.rowid)) ++
      sortOn edgeKey (edges.filter fun e => scan.admits e && decide (last.1 < e.edgeType)) =
    behind edgeKey (toLex last) (adjacency edges scan) := by
  refine eq_of_strict (List.pairwise_append.mpr ⟨?_, ?_, fun a ha b hb => ?_⟩)
    (behind_strict edgeKey _ (strict_adjacency h)) fun e => ?_
  · refine strict_sortOn_rowid last.1 (fun e he => ?_)
      (h.sublist (List.filter_sublist.map _))
    simp only [List.mem_filter, Bool.and_eq_true, beq_iff_eq] at he
    exact he.2.1.2
  · exact sortOn_strict edgeKey (nodup_map_edgeKey (h.sublist (List.filter_sublist.map _)))
  · rw [mem_sortOn, List.mem_filter, Bool.and_eq_true, Bool.and_eq_true, beq_iff_eq] at ha
    rw [mem_sortOn, List.mem_filter, Bool.and_eq_true, decide_eq_true_eq] at hb
    rw [edgeKey, edgeKey, Prod.Lex.toLex_lt_toLex]
    exact .inl (ha.2.1.2 ▸ hb.2.2)
  · rw [mem_behind, mem_adjacency, key_lt_iff, List.mem_append, mem_sortOn, mem_sortOn,
      List.mem_filter, List.mem_filter]
    simp only [Bool.and_eq_true, beq_iff_eq, decide_eq_true_eq]
    tauto

theorem empty_lt {text : String} (h : text ≠ "") : "" < text := by
  rw [String.lt_iff_toList_lt]
  cases hl : text.toList with
  | nil => exact absurd (String.toList_eq_nil_iff.mp hl) h
  | cons c rest => exact List.Lex.nil

theorem behind_start : behind edgeKey (toLex ("", 0)) (adjacency edges scan) =
    adjacency edges scan := by
  refine List.filter_eq_self.mpr fun e _ => decide_eq_true (key_lt_iff.mpr (.inl ?_))
  exact empty_lt e.type_ne

/-- A page is the next of what is behind its cursor. -/
theorem edgePage_eq (h : (edges.map EdgeRow.rowid).Nodup) (scan : EdgeScan) (last : String × Nat)
    (limit : Nat) :
    edgePage edges scan last limit =
      (behind edgeKey (toLex last) (adjacency edges scan)).take limit := by
  rw [← queries_eq_behind h, List.take_append]
  unfold edgePage sameType laterTypes
  by_cases hlast : last.1 = ""
  · have hnone : (edges.filter fun e =>
        scan.admits e && e.edgeType == last.1 && decide (last.2 < e.rowid)) = [] := by
      refine List.filter_eq_nil_iff.mpr fun e _ => ?_
      simp [hlast, e.type_ne]
    rw [hnone, if_neg (not_not.mpr hlast)]
    cases limit with
    | zero => rfl
    | succ limit => rfl
  · rw [if_pos hlast]
    dsimp only
    rw [List.length_take]
    split
    · rename_i hshort
      rw [min_eq_right (by omega)]
    · rename_i hfull
      rw [Nat.sub_eq_zero_of_le (by omega), List.take_zero, List.append_nil]

end Pages

open Library Library.Keyed Storage Retrieval

def MAX_TRAVERSAL_DEPTH : Int := 3
def MAX_TRAVERSAL_ROOTS : Nat := 1000
def EDGE_SCAN_BUDGET_MULTIPLIER : Nat := 50
def DERIVED_EDGE_TYPE : String := "tag_cooccurrence"

/-- What a traversal reads. A store from before schema 5 has no edge namespaces and no tag
index. -/
structure GraphStore where
  memories : Table RowKey MemoryEntry
  edges : List EdgeRow
  memoryTags : Option (List TagRow)
  hasEdgeNamespace : Bool
  rowids_nodup : (edges.map EdgeRow.rowid).Nodup

structure GraphQuery where
  rootIds : List String
  depth : Int
  edgeTypes : Option (List String)
  ns : Option String
  maxNodes : Option Int
  config : TagConfig
  activeOnly : Bool

structure GraphNode where
  id : String
  depth : Nat
  edgeType : String
  weight : Rat
  deriving DecidableEq, Repr

inductive GraphError where
  | valueError
  deriving DecidableEq, Repr

section Query

variable (store : GraphStore) (q : GraphQuery)

def GraphQuery.cap : Option Nat := q.maxNodes.map Int.toNat

def GraphQuery.clampedDepth : Int := min q.depth MAX_TRAVERSAL_DEPTH

def GraphQuery.edgeScanBudget : Nat :=
  q.cap.getD MAX_TRAVERSAL_ROOTS * EDGE_SCAN_BUDGET_MULTIPLIER

def GraphQuery.derives : Bool := q.edgeTypes.any fun types => types.contains DERIVED_EDGE_TYPE

/-- The materialised types that are asked for; none are all. -/
def GraphQuery.walkedTypes : List String :=
  (q.edgeTypes.getD []).filter fun edgeType => edgeType != DERIVED_EDGE_TYPE

def edgeScan (nodeId : String) : EdgeScan :=
  ⟨nodeId, q.walkedTypes, if store.hasEdgeNamespace then q.ns else none⟩

/-- `_valid_namespace_targets`, of one target; without a namespace every target is valid. -/
def validTarget (targetId : String) : Bool :=
  q.ns.all fun ns => (store.memories.find ⟨ns, targetId⟩).any fun e =>
    !q.activeOnly || e.status == .active

/-- The variables of the walk. -/
structure Traversal where
  visited : List String
  results : List GraphNode
  queue : List (Bfs.Node String)
  examined : List EdgeRow

/-- The node budget is reached: the call returns. -/
def Traversal.full (s : Traversal) : Bool := q.cap.any fun n => decide (n ≤ s.results.length)

/-- The body of the loop over a page's rows. -/
def takeRow (depth : Nat) (s : Traversal) (row : EdgeRow) : Traversal :=
  if s.full q then s
  else if !validTarget store q row.targetId then s
  else if row.targetId ∈ s.visited then s
  else
    { s with
      visited := s.visited ++ [row.targetId]
      results := s.results ++ [⟨row.targetId, depth + 1, row.edgeType, row.weight⟩]
      queue := s.queue ++ [(row.targetId, depth + 1)] }

def examine (depth : Nat) (rows : List EdgeRow) (s : Traversal) : Traversal :=
  rows.foldl (takeRow store q depth) { s with examined := s.examined ++ rows }

/-- A page asks for no more than the edge budget, and, where every row may count, for no more
than the nodes that are still wanted. -/
def pageLimit (s : Traversal) : Nat :=
  let budgetLeft := q.edgeScanBudget - s.examined.length
  match q.ns, q.cap with
  | none, some n => min (n - s.results.length) budgetLeft
  | _, _ => budgetLeft

/-- The pages of one node. -/
def scanPages (nodeId : String) (depth : Nat) : Nat → String × Nat → Traversal → Traversal
  | 0, _, s => s
  | fuel + 1, last, s =>
      if q.edgeScanBudget ≤ s.examined.length ∨ s.full q then s
      else
        let rows := edgePage store.edges (edgeScan store q nodeId) last (pageLimit q s)
        let next := examine store q depth rows s
        if next.full q then next
        else if rows.length < pageLimit q s ∨ q.edgeScanBudget ≤ next.examined.length then next
        else scanPages nodeId depth fuel (cursorAfter rows last) next

/-- Every page that another follows has a row, so there are no more pages than rows. -/
def scanNode (nodeId : String) (depth : Nat) (s : Traversal) : Traversal :=
  scanPages store q nodeId depth (store.edges.length + 1) ("", 0) s

def traverse : Nat → Traversal → Traversal
  | 0, s => s
  | fuel + 1, s =>
      match s.queue with
      | [] => s
      | (nodeId, depth) :: rest =>
          if s.full q ∨ q.edgeScanBudget ≤ s.examined.length then s
          else if q.clampedDepth ≤ depth then traverse fuel { s with queue := rest }
          else traverse fuel (scanNode store q nodeId depth { s with queue := rest })

/-- An id enters the queue once, as a root or as the target of an edge. -/
def walk (roots : List String) : Traversal :=
  traverse store q (roots.length + store.edges.length)
    ⟨roots, [], roots.map fun r => (r, 0), []⟩

/-- The neighbours of one root, without those seen already. -/
def deriveNodes (ns : String) (seen : List GraphNode × List String) (rootId : String) :
    List GraphNode × List String :=
  (deriveTagNeighbours (store.memoryTags.getD []) q.config ns rootId).foldl
    (fun seen neighbour =>
      if neighbour.entryId ∈ seen.2 then seen
      else (seen.1 ++ [⟨neighbour.entryId, 1, DERIVED_EDGE_TYPE, neighbour.weight⟩],
        seen.2 ++ [neighbour.entryId]))
    seen

/-- `_derive_tag_edges`, without the inactive ones where only active ones count. -/
def deriveTagEdges (rootIds : List String) : List GraphNode :=
  match q.ns with
  | none => []
  | some ns =>
      (rootIds.foldl (deriveNodes store q ns) ([], rootIds)).1.filter fun node =>
        !q.activeOnly ||
          (store.memories.find ⟨ns, node.id⟩).any fun e => e.status == .active

/-- The roots that are rows of the namespace. -/
def allowedRoots (rootIds : List String) : List String :=
  rootIds.filter fun rootId => q.ns.all fun ns => (store.memories.find ⟨ns, rootId⟩).isSome

/-- `merged[:max_nodes]`. -/
def cut (nodes : List GraphNode) : List GraphNode :=
  match q.cap with
  | none => nodes
  | some n => nodes.take n

def graphQuery : Except GraphError (List GraphNode) :=
  if q.rootIds = [] then .ok []
  else if q.maxNodes.any fun n => decide (n < 1) then .error .valueError
  else
    let rootIds := q.rootIds.take MAX_TRAVERSAL_ROOTS
    let derived := if q.derives then deriveTagEdges store q rootIds else []
    if q.derives ∧ q.walkedTypes = [] then .ok (cut q derived)
    else
      let roots := allowedRoots store q rootIds
      if roots = [] then .ok []
      else .ok (cut q ((walk store q roots).results ++ derived))

end Query

open Library.Keyset

variable {store : GraphStore} {q : GraphQuery} {depth : Nat} {s : Traversal}

theorem takeRow_withExamined (rows : List EdgeRow) (row : EdgeRow) :
    takeRow store q depth { s with examined := rows } row =
      { takeRow store q depth s row with examined := rows } := by
  unfold takeRow
  change (if s.full q = true then _ else _) = _
  split
  · rfl
  split
  · rfl
  split <;> rfl

theorem foldl_takeRow_withExamined (rows taken : List EdgeRow) :
    taken.foldl (takeRow store q depth) { s with examined := rows } =
      { taken.foldl (takeRow store q depth) s with examined := rows } := by
  induction taken generalizing s with
  | nil => rfl
  | cons row taken ih => rw [List.foldl_cons, takeRow_withExamined, ih, List.foldl_cons]

theorem examine_eq (rows : List EdgeRow) :
    examine store q depth rows s =
      { rows.foldl (takeRow store q depth) s with examined := s.examined ++ rows } :=
  foldl_takeRow_withExamined _ _

theorem examine_nil : examine store q depth [] s = s := by
  rw [examine, List.append_nil]
  rfl

theorem examine_append (rows later : List EdgeRow) :
    examine store q depth (rows ++ later) s =
      examine store q depth later (examine store q depth rows s) := by
  rw [examine_eq (rows ++ later), examine_eq rows, examine_eq later, List.foldl_append,
    foldl_takeRow_withExamined (s.examined ++ rows) later, List.append_assoc]

theorem pageLimit_pos (hbudget : ¬ q.edgeScanBudget ≤ s.examined.length)
    (hfull : ¬ s.full q = true) : 0 < pageLimit q s := by
  rw [pageLimit]
  split
  · rename_i n _ hcap
    rw [Traversal.full, hcap, Option.any_some, decide_eq_true_eq] at hfull
    omega
  · omega

/-- The pages behind a cursor hand out a prefix of what is behind it. -/
theorem scanPages_spec (nodeId : String) (fuel : Nat) (last : String × Nat) (s : Traversal)
    (hfuel : (behind edgeKey (toLex last)
      (adjacency store.edges (edgeScan store q nodeId))).length < fuel) :
    ∃ m, scanPages store q nodeId depth fuel last s =
        examine store q depth ((behind edgeKey (toLex last)
          (adjacency store.edges (edgeScan store q nodeId))).take m) s ∧
      ((behind edgeKey (toLex last)
          (adjacency store.edges (edgeScan store q nodeId))).length ≤ m ∨
        (scanPages store q nodeId depth fuel last s).full q = true ∨
        q.edgeScanBudget ≤ (scanPages store q nodeId depth fuel last s).examined.length) := by
  induction fuel generalizing last s with
  | zero => exact absurd hfuel (Nat.not_lt_zero _)
  | succ fuel ih =>
      have hpage := edgePage_eq store.rowids_nodup (edgeScan store q nodeId) last (pageLimit q s)
      generalize hR : behind edgeKey (toLex last)
        (adjacency store.edges (edgeScan store q nodeId)) = R at hfuel hpage ⊢
      rw [scanPages]
      by_cases hstop : q.edgeScanBudget ≤ s.examined.length ∨ s.full q = true
      · rw [if_pos hstop]
        exact ⟨0, by rw [List.take_zero, examine_nil], .inr hstop.symm⟩
      rw [if_neg hstop]
      obtain ⟨hbudget, hfull⟩ := not_or.mp hstop
      have hpos := pageLimit_pos hbudget hfull
      dsimp only
      rw [hpage]
      generalize pageLimit q s = limit at hpos
      split
      · rename_i hnext
        exact ⟨limit, rfl, .inr (.inl hnext)⟩
      split
      · rename_i hend
        refine ⟨limit, rfl, ?_⟩
        rcases hend with hshort | hspent
        · rw [List.length_take] at hshort
          exact .inl (by omega)
        · exact .inr (.inr hspent)
      · rename_i hmore
        have hlong : limit ≤ R.length := by
          rw [not_or, List.length_take] at hmore
          omega
        obtain ⟨e, hlast⟩ : ∃ e, (R.take limit).getLast? = some e := by
          cases hget : (R.take limit).getLast? with
          | some e => exact ⟨e, rfl⟩
          | none =>
              have hnil := congrArg List.length (List.getLast?_eq_none_iff.mp hget)
              rw [List.length_take, List.length_nil] at hnil
              omega
        have hmem : e ∈ R := List.mem_of_mem_take (List.mem_of_getLast? hlast)
        have hstrict : StrictlySorted edgeKey R :=
          hR ▸ behind_strict edgeKey _ (strict_adjacency store.rowids_nodup)
        have hcursor : cursorAfter (R.take limit) last = (e.edgeType, e.rowid) := by
          rw [cursorAfter, hlast]
        have hrest : behind edgeKey (toLex (e.edgeType, e.rowid))
            (adjacency store.edges (edgeScan store q nodeId)) = R.drop limit := by
          rw [← behind_take_last edgeKey hstrict hlast, ← hR, behind_behind]
          · rfl
          · rw [← hR] at hmem
            exact ((mem_behind edgeKey).mp hmem).2
        rw [hcursor]
        obtain ⟨m, heq, hend⟩ := ih (e.edgeType, e.rowid) (examine store q depth (R.take limit) s)
          (by rw [hrest, List.length_drop]; omega)
        rw [hrest] at heq hend
        refine ⟨limit + m, ?_, hend.imp_left fun hle => ?_⟩
        · rw [heq, ← examine_append, List.take_add]
        · rw [List.length_drop] at hle
          omega

/-- A node's rows are handed out from the first, and all of them unless a budget is reached. -/
theorem scanNode_spec (nodeId : String) (depth : Nat) (s : Traversal) :
    ∃ m, scanNode store q nodeId depth s =
        examine store q depth ((adjacency store.edges (edgeScan store q nodeId)).take m) s ∧
      ((adjacency store.edges (edgeScan store q nodeId)).length ≤ m ∨
        (scanNode store q nodeId depth s).full q = true ∨
        q.edgeScanBudget ≤ (scanNode store q nodeId depth s).examined.length) := by
  have hlength : (adjacency store.edges (edgeScan store q nodeId)).length ≤ store.edges.length := by
    rw [adjacency, (sortOn_perm edgeKey _).length_eq]
    exact List.length_filter_le _ _
  have hspec : _ → ∃ m, scanPages store q nodeId depth (store.edges.length + 1) ("", 0) s = _ ∧ _ :=
    scanPages_spec nodeId (store.edges.length + 1) ("", 0) s
  rw [behind_start] at hspec
  exact hspec (Nat.lt_succ_of_le hlength)

end TrwMemory.Graph

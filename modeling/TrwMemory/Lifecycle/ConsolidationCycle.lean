import TrwMemory.Labels.LabelAnswers
import TrwMemory.Lifecycle.Clustering
import TrwMemory.Lifecycle.ConsolidationOutcomes
import TrwMemory.Storage.QuarantineReads

/-!
One consolidation cycle (`find_clusters` and `consolidate_cycle`, `lifecycle/consolidation.py`).
The active rows are listed once, those that may be merged are clustered by their vectors, and each
cluster that is not too large has its write step. Others write between the calls, and calls fail.

The encoder, the similarity and the calibration of the threshold are parameters. The lane that a
write step may run on, the preview's mean similarity, logs and the text of errors are left out.
-/
namespace TrwMemory.Lifecycle

open Library Library.Jobs Library.Keyset Storage Sync Tools Labels

def CONSOLIDATION_CLUSTER_MAX : Nat := 10

/-- `is_removal_exempt`. -/
def isRemovalExempt (e : MemoryEntry) : Bool :=
  [ProtectionTier.protected, .permanent].contains e.protectionTier

/-- The rows that may join a cluster, whatever their label is. -/
def mayMerge (e : MemoryEntry) : Bool :=
  e.source != .consolidated && e.consolidatedInto.isNone && !isRemovalExempt e &&
    e.metadata.lookup "system_canary" != some "true"

/-- The arguments of a cycle and the settings that it reads; the threshold is calibrated. -/
structure CycleOptions (S : Type) where
  maxEntries : Int
  maxPerCycle : Int
  enabled : Bool
  dryRun : Bool
  ns : Option String
  similarityThreshold : S
  minCluster : Int

/-- The encoder, and the labels in force after some calls. -/
structure Clusterer (V S : Type) where
  available : Bool
  embedBatch : List String → Except CycleError (List (Option V))
  similarity : V → V → Except SimilarityError S
  globMatches : String → String → Bool
  unicode : UnicodeTables
  source : LabelSource
  rules : Option FileData
  calls : List MemoryEntry

def Clusterer.policy {V S : Type} (x : Clusterer V S) : LabelPolicy :=
  (LabelPolicy.init x.source x.rules).afterCalls x.globMatches x.unicode x.calls

/-- The label of a row by the rules in force. -/
def Clusterer.label {V S : Type} (x : Clusterer V S) (e : MemoryEntry) : Labels.Level :=
  labelByRules x.globMatches x.unicode x.source (x.rules.elim [] FileData.rules) e

/-- The namespace of the merged entries. -/
def CycleOptions.targetNs {S : Type} (o : CycleOptions S) : String :=
  match o.ns with
  | none | some "" => "default"
  | some ns => ns

inductive CycleResult where
  | disabled
  | preview (clusters : List (List String))
  | noClusters
  | completed (clustersFound consolidatedCount clustersSkipped : Nat)
      (errors : List Consolidator.ClusterOutcome)
  deriving DecidableEq, Repr

def CycleResult.ofOutcomes (clusters : List (List MemoryEntry))
    (outcomes : List Consolidator.ClusterOutcome) : CycleResult :=
  .completed clusters.length (outcomes.count .written) (outcomes.count .skipped)
    (outcomes.filter fun outcome => outcome ≠ .written ∧ outcome ≠ .skipped)

namespace Consolidator

variable {τ V S : Type} (c : Consolidator τ)

/-- The active rows of a namespace, or of all, in the order of the listing. -/
def activeRows (ns : Option String) (s : EntryStore) : List MemoryEntry :=
  sortOn listKey <| (s.table.rows.map Prod.snd).filter fun row =>
    row.status == .active && ns.all (row.ns == ·)

/-- `list_entries` of the active rows. -/
def listActive (ns : Option String) (limit : Nat) (s : EntryStore) : List MemoryEntry :=
  let read := fun row => (rowToEntry row).map servedView
  quarantineLimited c.blocks (fun
    | none => ((activeRows ns s).take limit).filterMap read
    | some p => (((activeRows ns s).filterMap read).filter p).take limit) none limit

/-- A cycle over all namespaces is refused where there are several. -/
def requireSingleNamespace (ns : Option String) : Job EntryStore CycleError Unit :=
  match ns with
  | some _ => pure ()
  | none => do
      let namespaces ← call c.setting fun s => (.ok (s.table.keys.map RowKey.ns).eraseDups, s)
      if 1 < namespaces.length then Program.fail (.own .invalid) else pure ()

section

variable [LE S] [DecidableLE S] [Zero S] (x : Clusterer V S) (o : CycleOptions S)

/-- What the clustering makes of the rows that were listed. -/
def clustersOf (entries : List MemoryEntry) : Except CycleError (List (List MemoryEntry)) :=
  let admitted := (x.policy.admitEntries x.globMatches x.unicode (entries.filter mayMerge)
    (.inr .PLATFORM)).1.admitted
  if (admitted.length : Int) < o.minCluster then .ok []
  else
    match x.embedBatch (admitted.map fun e => e.content ++ " " ++ e.detail) with
    | .error error => .error error
    | .ok vectors =>
        let indexed := (admitted.zip vectors).filterMap fun p => p.2.map (p.1, ·)
        if (indexed.length : Int) < o.minCluster then .ok []
        else
          (completeLinkageCluster x.similarity indexed o.similarityThreshold
            o.minCluster).mapError fun _ => .invalid

/-- `find_clusters`. -/
def findClusters : Job EntryStore CycleError (List (List MemoryEntry)) :=
  if !x.available then pure []
  else do
    let entries ← call c.setting fun s =>
      (.ok (c.listActive o.ns (min o.maxEntries o.maxPerCycle).toNat s), s)
    match clustersOf x o entries with
    | .error error => Program.fail (.own error)
    | .ok clusters => pure clusters

variable (hexes : Nat → String)

/-- One turn of the loop over the clusters. -/
def consolidateCluster [DecidableEq τ] (ns : String) (p : List MemoryEntry × Nat) :
    Job EntryStore CycleError ClusterOutcome :=
  if CONSOLIDATION_CLUSTER_MAX < p.1.length then pure .skipped
  else
    match summarizeClusterFallback p.1 with
    | none => Program.fail (.own .invalid)
    | some chosen =>
        match c.entryVector (chosen.summary ++ " " ++ chosen.detail) with
        | .error error => pure (.failed (p.1.map MemoryEntry.id) (.own error))
        | .ok vector => c.writeCluster (hexes p.2) ns p.1 chosen vector

/-- `consolidate_cycle`; `hexes` are the numbers that `uuid4` draws for the clusters. -/
def consolidateCycle [DecidableEq τ] : Job EntryStore CycleError CycleResult := do
  c.requireSingleNamespace o.ns
  if !o.enabled && !o.dryRun then pure .disabled
  else do
    let clusters ← c.findClusters x o
    if o.dryRun then pure (.preview (clusters.map (List.map MemoryEntry.id)))
    else if clusters.isEmpty then pure .noClusters
    else do
      let outcomes ← collect (c.consolidateCluster hexes o.targetNs) clusters.zipIdx
      pure (.ofOutcomes clusters outcomes)

end

variable {c} {s : EntryStore} {ns : Option String}

variable (c) in
/-- The rows that a listing may serve. -/
def servedRows (ns : Option String) (s : EntryStore) : List MemoryEntry :=
  ((activeRows ns s).filterMap fun row => (rowToEntry row).map servedView).filter fun e =>
    !c.blocks e

theorem listActive_sublist (limit : Nat) :
    (c.listActive ns limit s).Sublist (c.servedRows ns s) := by
  unfold listActive quarantineLimited
  dsimp only
  split
  · exact ((List.take_sublist _ _).filterMap _).filter _
  · exact List.take_sublist _ _

theorem rowKey_served {row e : MemoryEntry} (h : (rowToEntry row).map servedView = some e) :
    rowKey e = rowKey row := by
  obtain ⟨existing, hread, rfl⟩ := Option.map_eq_some_iff.mp h
  rw [rowKey, rowKey, servedView_id, servedView_ns, rowToEntry_eq hread]
  rfl

theorem nodup_servedRows : ((c.servedRows ns s).map rowKey).Nodup := by
  have hkeys : ((s.table.rows.map Prod.snd).map rowKey).Nodup := by
    have hrows : (s.table.rows.map Prod.snd).map rowKey = s.table.rows.map Prod.fst := by
      rw [List.map_map]
      exact List.map_congr_left s.keyed
    rw [hrows]
    exact s.table.nodup
  have hactive : ((activeRows ns s).map rowKey).Nodup :=
    ((sortOn_perm listKey _).map rowKey).nodup_iff.mpr (hkeys.sublist (List.filter_sublist.map _))
  refine List.Nodup.sublist (List.filter_sublist.map _) ?_
  rw [List.Nodup, List.pairwise_map] at hactive ⊢
  rw [List.pairwise_filterMap]
  refine hactive.imp fun hne e he e' he' => ?_
  rwa [rowKey_served he, rowKey_served he']

theorem mem_servedRows {e : MemoryEntry} (h : e ∈ c.servedRows ns s) :
    c.reads s (rowKey e) = .ok (some e) ∧
      (∃ row, s.table.find (rowKey e) = some row ∧ row.status = .active) ∧
      ∀ n ∈ ns, (rowKey e).ns = n := by
  obtain ⟨hread, hblocks⟩ := List.mem_filter.mp h
  obtain ⟨row, hrow, hserved⟩ := List.mem_filterMap.mp hread
  obtain ⟨hrow, hactive⟩ := List.mem_filter.mp ((mem_sortOn listKey).mp hrow)
  obtain ⟨⟨k, row⟩, hmem, rfl⟩ := List.mem_map.mp hrow
  have hfind : s.table.find (rowKey row) = some row :=
    (s.table.mem_rows _ _).mp (s.keyed _ hmem ▸ hmem)
  rw [Bool.and_eq_true, beq_iff_eq] at hactive
  rw [rowKey_served hserved]
  refine ⟨?_, ⟨row, hfind, hactive.1⟩, fun n hn => ?_⟩
  · obtain ⟨existing, hexisting, rfl⟩ := Option.map_eq_some_iff.mp hserved
    rw [reads, hfind, readRow, hexisting]
    dsimp only
    rw [if_neg (by simpa using hblocks)]
  · obtain rfl := Option.mem_def.mp hn
    exact eq_of_beq hactive.2

section Clusters

variable [LE S] [DecidableLE S] [Zero S] {similarityFn : V → V → Except SimilarityError S}

/-- The clusters hold items of the list, none of them twice. -/
theorem completeLinkage_items {T β : Type} {items : List (T × V)} {threshold : S}
    {minClusterSize : Int} {clusters : List (List T)} (f : T → β)
    (hnodup : (items.map fun item => f item.1).Nodup)
    (h : completeLinkageCluster similarityFn items threshold minClusterSize = .ok clusters) :
    (clusters.flatten.map f).Nodup ∧ (∀ a ∈ clusters.flatten, a ∈ items.map Prod.fst) ∧
      ∀ cluster ∈ clusters, minClusterSize ≤ cluster.length := by
  rw [completeLinkageCluster] at h
  cases hfold : (loopPairs items.length).foldlM (linkStep similarityFn items threshold)
      (singletons items.length) with
  | error e => rw [hfold] at h; cases h
  | ok clusterId =>
      rw [hfold] at h
      obtain rfl := Except.ok.inj h
      have hflat : ((clusterGroups minClusterSize clusterId).map fun group =>
          group.map fun k => items[k].1).flatten =
          (clusterGroups minClusterSize clusterId).flatten.map fun k => items[k].1 :=
        List.map_flatten.symm
      rw [hflat]
      refine ⟨?_, fun a ha => ?_, fun cluster hcluster => ?_⟩
      · rw [List.map_map]
        refine (nodup_flatten_clusterGroups _ _).map fun i j hij => ?_
        have hget := List.nodup_iff_injective_get.mp hnodup
        have hlength : (items.map fun item => f item.1).length = items.length := List.length_map _
        have hcast := @hget (i.cast hlength.symm) (j.cast hlength.symm) (by simpa using hij)
        exact Fin.ext (Fin.mk.inj_iff.mp hcast)
      · obtain ⟨k, -, rfl⟩ := List.mem_map.mp ha
        exact List.mem_map_of_mem (List.getElem_mem _)
      · obtain ⟨group, hgroup, rfl⟩ := List.mem_map.mp hcluster
        rw [List.length_map]
        exact (mem_clusterGroups hgroup).1

/-- The rows with a vector, in their order. -/
theorem indexed_sublist (entries : List MemoryEntry) (vectors : List (Option V)) :
    (((entries.zip vectors).filterMap fun p => p.2.map (p.1, ·)).map Prod.fst).Sublist
      entries := by
  induction entries generalizing vectors with
  | nil => exact List.Sublist.refl _
  | cons e entries ih =>
      cases vectors with
      | nil => exact List.nil_sublist _
      | cons vector vectors =>
          rw [List.zip_cons_cons]
          cases vector with
          | none => exact (ih vectors).trans (List.sublist_cons_self _ _)
          | some v => exact (ih vectors).cons_cons e

variable (x : Clusterer V S) (o : CycleOptions S)

omit [LE S] [DecidableLE S] [Zero S] in
theorem admitted_eq (entries : List MemoryEntry) :
    (x.policy.admitEntries x.globMatches x.unicode entries (.inr .PLATFORM)).1.admitted =
      entries.filter fun e => x.label e ≤ .TEAM :=
  congrArg LabelPolicy.Admission.admitted
    ((LabelPolicy.answersByRules x.globMatches x.unicode x.source x.rules x.calls).admitted
      entries (.inr .PLATFORM))

/-- The clusters of a store: rows as they are served of it, that may be merged and are admitted, no
row in two of them. -/
structure Clustered (c : Consolidator τ) (x : Clusterer V S) (o : CycleOptions S)
    (s : EntryStore) (clusters : List (List MemoryEntry)) : Prop where
  nodup : (clusters.flatten.map rowKey).Nodup
  size : ∀ cluster ∈ clusters, o.minCluster ≤ cluster.length
  served : ∀ e ∈ clusters.flatten, c.reads s (rowKey e) = .ok (some e)
  active : ∀ e ∈ clusters.flatten, ∃ row, s.table.find (rowKey e) = some row ∧ row.status = .active
  scope : ∀ e ∈ clusters.flatten, ∀ n ∈ o.ns, (rowKey e).ns = n
  merges : ∀ e ∈ clusters.flatten, mayMerge e = true ∧ x.label e ≤ .TEAM

omit [LE S] [DecidableLE S] [Zero S] in
theorem clustered_nil : c.Clustered x o s [] where
  nodup := List.nodup_nil
  size := fun _ h => absurd h List.not_mem_nil
  served := fun _ h => absurd h List.not_mem_nil
  active := fun _ h => absurd h List.not_mem_nil
  scope := fun _ h => absurd h List.not_mem_nil
  merges := fun _ h => absurd h List.not_mem_nil

theorem clustersOf_clustered {limit : Nat} {clusters : List (List MemoryEntry)}
    (h : clustersOf x o (c.listActive o.ns limit s) = .ok clusters) :
    c.Clustered x o s clusters := by
  unfold clustersOf at h
  rw [admitted_eq] at h
  dsimp only at h
  split at h
  · obtain rfl := Except.ok.inj h
    exact clustered_nil x o
  · split at h
    · cases h
    · rename_i vectors _
      split at h
      · obtain rfl := Except.ok.inj h
        exact clustered_nil x o
      · have hsub := indexed_sublist (((c.listActive o.ns limit s).filter mayMerge).filter fun e =>
          x.label e ≤ .TEAM) vectors
        have hlisted := hsub.trans (List.filter_sublist.trans
          (List.filter_sublist.trans (listActive_sublist limit)))
        cases hcluster : completeLinkageCluster x.similarity _ o.similarityThreshold
            o.minCluster with
        | error error => rw [hcluster] at h; cases h
        | ok found =>
            rw [hcluster] at h
            obtain rfl := Except.ok.inj h
            have hkeys := nodup_servedRows.sublist (hlisted.map rowKey)
            rw [List.map_map] at hkeys
            obtain ⟨hnodup, hitems, hsize⟩ := completeLinkage_items rowKey hkeys hcluster
            have hserved : ∀ e ∈ found.flatten, e ∈ c.servedRows o.ns s := fun e he =>
              hlisted.subset (hitems e he)
            refine ⟨hnodup, hsize, fun e he => (mem_servedRows (hserved e he)).1,
              fun e he => (mem_servedRows (hserved e he)).2.1,
              fun e he => (mem_servedRows (hserved e he)).2.2, fun e he => ?_⟩
            obtain ⟨hmerge, hlabel⟩ := List.mem_filter.mp (hsub.subset (hitems e he))
            exact ⟨(List.mem_filter.mp hmerge).2, of_decide_eq_true hlabel⟩

/-- The clusters that the search forms of the rows listed in a store. -/
def Found (c : Consolidator τ) (x : Clusterer V S) (o : CycleOptions S) (s : EntryStore)
    (clusters : List (List MemoryEntry)) : Prop :=
  if x.available then
    clustersOf x o (c.listActive o.ns (min o.maxEntries o.maxPerCycle).toNat s) = .ok clusters
  else clusters = []

theorem clustered_of_found {clusters : List (List MemoryEntry)} (h : c.Found x o s clusters) :
    c.Clustered x o s clusters := by
  unfold Found at h
  split at h
  · exact clustersOf_clustered x o h
  · rw [h]
    exact clustered_nil x o

/-- What is clustered are rows of a store in which the listing's assertion held. -/
theorem findClusters_triple {P : EntryStore → Prop} (hstable : c.setting.Stable P) :
    Triple P (c.findClusters x o)
      (fun clusters s => P s ∧ ∃ s', P s' ∧ c.Found x o s' clusters) P := by
  refine Triple.ite (fun hoff => Triple.pure fun s hs => ⟨hs, s, hs, ?_⟩) fun hon => ?_
  · rw [Found, if_neg (by simpa using hoff)]
  refine Triple.bind (Q := fun entries s => P s ∧ ∃ s', P s' ∧
    entries = c.listActive o.ns (min o.maxEntries o.maxPerCycle).toNat s') ?_ fun entries => ?_
  · exact Triple.call hstable (fun s hs => ⟨hs, s, hs, rfl⟩) (fun _ hs => hs) fun _ _ hs => hs
  · cases hclusters : clustersOf x o entries with
    | error error => exact Triple.fail fun _ hs => hs.1
    | ok clusters =>
        refine Triple.pure fun s hs => ⟨hs.1, ?_⟩
        obtain ⟨s', hs', rfl⟩ := hs.2
        refine ⟨s', hs', ?_⟩
        rwa [Found, if_pos (by simpa using hon)]

end Clusters

end Consolidator

end TrwMemory.Lifecycle

import TrwMemory.Lifecycle.ConsolidationCycle

/-!
Whole consolidation cycles. No cluster's turn touches the rows of another, so that at the end each
outcome still says what has become of its rows. A row that is protected, labelled, a canary or
consolidated already is left to the others, whatever they do and whichever calls fail.
-/
namespace TrwMemory.Lifecycle.Consolidator

open Library Library.Jobs Storage Sync Tools Labels

variable {τ V S : Type} {c : Consolidator τ} {s : EntryStore}

section Rows

variable {k : RowKey}

theorem reads_congr {s s' : EntryStore} (h : s'.table.find k = s.table.find k) :
    c.reads s' k = c.reads s k := by rw [reads, reads, h]

theorem same_of_find {s s' : EntryStore} (h : s'.table.find k = s.table.find k) :
    c.Same s s' k := by rw [Same, reads_congr h]

theorem Same.congr {s₀ s₀' s s' : EntryStore} (h : c.Same s₀ s k)
    (hfind₀ : s₀'.table.find k = s₀.table.find k) (hfind : s'.table.find k = s.table.find k) :
    c.Same s₀' s' k := by
  rwa [Same, reads_congr hfind₀, reads_congr hfind]

theorem ArchivedAs.congr {id : String} {closeAt : Datetime} {s₀ s₀' s s' : EntryStore}
    (h : c.ArchivedAs id closeAt s₀ s k) (hfind₀ : s₀'.table.find k = s₀.table.find k)
    (hfind : s'.table.find k = s.table.find k) : c.ArchivedAs id closeAt s₀' s' k := by
  obtain ⟨e₀, e, updatedAt, hread₀, hread, he⟩ := h
  exact ⟨e₀, e, updatedAt, (reads_congr hfind₀).trans hread₀, (reads_congr hfind).trans hread, he⟩

end Rows

section Steps

variable [DecidableEq τ] {hexes : Nat → String} {target : String}
  {p : List MemoryEntry × Nat} {w : World EntryStore}

/-- One turn does to the other rows what the others do. -/
theorem consolidateCluster_row {k : RowKey} {I : Option MemoryEntry → Prop}
    (hothers : ∀ n s, I (s.table.find k) → I ((c.setting.others n s).table.find k))
    (hk : k ∉ p.1.map rowKey) (hnew : k ≠ newKey (hexes p.2) target)
    (h : I (w.store.table.find k)) :
    I (((c.consolidateCluster hexes target p).run w).2.store.table.find k) := by
  unfold consolidateCluster
  split
  · exact h
  · split
    · exact h
    · split
      · exact h
      · rename_i chosen _ _ vector _
        have hview : ∀ s, beside (newKey (hexes p.2) target) (p.1.map rowKey) s k =
            s.table.find k := fun s => by rw [beside, if_neg hnew, if_neg hk]
        have hrun := @writeCluster_beside _ c _ _ p.1 chosen vector w _ (fun view => I (view k))
          (fun n s hs => ?_) (hview w.store ▸ h)
        · rwa [hview] at hrun
        · rw [hview] at hs ⊢
          exact hothers n s hs

/-- What an outcome says of its cluster, whose vector is written in a transaction. -/
def Finished (c : Consolidator τ) (hexes : Nat → String) (target : String) (s₀ s : EntryStore)
    (p : List MemoryEntry × Nat) (outcome : ClusterOutcome) : Prop :=
  (outcome = .written → p.1.length ≤ CONSOLIDATION_CLUSTER_MAX) ∧
    c.Settled (hexes p.2) target p.1 none s₀ outcome s

/-- The keys that one turn may write. -/
def Touches (hexes : Nat → String) (target : String) (p : List MemoryEntry × Nat) (k : RowKey) :
    Prop := k = newKey (hexes p.2) target ∨ k ∈ p.1.map rowKey

theorem Finished.congr {s₀ s₀' s s' : EntryStore} {outcome : ClusterOutcome}
    (h : c.Finished hexes target s₀ s p outcome)
    (hfind₀ : ∀ k, Touches hexes target p k → s₀'.table.find k = s₀.table.find k)
    (hfind : ∀ k, Touches hexes target p k → s'.table.find k = s.table.find k) :
    c.Finished hexes target s₀' s' p outcome := by
  refine ⟨h.1, ?_⟩
  have hsettled := h.2
  have hkey : ∀ e ∈ p.1, Touches hexes target p (rowKey e) := fun e he =>
    .inr (List.mem_map_of_mem he)
  cases outcome with
  | skipped => exact fun k hk => (hfind k hk).trans ((hsettled k hk).trans (hfind₀ k hk).symm)
  | written =>
      obtain ⟨new, hnew, hstored, hrows⟩ := hsettled
      refine ⟨new, hnew, (hfind _ (.inl rfl)).trans hstored, fun e he => ?_⟩
      obtain ⟨harchived, now, hread, hrevision⟩ := hrows e he
      exact ⟨harchived.congr (hfind₀ _ (hkey e he)) (hfind _ (hkey e he)), now,
        (reads_congr (hfind₀ _ (hkey e he))).trans hread, hrevision⟩
  | failed ids error =>
      exact ⟨fun e he => (hsettled.1 e he).congr (hfind₀ _ (hkey e he)) (hfind _ (hkey e he)),
        fun hloose => (hfind _ (.inl rfl)).trans (hsettled.2 hloose)⟩

/-- A row of a cluster whose turn has ended. -/
theorem Finished.row {s₀ s : EntryStore} {outcome : ClusterOutcome}
    (h : c.Finished hexes target s₀ s p outcome) {e : MemoryEntry} (he : e ∈ p.1) :
    c.Same s₀ s (rowKey e) ∨
      ∃ closeAt, c.ArchivedAs (consolidatedId (hexes p.2)) closeAt s₀ s (rowKey e) := by
  have hsettled := h.2
  cases outcome with
  | skipped => exact .inl (same_of_find (hsettled _ (.inr (List.mem_map_of_mem he))))
  | written =>
      obtain ⟨new, -, -, hrows⟩ := hsettled
      exact .inr ⟨_, (hrows e he).1⟩
  | failed ids error => exact .inl (hsettled.1 e he)

/-- One turn of the loop, where nobody else writes what it touches. -/
theorem consolidateCluster_finishes
    (hleaves : ∀ n s k, Touches hexes target p k →
      (c.setting.others n s).table.find k = s.table.find k)
    (hnone : w.store.table.find (newKey (hexes p.2) target) = none)
    (hread : ∀ e ∈ p.1, c.reads w.store (rowKey e) = .ok (some e))
    (hinto : ∀ e ∈ p.1, e.consolidatedInto = none) :
    match (c.consolidateCluster hexes target p).run w with
    | (.ok outcome, t) => c.Finished hexes target w.store t.store p outcome
    | (.error _, t) => ∀ e ∈ p.1, c.Same w.store t.store (rowKey e) ∨
        ∃ closeAt,
          c.ArchivedAs (consolidatedId (hexes p.2)) closeAt w.store t.store (rowKey e) := by
  unfold consolidateCluster
  by_cases hsize : CONSOLIDATION_CLUSTER_MAX < p.1.length
  · rw [if_pos hsize]
    exact ⟨nofun, fun _ _ => rfl⟩
  · rw [if_neg hsize]
    cases summarizeClusterFallback p.1 with
    | none => exact fun e _ => .inl (same_of_find rfl)
    | some chosen =>
        dsimp only
        cases hvector : c.entryVector (chosen.summary ++ " " ++ chosen.detail) with
        | error error => exact ⟨nofun, fun e _ => same_of_find rfl, fun _ => hnone⟩
        | ok vector =>
            have hclear : ∀ e ∈ p.1, ¬ c.Into (consolidatedId (hexes p.2)) w.store (rowKey e) := by
              rintro e he ⟨found, hfound, htarget⟩
              obtain rfl := Option.some.inj (Except.ok.inj ((hread e he).symm.trans hfound))
              rw [hinto e he] at htarget
              cases htarget
            have hloose : c.Loose vector → c.Loose none := by
              rintro (hlate | ⟨hsome, hatomic⟩ | hraised)
              · exact .inl hlate
              · obtain ⟨v, rfl⟩ := Option.isSome_iff_exists.mp hsome
                rw [entryVector_atomic hvector] at hatomic
                cases hatomic
              · exact .inr (.inr hraised)
            have hrun := @writeCluster_settles _ c _ _ p.1 chosen vector w _ hleaves hnone hclear
            dsimp only
            rcases hjob : (c.writeCluster (hexes p.2) target p.1 chosen vector).run w with
              ⟨result, t⟩
            rw [hjob] at hrun
            cases result with
            | error error => exact hrun
            | ok outcome =>
                refine ⟨fun _ => Nat.not_lt.mp hsize, ?_⟩
                cases outcome with
                | skipped | written => exact hrun
                | failed ids error => exact ⟨hrun.1, fun hnot => hrun.2 fun h => hnot (hloose h)⟩

end Steps

section Loop

variable {x : Clusterer V S} {o : CycleOptions S}
  {hexes : Nat → String} {s₀ : EntryStore} {clusters : List (List MemoryEntry)}

/-- The keys that a cycle may list or write. -/
def Watched (o : CycleOptions S) (hexes : Nat → String) (k : RowKey) : Prop :=
  (∀ n ∈ o.ns, k.ns = n) ∨ ∃ i, k = newKey (hexes i) o.targetNs

/-- The loop after some clusters: what their outcomes say, and nothing else. -/
structure Progress [DecidableEq τ] (c : Consolidator τ) (o : CycleOptions S) (hexes : Nat → String)
    (s₀ : EntryStore) (done : List (List MemoryEntry × Nat)) (outcomes : List ClusterOutcome)
    (s : EntryStore) : Prop where
  finished : List.Forall₂ (c.Finished hexes o.targetNs s₀ s) done outcomes
  others : ∀ k, Watched o hexes k → (∀ p ∈ done, ¬ Touches hexes o.targetNs p k) →
    s.table.find k = s₀.table.find k

/-- Every row reads as before, or as archived into an entry of the cycle. -/
def RowsStand (c : Consolidator τ) (o : CycleOptions S) (hexes : Nat → String)
    (s₀ s : EntryStore) : Prop :=
  ∀ k, (∀ n ∈ o.ns, k.ns = n) → (∀ i, k ≠ newKey (hexes i) o.targetNs) → c.Same s₀ s k ∨
    ∃ i closeAt, c.ArchivedAs (consolidatedId (hexes i)) closeAt s₀ s k

theorem rowsStand_of_find (h : ∀ k, Watched o hexes k → s.table.find k = s₀.table.find k) :
    c.RowsStand o hexes s₀ s := fun k hscope _ => .inl (same_of_find (h k (.inl hscope)))

theorem Progress.stands [DecidableEq τ] {done : List (List MemoryEntry × Nat)}
    {outcomes : List ClusterOutcome} (h : c.Progress o hexes s₀ done outcomes s) :
    c.RowsStand o hexes s₀ s := by
  intro k hscope hnew
  by_cases hdone : ∃ p ∈ done, k ∈ p.1.map rowKey
  · obtain ⟨p, hp, hk⟩ := hdone
    obtain ⟨e, he, rfl⟩ := List.mem_map.mp hk
    have hrow : ∀ q ∈ done, q = p → ∃ outcome, c.Finished hexes o.targetNs s₀ s q outcome := by
      have hfinished := h.finished
      clear hp h
      induction hfinished with
      | nil => exact fun q hq => absurd hq List.not_mem_nil
      | cons hhead _ ih =>
          intro q hq hqp
          rcases List.mem_cons.mp hq with rfl | hrest
          · exact ⟨_, hhead⟩
          · exact ih q hrest hqp
    obtain ⟨outcome, hfinished⟩ := hrow p hp rfl
    exact (hfinished.row he).imp id fun ⟨closeAt, harchived⟩ => ⟨_, closeAt, harchived⟩
  · refine .inl (same_of_find (h.others k (.inl hscope) ?_))
    rintro p hp (hkey | hk)
    · exact hnew _ hkey
    · exact hdone ⟨p, hp, hk⟩

theorem consolidatedId_injective : Function.Injective consolidatedId := by
  intro a b h
  have hlist := congrArg String.toList h
  rw [consolidatedId, consolidatedId, String.toList_append, String.toList_append] at hlist
  exact String.toList_injective (List.append_cancel_left hlist)

theorem Clustered.watched (h : c.Clustered x o s₀ clusters) {p : List MemoryEntry × Nat}
    (hp : p ∈ clusters.zipIdx) {k : RowKey} (hk : Touches hexes o.targetNs p k) :
    Watched o hexes k := by
  rcases hk with rfl | hk
  · exact .inr ⟨p.2, rfl⟩
  · obtain ⟨e, he, rfl⟩ := List.mem_map.mp hk
    exact .inl (h.scope e (List.mem_flatten_of_mem (List.fst_mem_of_mem_zipIdx hp) he))

/-- No turn touches what an earlier one has touched. -/
theorem Clustered.apart (h : c.Clustered x o s₀ clusters) (hhexes : Function.Injective hexes)
    (hfresh : ∀ i, s₀.table.find (newKey (hexes i) o.targetNs) = none)
    {done rest : List (List MemoryEntry × Nat)} {p q : List MemoryEntry × Nat}
    (hitems : clusters.zipIdx = done ++ p :: rest) (hq : q ∈ done) {k : RowKey}
    (hp : Touches hexes o.targetNs p k) : ¬ Touches hexes o.targetNs q k := by
  have hstored : ∀ r ∈ clusters.zipIdx, ∀ k ∈ r.1.map rowKey, ∀ i,
      k ≠ newKey (hexes i) o.targetNs := by
    rintro r hr k hk i rfl
    obtain ⟨e, he, hkey⟩ := List.mem_map.mp hk
    obtain ⟨row, hfind, -⟩ :=
      h.active e (List.mem_flatten_of_mem (List.fst_mem_of_mem_zipIdx hr) he)
    rw [hkey, hfresh] at hfind
    cases hfind
  have hpmem : p ∈ clusters.zipIdx := hitems ▸ List.mem_append_right _ List.mem_cons_self
  have hqmem : q ∈ clusters.zipIdx := hitems ▸ List.mem_append_left _ hq
  rintro (hqkey | hqrow)
  · rcases hp with hpkey | hprow
    · have hhex := hhexes (consolidatedId_injective
        (congrArg RowKey.id (hqkey.symm.trans hpkey)))
      have hnumbers : (clusters.zipIdx.map Prod.snd).Nodup := by
        rw [List.zipIdx_map_snd]
        exact List.nodup_range'
      rw [hitems, List.map_append, List.map_cons, List.nodup_append] at hnumbers
      exact hnumbers.2.2 _ (List.mem_map_of_mem hq) _ List.mem_cons_self hhex
    · exact hstored p hpmem k hprow _ hqkey
  · rcases hp with hpkey | hprow
    · exact hstored q hqmem k hqrow _ hpkey
    · have hrows := h.nodup
      rw [← List.zipIdx_map_fst 0 clusters, hitems, List.map_append, List.map_cons,
        List.flatten_append, List.flatten_cons, List.map_append, List.map_append,
        List.nodup_append] at hrows
      obtain ⟨e, he, hkey⟩ := List.mem_map.mp hqrow
      refine hrows.2.2 k ?_ k (List.mem_append_left _ hprow) rfl
      exact List.mem_map.mpr
        ⟨e, List.mem_flatten_of_mem (List.mem_map_of_mem hq) he, hkey⟩

theorem Clustered.of_find (h : c.Clustered x o s clusters)
    (hfind : ∀ k, Watched o hexes k → s.table.find k = s₀.table.find k) :
    c.Clustered x o s₀ clusters := by
  have hrow : ∀ e ∈ clusters.flatten, s₀.table.find (rowKey e) = s.table.find (rowKey e) :=
    fun e he => (hfind _ (.inl (h.scope e he))).symm
  exact ⟨h.nodup, h.size, fun e he => (reads_congr (hrow e he)).trans (h.served e he),
    fun e he => hrow e he ▸ h.active e he, h.scope, h.merges⟩

variable [DecidableEq τ]

theorem consolidateCluster_progress {done rest : List (List MemoryEntry × Nat)}
    {p : List MemoryEntry × Nat} {outcomes : List ClusterOutcome}
    (hleaves : ∀ n s k, Watched o hexes k → (c.setting.others n s).table.find k = s.table.find k)
    (hhexes : Function.Injective hexes)
    (hfresh : ∀ i, s₀.table.find (newKey (hexes i) o.targetNs) = none)
    (hclustered : c.Clustered x o s₀ clusters) (hitems : clusters.zipIdx = done ++ p :: rest) :
    Triple (c.Progress o hexes s₀ done outcomes) (c.consolidateCluster hexes o.targetNs p)
      (fun outcome => c.Progress o hexes s₀ (done ++ [p]) (outcomes ++ [outcome]))
      (c.RowsStand o hexes s₀) := by
  intro w hw
  have hp : p ∈ clusters.zipIdx := hitems ▸ List.mem_append_right _ List.mem_cons_self
  have hself : ∀ k, Touches hexes o.targetNs p k → w.store.table.find k = s₀.table.find k :=
    fun k hk => hw.others k (hclustered.watched hp hk) fun q hq =>
      hclustered.apart hhexes hfresh hitems hq hk
  have hmember : ∀ e ∈ p.1, e ∈ clusters.flatten := fun e he =>
    List.mem_flatten_of_mem (List.fst_mem_of_mem_zipIdx hp) he
  have hrun := consolidateCluster_finishes (c := c) (p := p) (w := w)
    (fun n s k hk => hleaves n s k (hclustered.watched hp hk))
    ((hself _ (.inl rfl)).trans (hfresh p.2))
    (fun e he => (reads_congr (hself _ (.inr (List.mem_map_of_mem he)))).trans
      (hclustered.served e (hmember e he)))
    fun e he => Option.isNone_iff_eq_none.mp (by
      have hmerge := (hclustered.merges e (hmember e he)).1
      simp only [mayMerge, Bool.and_eq_true] at hmerge
      exact hmerge.1.1.2)
  have hframe : ∀ k, Watched o hexes k → ¬ Touches hexes o.targetNs p k →
      ((c.consolidateCluster hexes o.targetNs p).run w).2.store.table.find k =
        w.store.table.find k := fun k hk hnot =>
    consolidateCluster_row (I := fun row => row = w.store.table.find k)
      (fun n s hs => (hleaves n s k hk).trans hs) (fun h => hnot (.inr h))
      (fun h => hnot (.inl h)) rfl
  rcases hjob : (c.consolidateCluster hexes o.targetNs p).run w with ⟨result, t⟩
  rw [hjob] at hrun hframe
  cases result with
  | ok outcome =>
      refine ⟨List.rel_append ?_ (.cons ?_ .nil), fun k hk hnot => ?_⟩
      · have hdone := (List.forall₂_and_left done outcomes).mpr
          ⟨fun q (hq : q ∈ done) => hq, hw.finished⟩
        refine hdone.imp fun q outcome hfinished =>
          hfinished.2.congr (fun _ _ => rfl) fun k hk => hframe k ?_ fun hpk => ?_
        · exact hclustered.watched (hitems ▸ List.mem_append_left _ hfinished.1) hk
        · exact hclustered.apart hhexes hfresh hitems hfinished.1 hpk hk
      · exact hrun.congr (fun k hk => (hself k hk).symm) fun _ _ => rfl
      · refine (hframe k hk (hnot p (List.mem_append_right _ List.mem_cons_self))).trans ?_
        exact hw.others k hk fun q hq => hnot q (List.mem_append_left _ hq)
  | error error =>
      intro k hscope hnew
      by_cases hk : k ∈ p.1.map rowKey
      · obtain ⟨e, he, rfl⟩ := List.mem_map.mp hk
        have hfind := (hself (rowKey e) (.inr hk)).symm
        rcases hrun e he with hsame | ⟨closeAt, harchived⟩
        · exact .inl (hsame.congr hfind rfl)
        · exact .inr ⟨_, closeAt, harchived.congr hfind rfl⟩
      · have hfind := hframe k (.inl hscope) fun htouches => htouches.elim (hnew _) hk
        rcases hw.stands k hscope hnew with hsame | ⟨i, closeAt, harchived⟩
        · exact .inl (hsame.congr rfl hfind)
        · exact .inr ⟨i, closeAt, harchived.congr rfl hfind⟩

variable [LE S] [DecidableLE S] [Zero S]

/-- No watched row has changed. -/
def Untouched (o : CycleOptions S) (hexes : Nat → String) (s₀ s : EntryStore) : Prop :=
  ∀ k, Watched o hexes k → s.table.find k = s₀.table.find k

/-- What a result says of the store: a cycle that does nothing was told to, or found no clusters; in
another one the clusters were formed of the rows as they were, each outcome holds of its cluster,
and nothing else has changed. -/
def CycleSettled (c : Consolidator τ) (x : Clusterer V S) (o : CycleOptions S)
    (hexes : Nat → String) (s₀ : EntryStore) (result : CycleResult) (s : EntryStore) : Prop :=
  match result with
  | .disabled => o.enabled = false ∧ o.dryRun = false ∧ Untouched o hexes s₀ s
  | .preview ids => o.dryRun = true ∧ Untouched o hexes s₀ s ∧
      ∃ clusters, ids = clusters.map (List.map MemoryEntry.id) ∧ c.Clustered x o s₀ clusters ∧
        ∃ listed, Untouched o hexes s₀ listed ∧ c.Found x o listed clusters
  | .noClusters => o.enabled = true ∧ o.dryRun = false ∧ Untouched o hexes s₀ s ∧
      ∃ listed, Untouched o hexes s₀ listed ∧ c.Found x o listed []
  | .completed found consolidated skipped errors => o.enabled = true ∧ o.dryRun = false ∧
      ∃ clusters outcomes, clusters ≠ [] ∧
        CycleResult.completed found consolidated skipped errors = .ofOutcomes clusters outcomes ∧
        c.Clustered x o s₀ clusters ∧ c.Progress o hexes s₀ clusters.zipIdx outcomes s ∧
        ∃ listed, Untouched o hexes s₀ listed ∧ c.Found x o listed clusters

omit [DecidableEq τ] in
theorem keeps_requireSingleNamespace {P : EntryStore → Prop} (hstable : c.setting.Stable P)
    (ns : Option String) : Keeps P (c.requireSingleNamespace ns) := by
  cases ns with
  | some ns => exact Triple.pure fun _ hs => hs
  | none =>
      refine Triple.bind (Keeps.call hstable fun _ hs => hs) fun namespaces => ?_
      exact Triple.ite (fun _ => Triple.fail fun _ hs => hs) fun _ => Triple.pure fun _ hs => hs

/-- Where nobody else writes the rows of a cycle and the ids of its entries are new, whichever calls
fail: the counts that it reports are those of the clusters' outcomes, and each outcome says what
has become of its cluster's rows; and a cycle that raises leaves each row as it read or as archived
into an entry of the cycle. -/
theorem consolidateCycle_settles {w : World EntryStore}
    (hleaves : ∀ n s k, Watched o hexes k → (c.setting.others n s).table.find k = s.table.find k)
    (hhexes : Function.Injective hexes)
    (hfresh : ∀ i, w.store.table.find (newKey (hexes i) o.targetNs) = none) :
    match (c.consolidateCycle x o hexes).run w with
    | (.ok result, t) => c.CycleSettled x o hexes w.store result t.store
    | (.error _, t) => c.RowsStand o hexes w.store t.store := by
  have hstable : c.setting.Stable fun s => ∀ k, Watched o hexes k →
      s.table.find k = w.store.table.find k :=
    fun n s hs k hk => (hleaves n s k hk).trans (hs k hk)
  have hcycle : Triple (fun s => ∀ k, Watched o hexes k → s.table.find k = w.store.table.find k)
      (c.consolidateCycle x o hexes) (c.CycleSettled x o hexes w.store)
      (c.RowsStand o hexes w.store) := by
    refine Triple.bind ((keeps_requireSingleNamespace hstable o.ns).mono (fun _ hs => hs)
      (fun _ _ hs => hs) fun _ hs => rowsStand_of_find hs) fun _ => ?_
    refine Triple.ite (fun hoff => Triple.pure fun _ hs => ?_) fun hon => ?_
    · simp only [Bool.and_eq_true, Bool.not_eq_true'] at hoff
      exact ⟨hoff.1, hoff.2, hs⟩
    refine Triple.bind ((findClusters_triple x o hstable).mono (fun _ hs => hs)
      (fun _ _ hs => hs) fun _ hs => rowsStand_of_find hs) fun clusters => ?_
    refine Triple.ite (fun hdry => Triple.pure fun s hs => ?_) fun hdry => ?_
    · obtain ⟨hsame, listed, hlisted, hfound⟩ := hs
      exact ⟨hdry, hsame, clusters, rfl, (clustered_of_found x o hfound).of_find hlisted, listed,
        hlisted, hfound⟩
    have henabled : o.enabled = true ∧ o.dryRun = false := by
      simp only [Bool.not_eq_true] at hdry
      simpa [hdry] using hon
    refine Triple.ite (fun hnone => Triple.pure fun s hs => ?_) fun hsome => ?_
    · obtain ⟨hsame, listed, hlisted, hfound⟩ := hs
      obtain rfl := List.isEmpty_iff.mp hnone
      exact ⟨henabled.1, henabled.2, hsame, listed, hlisted, hfound⟩
    rintro w' ⟨hw', s', hs', hfound⟩
    have hclusters := (clustered_of_found x o hfound).of_find hs'
    refine Triple.bind
      (Triple.collect (c.Progress o hexes w.store) fun done outcomes p rest hitems =>
      consolidateCluster_progress hleaves hhexes hfresh hclusters hitems) (fun outcomes => ?_) w'
      ⟨.nil, fun k hk _ => hw' k hk⟩
    exact Triple.pure fun s hs => ⟨henabled.1, henabled.2, clusters, outcomes,
      fun hnil => hsome (List.isEmpty_iff.mpr hnil), rfl, hclusters, hs, s', hs', hfound⟩
  have hrun := hcycle w fun _ _ => rfl
  rcases hjob : (c.consolidateCycle x o hexes).run w with ⟨result, t⟩
  rw [hjob] at hrun
  cases result with
  | ok result => exact hrun
  | error error => exact hrun

/-- A row that no cycle merges. -/
def Spared (c : Consolidator τ) (x : Clusterer V S) (row : MemoryEntry) : Prop :=
  row.status = .active → ∀ e, c.readRow (some row) = .ok (some e) → mayMerge e = true →
    .TEAM < x.label e

/-- What the others keep of a row that is spared all the time is kept by the cycle, whatever else
they write and whichever calls fail. -/
theorem consolidateCycle_spares {w : World EntryStore} {k : RowKey} {I : Option MemoryEntry → Prop}
    (hspared : ∀ row, I (some row) → c.Spared x row)
    (hothers : ∀ n s, I (s.table.find k) → I ((c.setting.others n s).table.find k))
    (hnew : ∀ i, k ≠ newKey (hexes i) o.targetNs) (h : I (w.store.table.find k)) :
    I (((c.consolidateCycle x o hexes).run w).2.store.table.find k) := by
  have hstable : c.setting.Stable fun s => I (s.table.find k) := hothers
  have hcycle : Keeps (fun s => I (s.table.find k)) (c.consolidateCycle x o hexes) := by
    refine Triple.bind (keeps_requireSingleNamespace hstable o.ns) fun _ => ?_
    refine Triple.ite (fun _ => Triple.pure fun _ hs => hs) fun _ => ?_
    refine Triple.bind (findClusters_triple x o hstable) fun clusters => ?_
    refine Triple.ite (fun _ => Triple.pure fun _ hs => hs.1) fun _ => ?_
    refine Triple.ite (fun _ => Triple.pure fun _ hs => hs.1) fun _ => ?_
    rintro w' ⟨hw', s', hs', hfound⟩
    have hclustered := clustered_of_found x o hfound
    have hk : ∀ p ∈ clusters.zipIdx, k ∉ p.1.map rowKey := by
      intro p hp hmem
      obtain ⟨e, he, rfl⟩ := List.mem_map.mp hmem
      have hmember := List.mem_flatten_of_mem (List.fst_mem_of_mem_zipIdx hp) he
      obtain ⟨row, hfind, hactive⟩ := hclustered.active e hmember
      obtain ⟨hmerge, hlabel⟩ := hclustered.merges e hmember
      have hread := hclustered.served e hmember
      rw [hfind] at hs'
      rw [reads, hfind] at hread
      exact absurd hlabel (not_le.mpr (hspared row hs' hactive e hread hmerge))
    refine Triple.bind (Keeps.collect fun p hp => Keeps.of_run fun w hw =>
      consolidateCluster_row hothers (hk p hp) (hnew p.2) hw) (fun outcomes => ?_) w' hw'
    exact Triple.pure fun _ hs => hs
  exact hcycle.run h

omit [DecidableEq τ] [LE S] [DecidableLE S] [Zero S] in
theorem spared_of_exempt {row : MemoryEntry} (h : isRemovalExempt row = true) :
    c.Spared x row := by
  intro _ e hread hmerge
  obtain ⟨stored, existing, hrow, hback, -, rfl⟩ := readRow_some hread
  obtain rfl := Option.some.inj hrow
  obtain ⟨confidence, metadata, hserved⟩ := servedView_fields existing
  have hexempt : isRemovalExempt (servedView existing) = true := by
    rw [hserved, rowToEntry_eq hback]
    exact h
  simp only [mayMerge, hexempt, Bool.not_true, Bool.and_false, Bool.false_and] at hmerge
  cases hmerge

end Loop

def oneVector : Clusterer Unit Nat where
  available := true
  embedBatch := fun texts => .ok (texts.map fun _ => some ())
  similarity := fun _ _ => .ok 1
  globMatches := fun _ _ => false
  unicode := ⟨id, id, fun _ => false⟩
  source := .default
  rules := none
  calls := []

def pairOptions : CycleOptions Nat where
  maxEntries := 50
  maxPerCycle := 50
  enabled := true
  dryRun := false
  ns := some "ns"
  similarityThreshold := 1
  minCluster := 2

def unaryHex (i : Nat) : String := String.ofList (List.replicate i 'a')

theorem unaryHex_injective : Function.Injective unaryHex := by
  intro i j h
  have hlength := congrArg (fun hex => hex.toList.length) h
  simpa [unaryHex] using hlength

def cycleNotes (w : World EntryStore) :
    Except (JobError CycleError) CycleResult × World EntryStore :=
  ((plainConsolidator (fun _ s => s) fun _ => none).consolidateCycle oneVector pairOptions
    unaryHex).run w

def reportsOne : Except (JobError CycleError) CycleResult → Bool
  | .ok result => result == .completed 1 1 0 []
  | .error _ => false

theorem newKey_of_rows {s : EntryStore} {hex ns : String}
    (h : ∀ row ∈ s.table.rows, row.1.id.toList.head? ≠ some 'M') :
    s.table.find (newKey hex ns) = none := by
  rw [Keyed.Table.find_eq_none, Keyed.Table.keys]
  intro hmem
  obtain ⟨row, hrow, hkey⟩ := List.mem_map.mp hmem
  refine h row hrow ?_
  rw [hkey, newKey, consolidatedId, String.toList_append]
  rfl

theorem consolidateCycle_settles_notes :
    (plainConsolidator (fun _ s => s) fun _ => none).CycleSettled oneVector pairOptions unaryHex
      notes.store (.completed 1 1 0 []) (cycleNotes notes).2.store := by
  have hreport : reportsOne (cycleNotes notes).1 = true := by decide +kernel
  have hsettles := @consolidateCycle_settles _ _ _ (plainConsolidator (fun _ s => s) fun _ => none)
    oneVector pairOptions unaryHex _ _ _ _ notes (fun _ _ _ _ => rfl) unaryHex_injective
    fun _ => newKey_of_rows (by decide +kernel)
  change match cycleNotes notes with
    | (.ok result, t) => _
    | (.error _, t) => _ at hsettles
  rcases hrun : cycleNotes notes with ⟨result, t⟩
  rw [hrun] at hsettles hreport
  cases result with
  | error error => cases hreport
  | ok result => rwa [eq_of_beq hreport] at hsettles

def pinnedNote : MemoryEntry :=
  { MemoryEntry.ofDefaults "p" "three" "ns" ⟨0, some 0⟩ (by decide) with
    protectionTier := .permanent }

theorem consolidateCycle_spares_pinned :
    reportsOne (cycleNotes ⟨notes.store.insert pinnedNote, 0, false⟩).1 = true ∧
      (cycleNotes ⟨notes.store.insert pinnedNote, 0, false⟩).2.store.table.find ⟨"ns", "p"⟩ =
        some pinnedNote := by
  refine ⟨by decide +kernel, ?_⟩
  refine @consolidateCycle_spares _ _ _ (plainConsolidator (fun _ s => s) fun _ => none)
    oneVector pairOptions unaryHex _ _ _ _ ⟨notes.store.insert pinnedNote, 0, false⟩ ⟨"ns", "p"⟩
    (· = some pinnedNote) ?_ (fun _ _ h => h) ?_ (by decide +kernel)
  · rintro row ⟨rfl⟩
    exact spared_of_exempt rfl
  · intro i h
    have hid := congrArg (fun k => k.id.toList.head?) h
    rw [newKey, consolidatedId] at hid
    simp at hid

end TrwMemory.Lifecycle.Consolidator

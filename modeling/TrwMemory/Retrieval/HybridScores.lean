import TrwMemory.Retrieval.HybridRows

/-!
Where a hybrid search keeps its candidates apart: for candidates of distinct ids, whatever the
sources, the fusion, the prior and the re-ranking do, and for no others.
-/
namespace TrwMemory.Retrieval

open Library Storage

section Scores

variable {V : Type} {engine : Engine V} {args : HybridQuery V} {entries : List MemoryEntry}

theorem get_ofPairs_of_mem {d : List (String × Rat)} (hd : (ids d).Nodup) {id : String} {s : Rat}
    (h : (id, s) ∈ d) : Dict.get (Dict.ofPairs d) id = some s := by
  rw [Dict.ofPairs_of_nodup hd]
  exact Dict.get_of_mem hd h

/-- A value of the entries is found under the id of the entry that it belongs to. -/
theorem get_valuesOf {value : MemoryEntry → Rat} (hids : (idsOf entries).Nodup) {e : MemoryEntry}
    (he : e ∈ entries) :
    Dict.get (Dict.ofPairs (entries.map fun e => (e.id, value e))) e.id = some (value e) := by
  refine get_ofPairs_of_mem ?_ (List.mem_map.mpr ⟨e, he, rfl⟩)
  rw [ids, List.map_map]
  exact hids

theorem score_blendImportance {scores : Ranking} (hscores : (ids scores).Nodup)
    (importances : List (String × Rat)) (alpha : Rat) {id : String} {s : Rat}
    (h : (id, s) ∈ blendImportance (some importances) alpha scores) :
    s = if clampUnit alpha < 1 ∧ 0 < maxScore scores then
        clampUnit alpha * ((Dict.get scores id).getD 0 / maxScore scores) +
          (1 - clampUnit alpha) * (Dict.get importances id).getD 0
      else (Dict.get scores id).getD 0 := by
  rw [blendImportance] at h
  split at h
  · rename_i hblend
    obtain ⟨pair, hpair, heq⟩ := List.mem_map.mp h
    obtain ⟨rfl, hs⟩ := Prod.mk.inj heq
    have hget : Dict.get scores pair.1 = some pair.2 := Dict.get_of_mem hscores hpair
    rw [if_pos hblend, hget, Option.getD_some, ← hs]
  · rename_i hblend
    rw [if_neg hblend, Dict.get_of_mem hscores h, Option.getD_some]

theorem mem_relevanceFused_own (hids : (idsOf entries).Nodup) {e : MemoryEntry} (he : e ∈ entries)
    {s : Rat} (h : (e.id, s) ∈ relevanceFused engine args entries) :
    s = ownRelevance engine args entries e := by
  rw [relevanceFused] at h
  rw [ownRelevance]
  dsimp only
  split at h
  · rename_i hmode
    rw [if_pos hmode, ← getD_fuseWith putsBy_raiseScore]
    have hmem := (sortDesc_perm _ _).mem_iff.mp h
    rw [Dict.get_of_mem (fuseWith_nodup puts_raiseScore _) hmem, Option.getD_some]
  · rename_i hmode
    rw [if_neg hmode, ← getD_fuseWith putsBy_addScore]
    have hmem := (sortDesc_perm _ _).mem_iff.mp h
    by_cases halpha : args.importanceAlpha < 1
    · rw [if_pos halpha] at hmem
      have hscore := score_blendImportance (fuseWith_nodup puts_addScore _) _ _ hmem
      rw [get_valuesOf hids he, Option.getD_some] at hscore
      simpa only [halpha, true_and] using hscore
    · rw [if_neg halpha] at hmem
      rw [if_neg fun hall => halpha hall.1,
        Dict.get_of_mem (fuseWith_nodup puts_addScore _) hmem, Option.getD_some]

/-- The share of relevance in the blend. -/
theorem getD_relNorm (hids : (idsOf entries).Nodup) {e : MemoryEntry} (he : e ∈ entries) :
    (Dict.get (relNorm (relevanceFused engine args entries)) e.id).getD 0 =
      if e.id ∈ ids (relevanceFused engine args entries) ∧
          0 < maxScore (relevanceFused engine args entries) then
        ownRelevance engine args entries e / maxScore (relevanceFused engine args entries)
      else 0 := by
  rw [relNorm]
  by_cases hmax : 0 < maxScore (relevanceFused engine args entries)
  · have hkeys : ids ((relevanceFused engine args entries).map fun pair =>
        (pair.1, pair.2 / maxScore (relevanceFused engine args entries))) =
          ids (relevanceFused engine args entries) := List.map_map ..
    rw [if_pos hmax]
    by_cases hmem : e.id ∈ ids (relevanceFused engine args entries)
    · obtain ⟨pair, hpair, hid⟩ := List.mem_map.mp hmem
      have hpair' : (e.id, pair.2) ∈ relevanceFused engine args entries := hid ▸ hpair
      rw [if_pos ⟨hmem, hmax⟩, ← mem_relevanceFused_own hids he hpair',
        get_ofPairs_of_mem (hkeys ▸ nodup_relevanceFused) (List.mem_map.mpr ⟨_, hpair', rfl⟩),
        Option.getD_some]
    · rw [if_neg fun hall => hmem hall.1, Dict.get_eq_none.mpr, Option.getD_none]
      rw [Dict.mem_keys_ofPairs]
      exact fun hkey => hmem (hkeys ▸ hkey)
  · rw [if_neg hmax, if_neg fun hall => hmax hall.2]
    rfl

theorem mem_fusedRanking_own (hids : (idsOf entries).Nodup) {e : MemoryEntry} (he : e ∈ entries)
    {s : Rat} (h : (e.id, s) ∈ fusedRanking engine args entries) :
    s = ownScore engine args entries e := by
  rw [fusedRanking] at h
  rw [ownScore]
  by_cases hblends : Blends (relevanceFused engine args entries) (recencyLane engine args entries)
      args.recencyWeight
  · rw [blendRecency_of_blends hblends] at h
    obtain ⟨id, -, heq⟩ := List.mem_map.mp ((sortBy_perm _ _).mem_iff.mp h)
    obtain ⟨rfl, hs⟩ := Prod.mk.inj heq
    have hnodup : (ids (recencyLane engine args entries)).Nodup := by
      refine ids_recencyLane_perm.nodup_iff.mpr ?_
      rwa [if_pos hblends.1]
    rw [if_pos hblends, ← hs, blendedScore, getD_relNorm hids he,
      get_ofPairs_of_mem hnodup (mem_recencyLane_self hblends.1 he), Option.getD_some]
  · rw [blendRecency_of_not_blends hblends] at h
    rw [if_neg hblends]
    exact mem_relevanceFused_own hids he h

/-- What the last stage makes of its rows. -/
structure Scores (fusedScores : Ranking) (args : HybridQuery V) (rows : List MemoryEntry)
    (results : List ScoredCandidate) : Prop where
  rows : KeepsRows rows (results.map (·.entry))
  score : ∀ result ∈ results, result.basis = .fused → result.score =
    (Dict.get fusedScores result.entry.id).getD 0 *
      if result.distilledWeighted then args.distilledWeight.getD 1 else 1

theorem zip_rowScores (fusedScores : Ranking) (basis : ScoreBasis) (rows : List MemoryEntry) :
    (rows.zip (rowScores fusedScores basis rows)).map Prod.fst = rows :=
  List.map_fst_zip (by rw [rowScores, List.length_map, List.length_zipIdx])

theorem mem_zip_rowScores {fusedScores : Ranking} {rows : List MemoryEntry}
    {row : MemoryEntry × Rat} (h : row ∈ rows.zip (rowScores fusedScores .fused rows)) :
    row.2 = (Dict.get fusedScores row.1.id).getD 0 := by
  have hzip : rows.zip (rowScores fusedScores .fused rows) =
      rows.zipIdx.map fun row => (row.1, (Dict.get fusedScores row.1.id).getD 0) := by
    calc rows.zip (rowScores fusedScores .fused rows)
        = (rows.zipIdx.map Prod.fst).zip (rows.zipIdx.map fun row =>
            (Dict.get fusedScores row.1.id).getD 0) := by rw [List.zipIdx_map_fst]; rfl
      _ = _ := List.zip_map' ..
  rw [hzip] at h
  obtain ⟨pair, -, rfl⟩ := List.mem_map.mp h
  rfl

theorem weightRow_score (weight : Rat) (row : MemoryEntry × Rat) :
    (weightRow weight row).2.1 = row.2 * if (weightRow weight row).2.2 then weight else 1 := by
  rw [weightRow]
  split
  · rfl
  · exact (mul_one _).symm

theorem scoreStage_scores {fusedScores : Ranking} {basis : ScoreBasis} {rows : List MemoryEntry}
    {results : List ScoredCandidate} (h : scoreStage args fusedScores basis rows = .ok results) :
    Scores fusedScores args rows results := by
  rw [scoreStage.eq_def] at h
  dsimp only at h
  split at h
  · rename_i weight hweight
    have hgiven : args.distilledWeight = some weight := (Option.filter_eq_some_iff.mp hweight).1
    rw [weightDistilled, if_pos (by rw [rowScores, List.length_map, List.length_zipIdx])] at h
    obtain rfl := Except.ok.inj h
    refine ⟨?_, fun result hresult hbasis => ?_⟩
    · have hperm := (sortDesc_perm (fun row => row.2.1)
        ((rows.zip (rowScores fusedScores basis rows)).map (weightRow weight))).map Prod.fst
      have hentries : ((rows.zip (rowScores fusedScores basis rows)).map
          (weightRow weight)).map Prod.fst = rows := by
        rw [List.map_map]
        conv_rhs => rw [← zip_rowScores fusedScores basis rows]
        exact List.map_congr_left fun row _ => weightRow_entry weight row
      rw [hentries] at hperm
      rw [List.map_map]
      exact (KeepsRows.of_perm hperm).trans
        (KeepsRows.of_sublist ((List.take_sublist _ _).map Prod.fst))
    · obtain ⟨row, hrow, rfl⟩ := List.mem_map.mp hresult
      obtain rfl : basis = .fused := hbasis
      have hmem := (sortDesc_perm _ _).mem_iff.mp (List.mem_of_mem_take hrow)
      obtain ⟨source, hsource, rfl⟩ := List.mem_map.mp hmem
      dsimp only
      rw [weightRow_score, mem_zip_rowScores hsource, weightRow_entry, hgiven, Option.getD_some]
  · obtain rfl := Except.ok.inj h
    refine ⟨?_, fun result hresult hbasis => ?_⟩
    · have hsublist := (List.take_sublist (cutAt args.topK rows.length)
        (rows.zip (rowScores fusedScores basis rows))).map Prod.fst
      rw [zip_rowScores] at hsublist
      rw [List.map_map]
      exact KeepsRows.of_sublist hsublist
    · obtain ⟨row, hrow, rfl⟩ := List.mem_map.mp hresult
      obtain rfl : basis = .fused := hbasis
      exact (mem_zip_rowScores (List.mem_of_mem_take hrow)).trans (mul_one _).symm

theorem nodup_fusedEntries (hids : (idsOf entries).Nodup) :
    (idsOf (fusedEntries engine args entries)).Nodup :=
  (idsOf_filterMap_sublist (fun _ _ h => (get_entryMap h).2) _).nodup (nodup_fusedRanking hids)

theorem fusedEntries_subset : fusedEntries engine args entries ⊆ entries := by
  intro e he
  obtain ⟨pair, -, hget⟩ := List.mem_filterMap.mp he
  exact (get_entryMap hget).1

/-- The results are scored rows of the fused entries. -/
theorem hybridSearchScored_ok (hids : (idsOf entries).Nodup) {results : List ScoredCandidate}
    (h : hybridSearchScored engine args entries = .ok results) :
    results = [] ∨ ∃ rows, KeepsRows (fusedEntries engine args entries) rows ∧
      Scores (Dict.ofPairs (fusedRanking engine args entries)) args rows results := by
  rw [hybridSearchScored] at h
  split at h
  · exact .inl (Except.ok.inj h).symm
  · dsimp only at h
    split at h
    · cases h
    · split at h
      · exact .inl (Except.ok.inj h).symm
      · split at h
        · cases h
        · rename_i eligible hprior
          split at h
          · cases h
          · rename_i scored hscored
            obtain rfl := Except.ok.inj h
            exact .inr ⟨_, (keepsRows_applyValidityPrior hprior).trans
              (keepsRows_rerankStage hids eligible), scoreStage_scores hscored⟩

theorem keepsApart_of_nodup (hids : (idsOf entries).Nodup) : KeepsApart engine args entries where
  once := fun results h => by
    obtain rfl | ⟨rows, hrows, hscores⟩ := hybridSearchScored_ok hids h
    · exact List.nodup_nil
    · exact List.Nodup.of_map _ (hscores.rows.nodup (hrows.nodup (nodup_fusedEntries hids)))
  passedIn := fun results h result hresult => by
    obtain rfl | ⟨rows, hrows, hscores⟩ := hybridSearchScored_ok hids h
    · cases hresult
    · exact fusedEntries_subset (hrows.subset (hscores.rows.subset (List.mem_map_of_mem hresult)))
  noneLost := fun _ he hevidence => mem_fusedEntries_of_ranked hids he hevidence.ranked
  ownLexical := fun _ he _ h => mem_bm25Lane hids he h
  ownDense := fun _ _ _ h => mem_denseLane h
  ownFallback := fun _ he _ h => mem_lexicalLane hids he h
  ownRecency := fun _ he _ h => mem_recencyLane hids he h
  ownScore := fun results h result hresult hbasis => by
    obtain rfl | ⟨rows, hrows, hscores⟩ := hybridSearchScored_ok hids h
    · cases hresult
    · have hfused := hrows.subset (hscores.rows.subset (List.mem_map_of_mem hresult))
      have he := fusedEntries_subset hfused
      obtain ⟨pair, hpair, hget⟩ := List.mem_filterMap.mp hfused
      have hid := (get_entryMap hget).2
      have hpair' : (result.entry.id, pair.2) ∈ fusedRanking engine args entries := hid ▸ hpair
      rw [hscores.score result hresult hbasis,
        get_ofPairs_of_mem (nodup_fusedRanking hids) hpair', Option.getD_some,
        mem_fusedRanking_own hids he hpair']

end Scores

/-- A search that finds one id by its vector and blends in the age of every candidate. -/
def blendEngine : Engine Unit where
  tables := asciiTables
  okapi := pairOkapi
  accesses := []
  hopAccesses := []
  cosine _ _ := some 1
  recencyScore _ := 1
  predict _ := none
  bridgeTerms _ := []
  py := isoPython
  dateFromisoformat _ := none
  timestamp d := d.instant

def blendQuery (id : String) (entries : List MemoryEntry) : HybridQuery Unit where
  query := ""
  scope := entries.map MemoryEntry.ns
  embedder := none
  queryEmbedding := some ()
  storedEmbeddings := [(id, ())]
  bm25Candidates := 50
  vectorCandidates := (Dict.keys (entryMap entries)).length
  rrfK := 5
  importanceAlpha := 1
  topK := 10
  fusionMode := "rrf"
  prior := priorOptions false []
  recencyWeight := 1 / 2
  rerank := false
  rerankCandidates := 50
  rerankMinScore := none
  rerankMinKeep := 5
  bridgeHop := false
  distilledWeight := none

theorem mem_denseLane_blendQuery {entries : List MemoryEntry} {e : MemoryEntry} (he : e ∈ entries) :
    e.id ∈ ids (denseLane blendEngine (blendQuery e.id entries) entries) := by
  have hkey : e.id ∈ Dict.keys (entryMap entries) :=
    mem_keys_entryMap.mpr (List.mem_map.mpr ⟨e, he, rfl⟩)
  have hscore : denseScore blendEngine.cosine () [(e.id, ())] e.id = some 1 := by
    simp [denseScore, Dict.get, blendEngine]
  have hmem : (e.id, (1 : Rat)) ∈ rankBy id (denseScore blendEngine.cosine () [(e.id, ())])
      (Dict.keys (entryMap entries)) := mem_rankBy.mpr ⟨e.id, hkey, rfl, hscore⟩
  have hlength : (rankBy id (denseScore blendEngine.cosine () [(e.id, ())])
      (Dict.keys (entryMap entries))).length ≤ (Dict.keys (entryMap entries)).length := by
    rw [rankBy, (sortDesc_perm _ _).length_eq]
    exact List.length_filterMap_le _ _
  have hcut : ∀ length, cutAt (Dict.keys (entryMap entries)).length length =
      (Dict.keys (entryMap entries)).length := fun _ => by
    rw [cutAt, if_pos (Int.natCast_nonneg _), Int.toNat_natCast]
  have hlane : denseLane blendEngine (blendQuery e.id entries) entries =
      rankBy id (denseScore blendEngine.cosine () [(e.id, ())]) (Dict.keys (entryMap entries)) :=
    List.take_of_length_le (hcut _ ▸ hlength)
  rw [hlane]
  exact List.mem_map_of_mem hmem

/-- The age of every candidate is evidence in this search. -/
theorem hasEvidence_blendQuery {entries : List MemoryEntry} {e e' : MemoryEntry} (he : e ∈ entries)
    (he' : e' ∈ entries) : HasEvidence blendEngine (blendQuery e.id entries) entries e' := by
  have hweight : 0 < (blendQuery e.id entries).recencyWeight := one_half_pos
  have hid := mem_denseLane_blendQuery he
  have hfused : e.id ∈ ids (relevanceFused blendEngine (blendQuery e.id entries) entries) :=
    mem_relevanceFused.mpr ⟨_, mem_sourceRankings (by simp) hid, hid⟩
  have hrecency : (e'.id, blendEngine.recencyScore e') ∈
      recencyLane blendEngine (blendQuery e.id entries) entries :=
    mem_recencyLane_self hweight he'
  refine .recency ⟨hweight, ?_, List.ne_nil_of_mem hrecency⟩ hrecency
  exact fun hnil => List.ne_nil_of_mem hfused (congrArg ids hnil)

/-- Of two candidates with one id only one is mapped back. -/
theorem not_keepsApart {entries : List MemoryEntry} {e e' : MemoryEntry} (he : e ∈ entries)
    (he' : e' ∈ entries) (hid : e.id = e'.id) (hne : e ≠ e') :
    ¬ KeepsApart blendEngine (blendQuery e.id entries) entries := by
  intro hapart
  have hfound : ∀ a ∈ entries, a.id = e.id → Dict.get (entryMap entries) e.id = some a := by
    intro a ha haid
    have hmem := hapart.noneLost a ha (hasEvidence_blendQuery he ha)
    obtain ⟨pair, -, hget⟩ := List.mem_filterMap.mp hmem
    rwa [← (get_entryMap hget).2, haid] at hget
  exact hne (Option.some.inj ((hfound e he rfl).symm.trans (hfound e' he' hid.symm)))

/-- Candidates of distinct namespaces and ids are kept apart by every search exactly when their
ids are distinct. -/
theorem keepsApart_iff (entries : List MemoryEntry)
    (hpairs : (entries.map fun e => (e.ns, e.id)).Nodup) :
    (∀ (V : Type) (engine : Engine V) (args : HybridQuery V), KeepsApart engine args entries) ↔
      (idsOf entries).Nodup := by
  refine ⟨fun hall => ?_, fun hids _ _ _ => keepsApart_of_nodup hids⟩
  refine (List.nodup_map_iff_inj_on (List.Nodup.of_map _ hpairs)).mpr fun e he e' he' hid => ?_
  by_contra hne
  exact not_keepsApart he he' hid hne (hall Unit _ _)

def scopedEntry (ns id : String) (h : id ≠ "") : MemoryEntry :=
  MemoryEntry.ofDefaults id "x" ns ⟨0, some 0⟩ h

theorem keepsApart_two_namespaces :
    let entries :=
      [scopedEntry "project:m" "M-1" (by decide), scopedEntry "project:n" "N-1" (by decide)]
    KeepsApart blendEngine (blendQuery "M-1" entries) entries :=
  (keepsApart_iff [scopedEntry "project:m" "M-1" (by decide),
    scopedEntry "project:n" "N-1" (by decide)]
    (by decide +kernel)).mpr (by decide +kernel) Unit _ _

/-- Two namespaces hold the same id, and the search finds one of the two. -/
theorem same_id_lost :
    let entries :=
      [scopedEntry "project:m" "M-1" (by decide), scopedEntry "project:n" "M-1" (by decide)]
    (entries.map fun e => (e.ns, e.id)).Nodup ∧
      ((hybridSearchScored blendEngine (blendQuery "M-1" entries) entries).toOption.map
        fun results =>
        results.map fun result => (result.entry.ns, result.entry.id)) =
          some [("project:n", "M-1")] ∧
      ¬ KeepsApart blendEngine (blendQuery "M-1" entries) entries := by
  refine ⟨by decide +kernel, by decide +kernel, ?_⟩
  have hne :
      scopedEntry "project:m" "M-1" (by decide) ≠ scopedEntry "project:n" "M-1" (by decide) := by
    decide +kernel
  exact not_keepsApart (List.mem_cons_self) (List.mem_cons_of_mem _ List.mem_cons_self) rfl hne

end TrwMemory.Retrieval

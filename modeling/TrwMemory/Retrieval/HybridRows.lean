import TrwMemory.Retrieval.HybridSearch
import TrwMemory.Retrieval.ValidityOrder

/-!
What the stages after the fusion keep of their rows. No stage returns a row that it was not given,
and where the candidates have distinct ids none returns a row twice.

Whether a hybrid search keeps its candidates apart. Every stage is keyed by the id alone, so it does
exactly for candidates of distinct ids: of two candidates with one id, in two namespaces, only one
is ever found.

The vectors and the similarities are the caller's; a vector belongs to the entry under whose id it
is stored.
-/
namespace TrwMemory.Retrieval

open Library Storage

abbrev idsOf (rows : List MemoryEntry) : List String := rows.map MemoryEntry.id

section Map

variable {entries : List MemoryEntry}

theorem get_entryMap {id : String} {e : MemoryEntry} (h : Dict.get (entryMap entries) id = some e) :
    e ∈ entries ∧ e.id = id := by
  obtain ⟨e', he', heq⟩ := List.mem_map.mp (Dict.mem_of_mem_ofPairs (Dict.mem_of_get h))
  cases heq
  exact ⟨he', rfl⟩

theorem mem_keys_entryMap {id : String} :
    id ∈ Dict.keys (entryMap entries) ↔ id ∈ idsOf entries := by
  rw [entryMap, Dict.mem_keys_ofPairs, Dict.keys, List.map_map]
  rfl

/-- With distinct ids every entry is found under its id. -/
theorem get_entryMap_of_mem (hids : (idsOf entries).Nodup) {e : MemoryEntry} (he : e ∈ entries) :
    Dict.get (entryMap entries) e.id = some e := by
  obtain ⟨e', he'⟩ : ∃ e', Dict.get (entryMap entries) e.id = some e' := by
    refine Option.ne_none_iff_exists'.mp fun hnone => Dict.get_eq_none.mp hnone ?_
    exact mem_keys_entryMap.mpr (List.mem_map.mpr ⟨e, he, rfl⟩)
  obtain ⟨hmem, hid⟩ := get_entryMap he'
  rw [he', List.inj_on_of_nodup_map hids hmem he hid]

/-- Ranked ids that are looked up, each giving an entry of that id or none. -/
theorem idsOf_filterMap_sublist {lookup : String × Rat → Option MemoryEntry}
    (hlookup : ∀ pair e, lookup pair = some e → e.id = pair.1) (ranking : Ranking) :
    (idsOf (ranking.filterMap lookup)).Sublist (ids ranking) := by
  induction ranking with
  | nil => exact List.Sublist.refl _
  | cons pair ranking ih =>
      cases hget : lookup pair with
      | none =>
          rw [List.filterMap_cons_none hget]
          exact ih.cons _
      | some e =>
          rw [List.filterMap_cons_some hget, idsOf, List.map_cons, hlookup pair e hget]
          exact ih.cons_cons _

theorem ids_rankModel_nodup {okapi : Okapi} {model : CachedModel} {query : List Token}
    (h : (model.rows.map Prod.fst).Nodup) (topK : Int) :
    (ids (rankModel okapi model query topK)).Nodup := by
  have hcandidates : (ids ((model.candidates okapi query).map fun row =>
      (row.1, model.weight okapi query row))).Nodup := by
    rw [ids, List.map_map]
    exact (List.filter_sublist.map Prod.fst).nodup h
  rw [rankModel_eq model h]
  exact ((List.take_sublist _ _).map Prod.fst).nodup
    ((ids_sortDesc_perm _).nodup_iff.mpr hcandidates)

/-- A model that was built from entries of distinct ids has each id once. -/
theorem rows_nodup_of_perm {t : TextTables} {built : List LexicalEntry}
    (hids : (idsOf entries).Nodup) (hbuilt : built.Perm (entries.map lexicalOf)) :
    ((buildModel t built).rows.map Prod.fst).Nodup := by
  refine rows_nodup (decide_eq_true ((hbuilt.map _).nodup_iff.mpr ?_))
  rw [List.map_map]
  exact hids

end Map

section Rerank

variable {V : Type} {engine : Engine V} {args : HybridQuery V} {entries : List MemoryEntry}

theorem crossEncodeScores_perm {rows : List MemoryEntry} {scored : List (MemoryEntry × Rat)}
    (h : crossEncodeScores engine rows = some scored) : (scored.map Prod.fst).Perm rows := by
  rw [crossEncodeScores] at h
  split at h
  · rename_i hnil
    cases h
    rw [hnil]
    exact List.Perm.refl _
  · obtain ⟨scores, -, h⟩ := Option.bind_eq_some_iff.mp h
    split at h
    · rename_i hlength
      cases h
      have hperm := (sortDesc_perm Prod.snd (rows.zip scores)).map Prod.fst
      rwa [List.map_fst_zip (Nat.le_of_eq hlength.symm)] at hperm
    · cases h

theorem mem_freshRows {terms : List Token} {scored : Nat} {tail : List MemoryEntry}
    {e : MemoryEntry} (h : e ∈ freshRows engine args entries terms scored tail) : e ∈ tail := by
  obtain ⟨hit, -, h⟩ := List.mem_filterMap.mp (List.mem_of_mem_take h)
  split at h
  · have hget : Dict.get (entryMap tail) hit.1 = some e := h
    exact (get_entryMap hget).1
  · cases h

theorem nodup_freshRows (hids : (idsOf entries).Nodup) (terms : List Token) (scored : Nat)
    (tail : List MemoryEntry) :
    (idsOf (freshRows engine args entries terms scored tail)).Nodup := by
  obtain ⟨built, hbuilt, hmodel⟩ := buildOrReuseModel_built engine.tables engine.hopAccesses
    (entries.map lexicalOf)
  have hrows : ((hopModel engine entries).rows.map Prod.fst).Nodup := by
    rw [hopModel, hmodel]
    exact rows_nodup_of_perm hids hbuilt
  refine ((List.take_sublist _ _).map _).nodup ((idsOf_filterMap_sublist ?_ _).nodup
    (ids_rankModel_nodup hrows _))
  intro hit e h
  split at h
  · have hget : Dict.get (entryMap tail) hit.1 = some e := h
    exact (get_entryMap hget).2
  · cases h

/-- The rows of `after` are among those of `before`, and come once if those do. -/
structure KeepsRows (before after : List MemoryEntry) : Prop where
  subset : after ⊆ before
  nodup : (idsOf before).Nodup → (idsOf after).Nodup

namespace KeepsRows

theorem refl (rows : List MemoryEntry) : KeepsRows rows rows := ⟨fun _ h => h, id⟩

theorem trans {a b c : List MemoryEntry} (hab : KeepsRows a b) (hbc : KeepsRows b c) :
    KeepsRows a c :=
  ⟨fun _ h => hab.subset (hbc.subset h), fun h => hbc.nodup (hab.nodup h)⟩

theorem of_sublist {before after : List MemoryEntry} (h : after.Sublist before) :
    KeepsRows before after :=
  ⟨h.subset, fun hnodup => (h.map _).nodup hnodup⟩

theorem of_perm {before after : List MemoryEntry} (h : after.Perm before) :
    KeepsRows before after :=
  ⟨h.subset, fun hnodup => (h.map _).nodup_iff.mpr hnodup⟩

theorem append_right {before after : List MemoryEntry} (h : after.Perm before)
    (tail : List MemoryEntry) : KeepsRows (before ++ tail) (after ++ tail) :=
  of_perm (h.append_right tail)

end KeepsRows

def Hop.rows (hop : Hop) : List MemoryEntry := hop.scored.map Prod.fst ++ hop.tail

/-- Rows of the tail that move among the scored ones leave the tail. -/
theorem keepsRows_moved (scored : List MemoryEntry) {extra tail : List MemoryEntry}
    (hextra : extra ⊆ tail) (hnodup : (idsOf extra).Nodup) :
    KeepsRows (scored ++ tail)
      ((scored ++ extra) ++ tail.filter fun e => !(idsOf extra).contains e.id) := by
  constructor
  · intro e he
    rw [List.mem_append, List.mem_append] at he
    obtain (h | h) | h := he
    · exact List.mem_append_left _ h
    · exact List.mem_append_right _ (hextra h)
    · exact List.mem_append_right _ (List.mem_of_mem_filter h)
  · intro h
    rw [idsOf, List.map_append, List.nodup_append] at h
    obtain ⟨hscored, htail, hdisjoint⟩ := h
    have hsub : idsOf extra ⊆ idsOf tail := List.map_subset _ hextra
    rw [idsOf, List.map_append, List.map_append, List.nodup_append, List.nodup_append]
    refine ⟨⟨hscored, hnodup, fun a ha b hb => hdisjoint a ha b (hsub hb)⟩,
      (List.filter_sublist.map _).nodup htail, fun a ha b hb => ?_⟩
    obtain ⟨e, he, rfl⟩ := List.mem_map.mp hb
    obtain ⟨he, hnot⟩ := List.mem_filter.mp he
    rw [List.mem_append] at ha
    obtain ha | ha := ha
    · exact hdisjoint a ha _ (List.mem_map.mpr ⟨e, he, rfl⟩)
    · rintro rfl
      rw [List.contains_iff_mem.mpr ha] at hnot
      cases hnot

theorem keepsRows_extendWithBridge (hids : (idsOf entries).Nodup)
    (scored : List (MemoryEntry × Rat)) (tail : List MemoryEntry) :
    KeepsRows (scored.map Prod.fst ++ tail)
      (extendWithBridge engine args entries scored tail).rows := by
  rw [extendWithBridge]
  split
  · exact KeepsRows.refl _
  · dsimp only
    split
    · exact KeepsRows.refl _
    · split
      · exact KeepsRows.refl _
      · split
        · exact KeepsRows.refl _
        · exact KeepsRows.refl _
        · rename_i extra _ hscores
          have hperm := crossEncodeScores_perm hscores
          have hextra : extra.map Prod.fst ⊆ tail := fun e he =>
            mem_freshRows (hperm.subset he)
          have hnodup : (idsOf (extra.map Prod.fst)).Nodup :=
            (hperm.map _).nodup_iff.mpr (nodup_freshRows hids _ _ _)
          have hmoved := keepsRows_moved (scored.map Prod.fst) hextra hnodup
          have hsorted : ((sortDesc Prod.snd (scored ++ extra)).map Prod.fst).Perm
              (scored.map Prod.fst ++ extra.map Prod.fst) := by
            rw [← List.map_append]
            exact (sortDesc_perm Prod.snd _).map Prod.fst
          have hextraIds : idsOf (extra.map Prod.fst) = extra.map fun pair => pair.1.id :=
            List.map_map ..
          rw [hextraIds] at hmoved
          exact hmoved.trans (KeepsRows.append_right hsorted _)

theorem keptRows_sublist (hop : Hop) : (keptRows args hop).Sublist hop.rows := by
  rw [keptRows.eq_def]
  split
  · exact List.Sublist.refl _
  · rename_i floor _
    have hsublist : ((hop.scored.zipIdx.filter fun row =>
        decide (row.2 < args.rerankMinKeep.toNat ∨ floor ≤ row.1.2)).map fun row => row.1.1).Sublist
          (hop.scored.zipIdx.map fun row => row.1.1) := List.filter_sublist.map _
    have hfst : hop.scored.zipIdx.map (fun row => row.1.1) = hop.scored.map Prod.fst :=
      calc hop.scored.zipIdx.map (fun row => row.1.1)
          = (hop.scored.zipIdx.map Prod.fst).map Prod.fst := (List.map_map ..).symm
        _ = hop.scored.map Prod.fst := by rw [List.zipIdx_map_fst]
    rw [hfst] at hsublist
    exact hsublist.trans (List.sublist_append_left _ _)

theorem keepsRows_rerankStage (hids : (idsOf entries).Nodup) (rows : List MemoryEntry) :
    KeepsRows rows (rerankStage engine args entries rows).1 := by
  rw [rerankStage]
  split
  · dsimp only
    split
    · exact KeepsRows.refl _
    · rename_i scored hscores
      have hrows : KeepsRows rows (scored.map Prod.fst ++
          rows.drop (cutAt args.rerankCandidates rows.length)) := by
        refine KeepsRows.of_perm (((crossEncodeScores_perm hscores).append_right _).trans ?_)
        rw [List.take_append_drop]
      refine KeepsRows.trans ?_ (KeepsRows.of_sublist (keptRows_sublist _))
      split
      · exact hrows.trans (keepsRows_extendWithBridge hids _ _)
      · exact hrows
  · exact KeepsRows.refl _

theorem keepsRows_applyValidityPrior {options : PriorOptions} {before after : List MemoryEntry}
    (h : applyValidityPrior engine.py engine.dateFromisoformat engine.timestamp options before =
      .ok after) : KeepsRows before after := by
  have hperm := (applyValidityPrior_reorders h).perm
  split at hperm
  · exact KeepsRows.of_perm hperm
  · exact (KeepsRows.of_sublist List.filter_sublist).trans (KeepsRows.of_perm hperm)

end Rerank

section Own

variable {V : Type} (engine : Engine V) (args : HybridQuery V) (entries : List MemoryEntry)

/-- The weight of the entry's own tokens in the lexical model of the search. -/
def lexicalWeight (e : MemoryEntry) : Rat :=
  (buildOrReuseModel engine.tables (Bm25Cache.after engine.tables engine.accesses)
    (entries.map lexicalOf)).1.weight engine.okapi (tokenizeQuery engine.tables args.query)
      (e.id, tokenizeEntry engine.tables (lexicalOf e))

/-- The relevance of the entry from its own places in the sources and its own importance. -/
def ownRelevance (e : MemoryEntry) : Rat :=
  let sources := sourceRankings engine args entries
  if args.fusionMode = "combmax" then
    (sources.flatMap (placesOf (if args.rrfK < 1 then 60 else args.rrfK.toNat) e.id 1)).foldl max 0
  else
    let k := if args.rrfK < 1 then 5 else args.rrfK.toNat
    let sum := (sources.flatMap (placesOf k e.id 1)).foldl (· + ·) 0
    let best := maxScore (fuseWith k addScore sources)
    if args.importanceAlpha < 1 ∧ clampUnit args.importanceAlpha < 1 ∧ 0 < best then
      clampUnit args.importanceAlpha * (sum / best) +
        (1 - clampUnit args.importanceAlpha) * e.importance
    else sum

/-- The fused score of the entry from its own relevance and its own age. -/
def ownScore (e : MemoryEntry) : Rat :=
  let fused := relevanceFused engine args entries
  if Blends fused (recencyLane engine args entries) args.recencyWeight then
    (1 - args.recencyWeight) *
        (if e.id ∈ ids fused ∧ 0 < maxScore fused then
          ownRelevance engine args entries e / maxScore fused else 0) +
      args.recencyWeight * engine.recencyScore e
  else ownRelevance engine args entries e

/-- A source that is fused has evidence for this very entry. -/
inductive HasEvidence (e : MemoryEntry) : Prop where
  | lexical : (e.id, lexicalWeight engine args entries e) ∈ bm25Lane engine args entries →
      HasEvidence e
  | dense : e.id ∈ ids (denseLane engine args entries) → HasEvidence e
  | fallback : lexicalLane engine args entries ∈ sourceRankings engine args entries →
      (e.id, lexicalRelevance engine.tables (lexicalQuery engine.tables args.query) e) ∈
        lexicalLane engine args entries → HasEvidence e
  | recency : Blends (relevanceFused engine args entries) (recencyLane engine args entries)
        args.recencyWeight →
      (e.id, engine.recencyScore e) ∈ recencyLane engine args entries → HasEvidence e

/-- Each candidate is found at most once, none is lost to another, and what a candidate is ranked
and scored by was computed for it. -/
structure KeepsApart : Prop where
  once : ∀ results, hybridSearchScored engine args entries = .ok results →
    (results.map (·.entry)).Nodup
  passedIn : ∀ results, hybridSearchScored engine args entries = .ok results →
    ∀ result ∈ results, result.entry ∈ entries
  noneLost : ∀ e ∈ entries, HasEvidence engine args entries e → e ∈ fusedEntries engine args entries
  ownLexical : ∀ e ∈ entries, ∀ s, (e.id, s) ∈ bm25Lane engine args entries →
    s = lexicalWeight engine args entries e
  ownDense : ∀ e ∈ entries, ∀ s, (e.id, s) ∈ denseLane engine args entries →
    ∃ query vector, queryVector args.embedder args.queryEmbedding = some query ∧
      Dict.get args.storedEmbeddings e.id = some vector ∧ engine.cosine query vector = some s
  ownFallback : ∀ e ∈ entries, ∀ s, (e.id, s) ∈ lexicalLane engine args entries →
    s = lexicalRelevance engine.tables (lexicalQuery engine.tables args.query) e
  ownRecency : ∀ e ∈ entries, ∀ s, (e.id, s) ∈ recencyLane engine args entries →
    s = engine.recencyScore e
  ownScore : ∀ results, hybridSearchScored engine args entries = .ok results →
    ∀ result ∈ results, result.basis = .fused → result.score =
      ownScore engine args entries result.entry *
        if result.distilledWeighted then args.distilledWeight.getD 1 else 1

end Own

section Lanes

variable {V : Type} {engine : Engine V} {args : HybridQuery V} {entries : List MemoryEntry}

theorem eq_of_id (hids : (idsOf entries).Nodup) {a b : MemoryEntry} (ha : a ∈ entries)
    (hb : b ∈ entries) (h : a.id = b.id) : a = b := List.inj_on_of_nodup_map hids ha hb h

theorem mem_bm25Lane (hids : (idsOf entries).Nodup) {e : MemoryEntry} (he : e ∈ entries) {s : Rat}
    (h : (e.id, s) ∈ bm25Lane engine args entries) : s = lexicalWeight engine args entries e := by
  obtain ⟨built, hbuilt, hmodel⟩ := buildOrReuseModel_built engine.tables engine.accesses
    (entries.map lexicalOf)
  rw [bm25Lane, bm25Search] at h
  split at h
  · cases h
  · rw [lexicalWeight, hmodel]
    dsimp only at h
    rw [hmodel, rankModel_eq _ (rows_nodup_of_perm hids hbuilt)] at h
    have hmem := (sortDesc_perm _ _).mem_iff.mp (List.mem_of_mem_take h)
    obtain ⟨row, hrow, heq⟩ := List.mem_map.mp hmem
    obtain ⟨hid, hweight⟩ := Prod.mk.inj heq
    have hrow' := (List.mem_filter.mp hrow).1
    rw [rows_buildModel] at hrow'
    obtain ⟨lexical, hlexical, hrow'⟩ := List.mem_map.mp (List.mem_of_mem_filter hrow')
    obtain ⟨e', he', rfl⟩ := List.mem_map.mp (hbuilt.mem_iff.mp hlexical)
    obtain rfl := eq_of_id hids he' he (by rw [← hid, ← hrow']; rfl)
    rw [← hweight, ← hrow']
    rfl

theorem mem_denseLane {id : String} {s : Rat} (h : (id, s) ∈ denseLane engine args entries) :
    ∃ query vector, queryVector args.embedder args.queryEmbedding = some query ∧
      Dict.get args.storedEmbeddings id = some vector ∧ engine.cosine query vector = some s := by
  rw [denseLane, denseSearch.eq_def] at h
  split at h
  · cases h
  · rename_i query hquery
    obtain ⟨a, -, hid, hscore⟩ := mem_rankBy.mp (List.mem_of_mem_take h)
    obtain rfl : a = id := hid
    obtain ⟨vector, hvector, hcosine⟩ := Option.bind_eq_some_iff.mp hscore
    exact ⟨query, vector, hquery, hvector, hcosine⟩

/-- A pair of a source that scores each entry is the score of the entry with the pair's id. -/
theorem mem_rankBy_entries (hids : (idsOf entries).Nodup) {score : MemoryEntry → Option Rat}
    {e : MemoryEntry} (he : e ∈ entries) {s : Rat}
    (h : (e.id, s) ∈ rankBy MemoryEntry.id score entries) : score e = some s := by
  obtain ⟨e', he', hid, hs⟩ := mem_rankBy.mp h
  obtain rfl := eq_of_id hids he' he hid
  exact hs

theorem mem_lexicalLane (hids : (idsOf entries).Nodup) {e : MemoryEntry} (he : e ∈ entries)
    {s : Rat} (h : (e.id, s) ∈ lexicalLane engine args entries) :
    s = lexicalRelevance engine.tables (lexicalQuery engine.tables args.query) e := by
  rw [lexicalLane, lexicalFallback] at h
  split at h
  · cases h
  · have hscore := mem_rankBy_entries hids he h
    split at hscore
    · exact (Option.some.inj hscore).symm
    · cases hscore

theorem mem_recencyLane (hids : (idsOf entries).Nodup) {e : MemoryEntry} (he : e ∈ entries)
    {s : Rat} (h : (e.id, s) ∈ recencyLane engine args entries) : s = engine.recencyScore e := by
  rw [recencyLane] at h
  split at h
  · exact (Option.some.inj (mem_rankBy_entries hids he h)).symm
  · cases h

theorem ids_recencyLane_perm :
    (ids (recencyLane engine args entries)).Perm
      (if 0 < args.recencyWeight then idsOf entries else []) := by
  rw [recencyLane]
  split
  · have hscored : (entries.filterMap fun e => (some (engine.recencyScore e)).map fun s =>
        (e.id, s)) = entries.map fun e => (e.id, engine.recencyScore e) :=
      congrFun List.filterMap_eq_map entries
    have hids : ids (entries.map fun e => (e.id, engine.recencyScore e)) = idsOf entries :=
      List.map_map ..
    rw [recencyRank, rankBy, hscored, ← hids]
    exact ids_sortDesc_perm _
  · exact List.Perm.refl _

theorem mem_recencyLane_self (hweight : 0 < args.recencyWeight) {e : MemoryEntry}
    (he : e ∈ entries) : (e.id, engine.recencyScore e) ∈ recencyLane engine args entries := by
  rw [recencyLane, if_pos hweight]
  exact mem_rankBy.mpr ⟨e, he, rfl, rfl⟩

theorem nodup_relevanceFused : (ids (relevanceFused engine args entries)).Nodup := by
  rw [relevanceFused]
  split
  · exact nodup_combmaxFuse _ _
  · exact nodup_rrfFuse _ _ _ _

theorem mem_relevanceFused {id : String} :
    id ∈ ids (relevanceFused engine args entries) ↔
      ∃ lane ∈ sourceRankings engine args entries, id ∈ ids lane := by
  rw [relevanceFused]
  split
  · exact mem_combmaxFuse _ _
  · exact mem_rrfFuse _ _ _ _

theorem nodup_fusedRanking (hids : (idsOf entries).Nodup) :
    (ids (fusedRanking engine args entries)).Nodup := by
  rw [fusedRanking]
  obtain ⟨hblend, hplain⟩ := blendRecency_reorders (relevanceFused engine args entries)
    (recencyLane engine args entries) args.recencyWeight
  by_cases h : Blends (relevanceFused engine args entries) (recencyLane engine args entries)
      args.recencyWeight
  · refine (hblend h).2.2.1 nodup_relevanceFused (ids_recencyLane_perm.nodup_iff.mpr ?_)
    split
    · exact hids
    · exact List.nodup_nil
  · rw [hplain h]
    exact nodup_relevanceFused

theorem mem_sourceRankings {lane : Ranking} (hlane : lane ∈ [bm25Lane engine args entries,
    denseLane engine args entries]) {id : String} (hid : id ∈ ids lane) :
    lane ∈ sourceRankings engine args entries := by
  have hne : lane ≠ [] := by
    rintro rfl
    cases hid
  have hmem : lane ∈ [bm25Lane engine args entries, denseLane engine args entries].filter
      (· ≠ []) := List.mem_filter.mpr ⟨hlane, decide_eq_true hne⟩
  rw [sourceRankings, if_neg (List.ne_nil_of_mem hmem)]
  exact hmem

theorem ids_fusedRanking_of_relevance {id : String}
    (h : id ∈ ids (relevanceFused engine args entries)) :
    id ∈ ids (fusedRanking engine args entries) := by
  rw [fusedRanking]
  obtain ⟨hblend, hplain⟩ := blendRecency_reorders (relevanceFused engine args entries)
    (recencyLane engine args entries) args.recencyWeight
  by_cases hb : Blends (relevanceFused engine args entries) (recencyLane engine args entries)
      args.recencyWeight
  · exact ((hblend hb).2.1 id).mpr (.inl h)
  · rwa [hplain hb]

theorem HasEvidence.ranked {e : MemoryEntry} (h : HasEvidence engine args entries e) :
    e.id ∈ ids (fusedRanking engine args entries) := by
  cases h with
  | lexical hmem =>
      have hid := List.mem_map_of_mem (f := Prod.fst) hmem
      exact ids_fusedRanking_of_relevance
        (mem_relevanceFused.mpr ⟨_, mem_sourceRankings (by simp) hid, hid⟩)
  | dense hid =>
      exact ids_fusedRanking_of_relevance
        (mem_relevanceFused.mpr ⟨_, mem_sourceRankings (by simp) hid, hid⟩)
  | fallback hlane hmem =>
      exact ids_fusedRanking_of_relevance
        (mem_relevanceFused.mpr ⟨_, hlane, List.mem_map_of_mem (f := Prod.fst) hmem⟩)
  | recency hblends hmem =>
      have hall := ((blendRecency_reorders _ _ _).1 hblends).2.1 e.id
      exact hall.mpr (.inr (List.mem_map_of_mem (f := Prod.fst) hmem))

theorem mem_fusedEntries_of_ranked (hids : (idsOf entries).Nodup) {e : MemoryEntry}
    (he : e ∈ entries) (h : e.id ∈ ids (fusedRanking engine args entries)) :
    e ∈ fusedEntries engine args entries := by
  obtain ⟨pair, hpair, hid⟩ := List.mem_map.mp h
  exact List.mem_filterMap.mpr ⟨pair, hpair, by rw [hid]; exact get_entryMap_of_mem hids he⟩

end Lanes

end TrwMemory.Retrieval

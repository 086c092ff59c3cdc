import Mathlib.Data.Nat.Cast.Order.Ring
import TrwMemory.Retrieval.SearchLanes
import TrwMemory.Retrieval.ValidityOrder

/-!
Reciprocal rank fusion (`rrf_fuse`, `combmax_fuse`, `retrieval/fusion.py`): the rankings of
several sources as one. The result holds each id once, and the ids are those of the rankings.
`tie_scores` is left out: the fusion of one search ranks by position alone.

The hybrid search (`hybrid_search_scored`, `retrieval/pipeline.py`, with the second hop of
`retrieval/bridge.py` and the scores of `retrieval/reranker.py`). The sources rank ids, the
rankings are fused and blended with recency, the ids are mapped back to entries, and the validity
prior, the re-ranking and the weight of distilled entries reorder what is left. The models, the
similarity and the choice of the bridge terms are parameters, and so is what was searched before,
since it fills the cache of lexical models. The observer of dense scores is left out.
-/
namespace TrwMemory.Retrieval

open Library

/-- `1 / (k + rank)`, ranks counted from one. -/
def reciprocal (k rank : Nat) : Rat := 1 / ((k + rank : Nat) : Rat)

section Fuse

variable (k : Nat)

/-- A later contribution is added to the score of an id. -/
def addScore (scores : List (String × Rat)) (id : String) (score : Rat) : List (String × Rat) :=
  Dict.assign scores id ((Dict.get scores id).getD 0 + score)

/-- Of two contributions the larger is kept. -/
def raiseScore (scores : List (String × Rat)) (id : String) (score : Rat) : List (String × Rat) :=
  if (Dict.get scores id).getD 0 < score then Dict.assign scores id score else scores

/-- The contributions of one ranking, from rank `rank` on. -/
def contribute (put : List (String × Rat) → String → Rat → List (String × Rat)) :
    Nat → List (String × Rat) → Ranking → List (String × Rat)
  | _, scores, [] => scores
  | rank, scores, (id, _) :: rest =>
      contribute put (rank + 1) (put scores id (reciprocal k rank)) rest

def fuseWith (put : List (String × Rat) → String → Rat → List (String × Rat))
    (rankings : List Ranking) : List (String × Rat) :=
  rankings.foldl (contribute k put 1) []

end Fuse

/-- What the places of an id in a ranking contribute, the first place counted as `rank`. -/
def placesOf (k : Nat) (id : String) (rank : Nat) (ranking : Ranking) : List Rat :=
  ((ranking.zipIdx rank).filter fun row => row.1.1 = id).map fun row => reciprocal k row.2

/-- `max(0.0, min(1.0, alpha))`. -/
def clampUnit (alpha : Rat) : Rat := max 0 (min 1 alpha)

/-- The normalised score of an id and its importance. -/
def withImportance (importances : List (String × Rat)) (alpha maxRrf : Rat)
    (pair : String × Rat) : String × Rat :=
  (pair.1, alpha * (pair.2 / maxRrf) + (1 - alpha) * (Dict.get importances pair.1).getD 0)

def blendImportance (importances : Option (List (String × Rat))) (alpha : Rat)
    (scores : Ranking) : Ranking :=
  match importances with
  | none => scores
  | some importances =>
      if clampUnit alpha < 1 ∧ 0 < maxScore scores then
        scores.map (withImportance importances (clampUnit alpha) (maxScore scores))
      else scores

def rrfFuse (rankings : List Ranking) (k : Int) (importances : Option (List (String × Rat)))
    (alpha : Rat) : Ranking :=
  let k := if k < 1 then 5 else k.toNat
  sortDesc Prod.snd (blendImportance importances alpha (fuseWith k addScore rankings))

def combmaxFuse (rankings : List Ranking) (k : Int) : Ranking :=
  let k := if k < 1 then 60 else k.toNat
  sortDesc Prod.snd (fuseWith k raiseScore rankings)

/-- A way to put a contribution: it is assigned to its id, or changes nothing there. -/
structure Puts (put : List (String × Rat) → String → Rat → List (String × Rat)) : Prop where
  nodup : ∀ scores id score, (Dict.keys scores).Nodup → (Dict.keys (put scores id score)).Nodup
  keys : ∀ scores id score a, 0 < score →
    (a ∈ Dict.keys (put scores id score) ↔ a = id ∨ a ∈ Dict.keys scores)

theorem puts_addScore : Puts addScore where
  nodup := fun _ _ _ h => Dict.nodup_assign h _ _
  keys := fun _ _ _ _ _ => Dict.mem_keys_assign

theorem puts_raiseScore : Puts raiseScore where
  nodup := fun scores id score h => by
    rw [raiseScore]
    split
    · exact Dict.nodup_assign h _ _
    · exact h
  keys := fun scores id score a hscore => by
    rw [raiseScore]
    split
    · exact Dict.mem_keys_assign
    · rename_i hnot
      refine ⟨.inr, fun h => h.elim (fun heq => ?_) fun hmem => hmem⟩
      by_contra hnone
      rw [heq, ← Dict.get_eq_none] at hnone
      rw [hnone, Option.getD_none] at hnot
      exact hnot hscore

/-- A contribution is combined with the score of its id, and leaves the other scores. -/
def PutsBy (combine : Rat → Rat → Rat)
    (put : List (String × Rat) → String → Rat → List (String × Rat)) : Prop :=
  ∀ scores id score a, (Dict.get (put scores id score) a).getD 0 =
    if id = a then combine ((Dict.get scores a).getD 0) score else (Dict.get scores a).getD 0

theorem putsBy_addScore : PutsBy (· + ·) addScore := by
  intro scores id score a
  by_cases h : id = a
  · rw [addScore, Dict.get_assign, if_pos h, if_pos h, Option.getD_some, h]
  · rw [addScore, Dict.get_assign, if_neg h, if_neg h]

theorem putsBy_raiseScore : PutsBy max raiseScore := by
  intro scores id score a
  rw [raiseScore]
  by_cases hlt : (Dict.get scores id).getD 0 < score
  · by_cases h : id = a
    · rw [if_pos hlt, Dict.get_assign, if_pos h, if_pos h, Option.getD_some, ← h,
        max_eq_right hlt.le]
    · rw [if_pos hlt, Dict.get_assign, if_neg h, if_neg h]
  · by_cases h : id = a
    · rw [if_neg hlt, if_pos h, ← h, max_eq_left (not_lt.mp hlt)]
    · rw [if_neg hlt, if_neg h]

section Places

variable {combine : Rat → Rat → Rat}
  {put : List (String × Rat) → String → Rat → List (String × Rat)} (hput : PutsBy combine put)
  (k : Nat) (a : String)

include hput

theorem getD_contribute (ranking : Ranking) (rank : Nat) (scores : List (String × Rat)) :
    (Dict.get (contribute k put rank scores ranking) a).getD 0 =
      (placesOf k a rank ranking).foldl combine ((Dict.get scores a).getD 0) := by
  induction ranking generalizing rank scores with
  | nil => rfl
  | cons pair ranking ih =>
      obtain ⟨id, score⟩ := pair
      rw [contribute, ih, hput]
      by_cases h : id = a
      · simp [placesOf, h]
      · simp [placesOf, h]

/-- The fused score of an id comes from its own places alone. -/
theorem getD_fuseWith (rankings : List Ranking) :
    (Dict.get (fuseWith k put rankings) a).getD 0 =
      (rankings.flatMap (placesOf k a 1)).foldl combine 0 := by
  suffices hfold : ∀ scores, (Dict.get (rankings.foldl (contribute k put 1) scores) a).getD 0 =
      (rankings.flatMap (placesOf k a 1)).foldl combine ((Dict.get scores a).getD 0) from hfold []
  induction rankings with
  | nil => exact fun _ => rfl
  | cons ranking rankings ih =>
      intro scores
      rw [List.foldl_cons, ih, List.flatMap_cons, List.foldl_append,
        getD_contribute hput k a ranking 1 scores]

end Places

section Ids

variable {put : List (String × Rat) → String → Rat → List (String × Rat)} (hput : Puts put)
  {k : Nat}

theorem reciprocal_pos (hk : 0 < k) (rank : Nat) : 0 < reciprocal k rank := by
  rw [reciprocal]
  exact one_div_pos.mpr (Nat.cast_pos.mpr (by omega))

include hput

theorem contribute_nodup (ranking : Ranking) {rank : Nat} {scores : List (String × Rat)}
    (h : (Dict.keys scores).Nodup) : (Dict.keys (contribute k put rank scores ranking)).Nodup := by
  induction ranking generalizing rank scores with
  | nil => exact h
  | cons pair ranking ih => exact ih (hput.nodup _ _ _ h)

theorem mem_contribute (hk : 0 < k) (ranking : Ranking) {rank : Nat}
    {scores : List (String × Rat)} {a : String} :
    a ∈ Dict.keys (contribute k put rank scores ranking) ↔ a ∈ Dict.keys scores ∨
      a ∈ ids ranking := by
  induction ranking generalizing rank scores with
  | nil => simp [contribute, ids]
  | cons pair ranking ih =>
      rw [contribute, ih, hput.keys _ _ _ _ (reciprocal_pos hk rank)]
      simp only [ids, List.map_cons, List.mem_cons]
      tauto

theorem fuseWith_nodup (rankings : List Ranking) : (Dict.keys (fuseWith k put rankings)).Nodup := by
  suffices hfold : ∀ scores, (Dict.keys scores).Nodup →
      (Dict.keys (rankings.foldl (contribute k put 1) scores)).Nodup from hfold [] List.nodup_nil
  induction rankings with
  | nil => exact fun _ h => h
  | cons ranking rankings ih => exact fun _ h => ih _ (contribute_nodup hput ranking h)

theorem mem_fuseWith (hk : 0 < k) (rankings : List Ranking) {a : String} :
    a ∈ Dict.keys (fuseWith k put rankings) ↔ ∃ ranking ∈ rankings, a ∈ ids ranking := by
  suffices hfold : ∀ scores, a ∈ Dict.keys (rankings.foldl (contribute k put 1) scores) ↔
      a ∈ Dict.keys scores ∨ ∃ ranking ∈ rankings, a ∈ ids ranking by
    rw [fuseWith, hfold []]
    simp [Dict.keys]
  induction rankings with
  | nil => simp
  | cons ranking rankings ih =>
      intro scores
      rw [List.foldl_cons, ih, mem_contribute hput hk]
      simp only [List.mem_cons, exists_eq_or_imp]
      tauto

end Ids

theorem ids_blendImportance (importances : Option (List (String × Rat))) (alpha : Rat)
    (scores : Ranking) : ids (blendImportance importances alpha scores) = ids scores := by
  rw [blendImportance.eq_def]
  split
  · rfl
  · split
    · rw [ids, List.map_map]
      rfl
    · rfl

theorem ids_sortDesc_perm (scores : Ranking) : (ids (sortDesc Prod.snd scores)).Perm (ids scores) :=
  (sortDesc_perm Prod.snd scores).map Prod.fst

section Fused

variable (rankings : List Ranking) (k : Int) (importances : Option (List (String × Rat)))
  (alpha : Rat)

theorem atLeast_pos (default : Nat) (hdefault : 0 < default) :
    0 < if k < 1 then default else k.toNat := by
  split <;> omega

theorem nodup_rrfFuse : (ids (rrfFuse rankings k importances alpha)).Nodup := by
  refine (ids_sortDesc_perm _).nodup_iff.mpr ?_
  rw [ids_blendImportance]
  exact fuseWith_nodup puts_addScore rankings

theorem mem_rrfFuse {a : String} :
    a ∈ ids (rrfFuse rankings k importances alpha) ↔ ∃ ranking ∈ rankings, a ∈ ids ranking := by
  rw [rrfFuse, (ids_sortDesc_perm _).mem_iff, ids_blendImportance]
  exact mem_fuseWith puts_addScore (atLeast_pos k 5 (by decide)) rankings

theorem nodup_combmaxFuse : (ids (combmaxFuse rankings k)).Nodup :=
  (ids_sortDesc_perm _).nodup_iff.mpr (fuseWith_nodup puts_raiseScore rankings)

theorem mem_combmaxFuse {a : String} :
    a ∈ ids (combmaxFuse rankings k) ↔ ∃ ranking ∈ rankings, a ∈ ids ranking := by
  rw [combmaxFuse, (ids_sortDesc_perm _).mem_iff]
  exact mem_fuseWith puts_raiseScore (atLeast_pos k 60 (by decide)) rankings

end Fused

open Storage

inductive HybridError where
  | outsideScope (outside held : Nat)
  | raised (error : PyError)
  deriving DecidableEq, Repr

def HybridError.message : HybridError → String
  | .outsideScope outside held =>
      s!"hybrid_search received {outside} namespace(s) outside the authorized scope " ++
        s!"(scope holds {held}); the caller assembled candidates it was not cleared to rank"
  | .raised _ => ""

inductive ScoreBasis where
  | fused | position
  deriving DecidableEq, Repr

structure ScoredCandidate where
  entry : MemoryEntry
  score : Rat
  basis : ScoreBasis
  distilledWeighted : Bool
  preweightRank : Option Nat
  deriving DecidableEq

/-- What a search runs on. -/
structure Engine (V : Type) where
  tables : TextTables
  okapi : Okapi
  /-- The accesses to the cache before the search, and before its second hop. -/
  accesses : List Access
  hopAccesses : List Access
  cosine : V → V → Option Rat
  recencyScore : MemoryEntry → Rat
  /-- The scores of the cross-encoder for the query, none where it is not available. -/
  predict : List MemoryEntry → Option (List Rat)
  bridgeTerms : List MemoryEntry → List Token
  py : Python
  dateFromisoformat : String → Option Int
  timestamp : Datetime → Rat

/-- The arguments of a search. -/
structure HybridQuery (V : Type) where
  query : String
  scope : List String
  embedder : Option (QueryEncoder V)
  queryEmbedding : Option V
  storedEmbeddings : List (String × V)
  bm25Candidates : Int
  vectorCandidates : Int
  rrfK : Int
  importanceAlpha : Rat
  topK : Int
  fusionMode : String
  prior : PriorOptions
  recencyWeight : Rat
  rerank : Bool
  rerankCandidates : Int
  rerankMinScore : Option Rat
  rerankMinKeep : Int
  bridgeHop : Bool
  distilledWeight : Option Rat

section Sources

variable {V : Type} (engine : Engine V) (args : HybridQuery V) (entries : List MemoryEntry)

def entryMap : List (String × MemoryEntry) := Dict.ofPairs (entries.map fun e => (e.id, e))

def bm25Lane : Ranking :=
  (bm25Search engine.tables engine.okapi (Bm25Cache.after engine.tables engine.accesses) args.query
    (entries.map lexicalOf) args.bm25Candidates).1

def denseLane : Ranking :=
  denseSearch engine.cosine (queryVector args.embedder args.queryEmbedding) args.storedEmbeddings
    (Dict.keys (entryMap entries)) args.vectorCandidates

def lexicalLane : Ranking :=
  lexicalFallback engine.tables (lexicalQuery engine.tables args.query) entries

/-- The sources that found something; the fallback is asked where none did. -/
def sourceRankings : List Ranking :=
  let rankings := [bm25Lane engine args entries, denseLane engine args entries].filter (· ≠ [])
  if rankings = [] then [lexicalLane engine args entries].filter (· ≠ []) else rankings

def relevanceFused : Ranking :=
  if args.fusionMode = "combmax" then combmaxFuse (sourceRankings engine args entries) args.rrfK
  else
    rrfFuse (sourceRankings engine args entries) args.rrfK
      (if args.importanceAlpha < 1 then
        some (Dict.ofPairs (entries.map fun e => (e.id, e.importance)))
      else none)
      args.importanceAlpha

def recencyLane : Ranking :=
  if 0 < args.recencyWeight then recencyRank engine.recencyScore entries else []

def fusedRanking : Ranking :=
  blendRecency (relevanceFused engine args entries) (recencyLane engine args entries)
    args.recencyWeight

/-- The fused ids as entries. -/
def fusedEntries : List MemoryEntry :=
  (fusedRanking engine args entries).filterMap fun pair => Dict.get (entryMap entries) pair.1

end Sources

section Rerank

variable {V : Type} (engine : Engine V) (args : HybridQuery V) (entries : List MemoryEntry)

/-- `cross_encode_scores`; scores of another number count as a failure. -/
def crossEncodeScores (rows : List MemoryEntry) : Option (List (MemoryEntry × Rat)) :=
  if rows = [] then some []
  else
    (engine.predict rows).bind fun scores =>
      if scores.length = rows.length then some (sortDesc Prod.snd (rows.zip scores)) else none

structure Hop where
  scored : List (MemoryEntry × Rat)
  tail : List MemoryEntry
  changed : Bool

def BRIDGE_SEEDS : Nat := 5
def BRIDGE_CANDIDATES : Nat := 30

def hopModel : CachedModel :=
  (buildOrReuseModel engine.tables (Bm25Cache.after engine.tables engine.hopAccesses)
    (entries.map lexicalOf)).1

/-- The rows of the tail that the second search finds and that hold a bridge term. -/
def freshRows (terms : List Token) (scored : Nat) (tail : List MemoryEntry) : List MemoryEntry :=
  let model := hopModel engine entries
  let query := String.ofList ([' '].intercalate terms) ++ " " ++ args.query
  let hits := rankModel engine.okapi model (tokenizeQuery engine.tables query)
    (scored + 3 * BRIDGE_CANDIDATES : Nat)
  let bridged := ((model.orderedIds.zip model.corpus).filter fun row =>
    row.2.any terms.contains).map Prod.fst
  (hits.filterMap fun hit =>
    if bridged.contains hit.1 then Dict.get (Dict.ofPairs (tail.map fun e => (e.id, e))) hit.1
    else none).take BRIDGE_CANDIDATES

def extendWithBridge (scored : List (MemoryEntry × Rat)) (tail : List MemoryEntry) : Hop :=
  if scored = [] ∨ tail = [] then ⟨scored, tail, false⟩
  else
    let terms := engine.bridgeTerms ((scored.take BRIDGE_SEEDS).map Prod.fst)
    if terms = [] then ⟨scored, tail, false⟩
    else
      let fresh := freshRows engine args entries terms scored.length tail
      if fresh = [] then ⟨scored, tail, false⟩
      else
        match crossEncodeScores engine fresh with
        | none | some [] => ⟨scored, tail, false⟩
        | some extra =>
            ⟨sortDesc Prod.snd (scored ++ extra),
              tail.filter fun e => !(extra.map fun pair => pair.1.id).contains e.id, true⟩

/-- What the cross-encoder's scores leave of the rows, in the new order. -/
def keptRows (hop : Hop) : List MemoryEntry :=
  match args.rerankMinScore with
  | none => hop.scored.map Prod.fst ++ hop.tail
  | some floor =>
      (hop.scored.zipIdx.filter fun row =>
        decide (row.2 < args.rerankMinKeep.toNat ∨ floor ≤ row.1.2)).map fun row => row.1.1

/-- The re-ranked rows, and whether the order is new. -/
def rerankStage (rows : List MemoryEntry) : List MemoryEntry × Bool :=
  if args.rerank = true ∧ rows ≠ [] then
    let input := rows.take (cutAt args.rerankCandidates rows.length)
    let tail := rows.drop (cutAt args.rerankCandidates rows.length)
    match crossEncodeScores engine input with
    | none => (rows, false)
    | some scored =>
        let hop :=
          if args.bridgeHop then extendWithBridge engine args entries scored tail
          else ⟨scored, tail, false⟩
        let kept := keptRows args hop
        (kept, hop.changed ||
          decide ((kept.take input.length).map MemoryEntry.id ≠ input.map MemoryEntry.id) ||
          decide (kept.length ≠ input.length + hop.tail.length))
  else (rows, false)

end Rerank

section Search

variable {V : Type} (engine : Engine V) (args : HybridQuery V) (entries : List MemoryEntry)

/-- The prior moved an entry, and did not only drop some. -/
def priorReordered (before after : List MemoryEntry) : Bool :=
  decide (after.map MemoryEntry.id ≠
    (before.map MemoryEntry.id).filter fun id => (after.map MemoryEntry.id).contains id)

/-- The score that explains a row's place. -/
def rowScores (fusedScores : Ranking) (basis : ScoreBasis) (rows : List MemoryEntry) : List Rat :=
  rows.zipIdx.map fun row =>
    match basis with
    | .position => 1 / ((1 + row.2 : Nat) : Rat)
    | .fused => (Dict.get fusedScores row.1.id).getD 0

def scoreStage (fusedScores : Ranking) (basis : ScoreBasis) (rows : List MemoryEntry) :
    Except PyError (List ScoredCandidate) :=
  let scores := rowScores fusedScores basis rows
  match args.distilledWeight.filter (· ≠ 1) with
  | some weight => do
      let preweightRank := Dict.ofPairs (rows.zipIdx.map fun row => (row.1.id, row.2))
      let weighted ← weightDistilled rows scores weight
      .ok ((weighted.take (cutAt args.topK weighted.length)).map fun row =>
        ⟨row.1, row.2.1, basis, row.2.2, Dict.get preweightRank row.1.id⟩)
  | none =>
      .ok (((rows.zip scores).take (cutAt args.topK rows.length)).map fun row =>
        ⟨row.1, row.2, basis, false, none⟩)

def hybridSearchScored : Except HybridError (List ScoredCandidate) :=
  if entries = [] then .ok []
  else
    let outside := (entries.map MemoryEntry.ns).dedup.filter fun ns => !args.scope.contains ns
    if outside ≠ [] then .error (.outsideScope outside.length args.scope.dedup.length)
    else if sourceRankings engine args entries = [] then .ok []
    else
      let fusedScores := Dict.ofPairs (fusedRanking engine args entries)
      let before := fusedEntries engine args entries
      match applyValidityPrior engine.py engine.dateFromisoformat engine.timestamp
          { args.prior with fusionScores := fusedScores } before with
      | .error error => .error (.raised error)
      | .ok eligible =>
          let (rows, reranked) := rerankStage engine args entries eligible
          let basis :=
            if priorReordered before eligible || reranked then ScoreBasis.position else .fused
          match scoreStage args fusedScores basis rows with
          | .error error => .error (.raised error)
          | .ok results => .ok results

end Search

end TrwMemory.Retrieval

import Mathlib.Algebra.Order.Ring.Rat
import Mathlib.Data.Prod.Lex
import Mathlib.Data.String.Basic
import TrwMemory.Library.OrderedDict
import TrwMemory.Library.StableSort
import TrwMemory.Models.Entry
import TrwMemory.Retrieval.Bm25

/-!
The sources that a hybrid search ranks beside BM25 (`retrieval/dense.py`, `retrieval/lexical.py`,
`retrieval/recency.py`), each with ids and scores, the best first, and the fusion of their
rankings (`retrieval/fusion.py`): reciprocal ranks summed or maximised over several rankings, and
the blend of the fused scores with recency.

The similarity, the query vector of an encoder and the decay of an age are parameters. Scores
are exact numbers; logging is not modelled.
-/
namespace TrwMemory.Retrieval

open Library

/-- Pairs of an id and a score, the best first. -/
abbrev Ranking := List (String × Rat)

def ids (ranking : Ranking) : List String := ranking.map Prod.fst

/-- `max(score for _, score in ranking)`; zero where there is none. -/
def maxScore : Ranking → Rat
  | [] => 0
  | (_, score) :: rest => rest.foldl (fun best pair => max best pair.2) score

/-- `{entry_id: rank}`, counted from zero. -/
def rankMap (ranking : Ranking) : List (String × Nat) := Dict.ofPairs (ids ranking).zipIdx

/-- The ids of the fused list and then those which only the recency list has. -/
def allIds (fused recency : Ranking) : List String :=
  ids fused ++ (ids recency).filter fun id => !(ids fused).contains id

section Blend

variable (fused recency : Ranking) (weight : Rat)

def relNorm : Ranking :=
  if 0 < maxScore fused then
    Dict.ofPairs (fused.map fun pair => (pair.1, pair.2 / maxScore fused))
  else []

def blendedScore (id : String) : Rat :=
  (1 - weight) * (Dict.get (relNorm fused) id).getD 0 +
    weight * (Dict.get (Dict.ofPairs recency) id).getD 0

def rankSentinel : Nat := (allIds fused recency).length + 1

/-- What the blended pairs are sorted by. -/
def blendKey (pair : String × Rat) : Rat ×ₗ Nat ×ₗ Nat ×ₗ String :=
  toLex (-pair.2, toLex ((Dict.get (rankMap fused) pair.1).getD (rankSentinel fused recency),
    toLex ((Dict.get (rankMap recency) pair.1).getD (rankSentinel fused recency), pair.1)))

/-- Recency has a weight, and there is something to blend. -/
def Blends : Prop := 0 < weight ∧ fused ≠ [] ∧ recency ≠ []

instance : Decidable (Blends fused recency weight) := inferInstanceAs (Decidable (_ ∧ _ ∧ _))

def blendRecency : Ranking :=
  if weight ≤ 0 ∨ fused = [] ∨ recency = [] then fused
  else sortBy (blendKey fused recency)
    ((allIds fused recency).map fun id => (id, blendedScore fused recency weight id))

end Blend

variable {fused recency : Ranking} {weight : Rat}

theorem getElem_of_rank {id : String} {rank : Nat} (h : Dict.get (rankMap fused) id = some rank) :
    (ids fused)[rank]? = some id :=
  List.mk_mem_zipIdx_iff_getElem?.mp (Dict.mem_of_mem_ofPairs (Dict.mem_of_get h))

theorem keys_zipIdx (l : List String) (n : Nat) : Dict.keys (l.zipIdx n) = l := by
  rw [Dict.keys, List.zipIdx_map_fst]

theorem rank_eq_none {id : String} : Dict.get (rankMap fused) id = none ↔ id ∉ ids fused := by
  rw [Dict.get_eq_none, rankMap, Dict.mem_keys_ofPairs, keys_zipIdx]

theorem pair_sublist_of_getElem {l : List String} {a b : String} {i j : Nat} (hij : i < j)
    (ha : l[i]? = some a) (hb : l[j]? = some b) : [a, b].Sublist l := by
  induction l generalizing i j with
  | nil => cases ha
  | cons c l ih =>
      obtain ⟨j, rfl⟩ := Nat.exists_eq_add_one.mpr (Nat.zero_lt_of_lt hij)
      have hb' : l[j]? = some b := by simpa using hb
      cases i with
      | zero =>
          obtain rfl : c = a := by simpa using ha
          exact (List.singleton_sublist.mpr (List.mem_of_getElem? hb')).cons_cons c
      | succ i =>
          have ha' : l[i]? = some a := by simpa using ha
          exact (ih (Nat.lt_of_succ_lt_succ hij) ha' hb').cons c

/-- Of two ids in the order of their ranks, the first stands before the second. -/
theorem sublist_of_rank_le {a b : String} {i j : Nat} (hi : Dict.get (rankMap fused) a = some i)
    (hj : Dict.get (rankMap fused) b = some j) (hij : i ≤ j) (hne : a ≠ b) :
    [a, b].Sublist (ids fused) := by
  have ha := getElem_of_rank hi
  have hb := getElem_of_rank hj
  refine pair_sublist_of_getElem (hij.lt_of_ne ?_) ha hb
  rintro rfl
  exact hne (Option.some.inj (ha.symm.trans hb))

theorem rank_lt_sentinel {id : String} {rank : Nat} (h : Dict.get (rankMap fused) id = some rank) :
    rank < rankSentinel fused recency := by
  obtain ⟨hlt, -⟩ := List.getElem?_eq_some_iff.mp (getElem_of_rank h)
  rw [rankSentinel, allIds, List.length_append]
  omega

theorem nodup_allIds (hf : (ids fused).Nodup) (hr : (ids recency).Nodup) :
    (allIds fused recency).Nodup := by
  refine List.nodup_append.mpr ⟨hf, hr.filter _, fun a ha b hb heq => ?_⟩
  have hmem := (List.mem_filter.mp hb).2
  rw [← heq, List.contains_iff_mem.mpr ha] at hmem
  cases hmem

theorem mem_allIds {id : String} :
    id ∈ allIds fused recency ↔ id ∈ ids fused ∨ id ∈ ids recency := by
  by_cases h : id ∈ ids fused <;> simp [allIds, h]

theorem blendRecency_of_blends (h : Blends fused recency weight) :
    blendRecency fused recency weight = sortBy (blendKey fused recency)
      ((allIds fused recency).map fun id => (id, blendedScore fused recency weight id)) := by
  rw [blendRecency, if_neg]
  rintro (hw | hf | hr)
  · exact absurd h.1 (not_lt.mpr hw)
  · exact h.2.1 hf
  · exact h.2.2 hr

theorem blendRecency_of_not_blends (h : ¬ Blends fused recency weight) :
    blendRecency fused recency weight = fused := by
  rw [blendRecency, if_pos]
  by_contra hnone
  simp only [not_or, not_le] at hnone
  exact h hnone

theorem ids_blendRecency_perm (h : Blends fused recency weight) :
    (ids (blendRecency fused recency weight)).Perm (allIds fused recency) := by
  have hperm := (sortBy_perm (blendKey fused recency)
    ((allIds fused recency).map fun id => (id, blendedScore fused recency weight id))).map Prod.fst
  have hids : ∀ l : List String,
      (l.map fun id => (id, blendedScore fused recency weight id)).map Prod.fst = l := by
    intro l
    rw [List.map_map]
    exact List.map_id l
  rw [hids] at hperm
  rw [blendRecency_of_blends h]
  exact hperm

/-- Two tied pairs stand in the order of their ids in the fused list, and one that the list does
not have stands last. -/
def TiesFused (fused : Ranking) (a b : String × Rat) : Prop :=
  a.2 = b.2 → b.1 ∈ ids fused →
    a.1 ∈ ids fused ∧ (a.1 ≠ b.1 → [a.1, b.1].Sublist (ids fused))

theorem tiesFused_of_key_le {a b : String × Rat}
    (h : blendKey fused recency a ≤ blendKey fused recency b) : TiesFused fused a b := by
  intro hscore hb
  rw [blendKey, blendKey, Prod.Lex.toLex_le_toLex] at h
  obtain hlt | ⟨-, h⟩ := h
  · exact absurd (neg_lt_neg_iff.mp hlt) (by rw [hscore]; exact lt_irrefl _)
  have hrank := (Prod.Lex.toLex_le_toLex.mp h).elim le_of_lt fun heq => heq.1.le
  obtain ⟨j, hj⟩ := Option.ne_none_iff_exists'.mp (mt rank_eq_none.mp (not_not.mpr hb))
  cases hi : Dict.get (rankMap fused) a.1 with
  | none =>
      have hj' : j < rankSentinel fused recency := rank_lt_sentinel hj
      simp only [hi, hj, Option.getD_none, Option.getD_some] at hrank
      omega
  | some i =>
      simp only [hi, hj, Option.getD_some] at hrank
      exact ⟨List.mem_of_getElem? (getElem_of_rank hi), sublist_of_rank_le hi hj hrank⟩

theorem blendRecency_ties (h : Blends fused recency weight) :
    (blendRecency fused recency weight).Pairwise (TiesFused fused) := by
  rw [blendRecency_of_blends h]
  exact (sortBy_sorted (blendKey fused recency) _).imp fun hle => tiesFused_of_key_le hle

/-- Where there is something to blend, the blend is a reordering of both lists' ids in which
tied ids keep their fused order. Otherwise the fused list is returned as it is. -/
theorem blendRecency_reorders (fused recency : Ranking) (weight : Rat) :
    (Blends fused recency weight →
      (ids (blendRecency fused recency weight)).Perm (allIds fused recency) ∧
      (∀ id, id ∈ ids (blendRecency fused recency weight) ↔ id ∈ ids fused ∨ id ∈ ids recency) ∧
      ((ids fused).Nodup → (ids recency).Nodup →
        (ids (blendRecency fused recency weight)).Nodup) ∧
      (blendRecency fused recency weight).Pairwise (TiesFused fused)) ∧
    (¬ Blends fused recency weight → blendRecency fused recency weight = fused) := by
  refine ⟨fun h => ?_, blendRecency_of_not_blends⟩
  have hperm := ids_blendRecency_perm h
  refine ⟨hperm, fun id => hperm.mem_iff.trans mem_allIds, fun hf hr => ?_, blendRecency_ties h⟩
  exact hperm.nodup_iff.mpr (nodup_allIds hf hr)

/-- Without a weight, an id that only the recency list has is not in the result. -/
theorem blendRecency_no_weight :
    ¬ (ids (blendRecency [("a", 1)] [("b", 1)] 0)).Perm (allIds [("a", 1)] [("b", 1)]) := by
  rw [blendRecency_of_not_blends fun h => absurd h.1 (lt_irrefl 0)]
  decide

def lexicalOf (entry : MemoryEntry) : LexicalEntry :=
  ⟨entry.id, entry.content, entry.detail, entry.tags⟩

/-- A score for every candidate that has one, under its id, the best first. -/
def rankBy {α : Type} (idOf : α → String) (score : α → Option Rat) (candidates : List α) :
    Ranking :=
  sortDesc Prod.snd (candidates.filterMap fun a => (score a).map fun s => (idOf a, s))

theorem mem_rankBy {α : Type} {idOf : α → String} {score : α → Option Rat} {candidates : List α}
    {pair : String × Rat} :
    pair ∈ rankBy idOf score candidates ↔
      ∃ a ∈ candidates, idOf a = pair.1 ∧ score a = some pair.2 := by
  rw [rankBy, (sortDesc_perm _ _).mem_iff, List.mem_filterMap]
  constructor
  · rintro ⟨a, ha, h⟩
    obtain ⟨s, hs, rfl⟩ := Option.map_eq_some_iff.mp h
    exact ⟨a, ha, rfl, hs⟩
  · rintro ⟨a, ha, hid, hs⟩
    exact ⟨a, ha, by rw [hs, Option.map_some, hid]⟩

structure QueryEncoder (V : Type) where
  available : Bool
  /-- `embed_query`; none where it raises or gives nothing. -/
  embedQuery : Option V

section Dense

variable {V : Type}

def queryVector (embedder : Option (QueryEncoder V)) (queryEmbedding : Option V) : Option V :=
  queryEmbedding.or ((embedder.filter (·.available)).bind (·.embedQuery))

/-- The similarity of the vector under an id, none where there is no vector or the dimensions
differ. -/
def denseScore (cosine : V → V → Option Rat) (query : V) (stored : List (String × V))
    (id : String) : Option Rat :=
  (Dict.get stored id).bind (cosine query)

def denseSearch (cosine : V → V → Option Rat) (query : Option V) (stored : List (String × V))
    (entryIds : List String) (topK : Int) : Ranking :=
  match query with
  | none => []
  | some query =>
      let results := rankBy id (denseScore cosine query stored) entryIds
      results.take (cutAt topK results.length)

end Dense

/-- `_STOPWORDS`. -/
def LEXICAL_STOPWORDS : List Token :=
  ["a", "an", "and", "are", "as", "at", "be", "by", "do", "does", "for", "from", "how", "i", "in",
    "is", "it", "its", "me", "my", "of", "on", "or", "our", "that", "the", "this", "to", "was",
    "we", "what", "when", "where", "which", "who", "why", "with", "you", "your"].map String.toList

def isWordChar (c : Char) : Bool := c.isLower || c.isDigit

/-- `tokenize`: runs of `[a-z0-9]` of the lower-cased text. -/
def lexicalTokens (t : TextTables) (text : List Char) : List Token :=
  ((t.lower (splitCamel text)).splitOnP fun c => !isWordChar c).filter fun word => !word.isEmpty

/-- `tokenize_query` of the fallback. -/
def lexicalQuery (t : TextTables) (query : String) : List Token :=
  let tokens := lexicalTokens t (boundedQuery t query.toList)
  let meaningful := tokens.filter fun token => !LEXICAL_STOPWORDS.contains token
  if meaningful ≠ [] then meaningful else tokens

def lexicalRelevance (t : TextTables) (query : List Token) (entry : MemoryEntry) : Rat :=
  if query.isEmpty then 1
  else
    let content := lexicalTokens t entry.content.toList
    let detail := lexicalTokens t entry.detail.toList
    let tags := entry.tags.flatMap fun tag => lexicalTokens t tag.toList
    let weighted := (query.map fun token =>
      (if content.contains token then 3 else 0) + (if tags.contains token then 2 else 0) +
        (if detail.contains token then 1 else 0)).sum
    min 1 ((weighted : Nat) / ((query.length * 3 : Nat) : Rat))

/-- The entries that share a word with the query; no source for a query without words. -/
def lexicalFallback (t : TextTables) (query : List Token) (entries : List MemoryEntry) : Ranking :=
  if query.isEmpty then []
  else
    rankBy MemoryEntry.id (fun e =>
      if 0 < lexicalRelevance t query e then some (lexicalRelevance t query e) else none) entries

/-- `recency_rank`; every entry has an id. -/
def recencyRank (recencyScore : MemoryEntry → Rat) (entries : List MemoryEntry) : Ranking :=
  rankBy MemoryEntry.id (fun e => some (recencyScore e)) entries

/-- The model that a search of these entries reads was built from them, in some order. -/
theorem buildOrReuseModel_built (t : TextTables) (accesses : List Access)
    (entries : List LexicalEntry) :
    ∃ built, built.Perm entries ∧
      (buildOrReuseModel t (Bm25Cache.after t accesses) entries).1 = buildModel t built := by
  rw [buildOrReuseModel]
  split
  · rename_i hentries
    cases hlookup : (Bm25Cache.after t accesses).lookup (signatureOf entries) with
    | none => exact ⟨entries, List.Perm.refl _, rfl⟩
    | some model =>
        obtain ⟨built, hbuilt, hsignature, hmodel⟩ :=
          Bm25Cache.after_sound accesses _ (Dict.mem_of_get hlookup)
        exact ⟨built, perm_of_signature hbuilt hentries hsignature, hmodel⟩
  · exact ⟨entries, List.Perm.refl _, rfl⟩

end TrwMemory.Retrieval

import Mathlib.Algebra.Order.Ring.Rat
import Mathlib.Data.Finset.Dedup
import Mathlib.Data.Nat.Cast.Order.Ring
import TrwMemory.Library.OrderedDict
import TrwMemory.Library.StableSort

/-!
The lexical lane (`retrieval/bm25.py`): the tokens of an entry and of a query, the cache of
models, and the search. What a word, a space and a letter is, lower-casing, and the third-party
scorer are parameters; scores are exact numbers. The scorer gives each document of a corpus a
score that does not depend on the order of the corpus. Logging is not modelled.

What the cache of lexical models changes. Every cached model was built from the same entries as
the search that reuses it, but in the order of an earlier search; the ranking cuts a stable
sort, so the order of the build shows among rows of one score.
-/
namespace TrwMemory.Retrieval

open Library

abbrev Token := List Char

/-- What an entry's lexical row is made of. -/
structure LexicalEntry where
  id : String
  content : String
  detail : String
  tags : List String
  deriving DecidableEq

/-- The character tables. -/
structure TextTables where
  isWord : Char → Bool
  isSpace : Char → Bool
  isAlpha : Char → Bool
  lower : List Char → List Char

/-- `BM25Okapi(corpus).get_scores(query)`, document by document. -/
structure Okapi where
  score : List (List Token) → List Token → List Token → Rat
  score_perm : ∀ {corpus corpus'}, corpus.Perm corpus' → score corpus = score corpus'

/-- `_QUERY_STOPWORDS`. -/
def QUERY_STOPWORDS : List Token :=
  ["a", "an", "the", "and", "or", "but", "if", "then", "than", "so", "as", "of", "to", "in",
    "on", "at", "by", "for", "from", "with", "about", "into", "over", "after", "before",
    "between", "under", "during", "without", "within", "is", "are", "was", "were", "be", "been",
    "being", "am", "do", "does", "did", "done", "doing", "have", "has", "had", "having", "can",
    "could", "may", "might", "must", "shall", "should", "will", "would", "i", "me", "my", "mine",
    "we", "us", "our", "ours", "you", "your", "yours", "he", "him", "his", "she", "her", "hers",
    "it", "its", "they", "them", "their", "theirs", "this", "that", "these", "those", "there",
    "here", "who", "whom", "whose", "which", "what", "when", "where", "why", "how", "not", "no",
    "nor", "yes", "any", "some", "all", "each", "every", "either", "neither",
    "both"].map String.toList

def MAX_QUERY_CHARS : Nat := 1000
def MAX_QUERY_TERMS : Nat := 64

def isLowerOrDigit (c : Char) : Bool := c.isLower || c.isDigit

/-- `_CAMEL_RE.sub(" ", text)`. -/
def splitCamel : List Char → List Char
  | a :: b :: rest =>
      if isLowerOrDigit a && b.isUpper then a :: ' ' :: splitCamel (b :: rest)
      else a :: splitCamel (b :: rest)
  | rest => rest

section Tokens

variable (t : TextTables)

def normalizeText (text : List Char) : List Char :=
  (t.lower (splitCamel text)).map fun c =>
    if t.isWord c || t.isSpace c || c == '-' then c else ' '

/-- `text.split()`. -/
def words (text : List Char) : List Token :=
  (text.splitOnP t.isSpace).filter fun word => !word.isEmpty

/-- `token[-n:]`. -/
def lastChars (n : Nat) (token : Token) : List Char := token.drop (token.length - n)

/-- `base[:-1]` where a consonant is doubled at the end. -/
def undouble (base : Token) : Token :=
  match base.reverse with
  | a :: b :: _ =>
      if 3 < base.length ∧ a = b ∧ ¬ "aeiou".toList.contains a then base.dropLast else base
  | _ => base

def stemSuffix (token : Token) : List Token → Token
  | [] => token
  | suffix :: suffixes =>
      if suffix.length + 3 < token.length ∧ suffix.isSuffixOf token then
        undouble (token.take (token.length - suffix.length))
      else stemSuffix token suffixes

/-- The letters before a final `es` make it a syllable of its own. -/
def isSibilant (token : Token) : Bool :=
  let stem := token.take (token.length - 2)
  "xz".toList.contains (stem.getLastD ' ') ||
    ["ss".toList, "ch".toList, "sh".toList].contains (lastChars 2 stem)

def stemToken (token : Token) : Token :=
  if ¬ (token.all t.isAlpha ∧ token ≠ []) ∨ token.length < 5 then token
  else if "ies".toList.isSuffixOf token then token.take (token.length - 3) ++ ['y']
  else if "ss".toList.isSuffixOf token then token
  else if "es".toList.isSuffixOf token ∧ isSibilant token then token.take (token.length - 2)
  else if "s".toList.isSuffixOf token then token.dropLast
  else stemSuffix token ["edly".toList, "ing".toList, "ed".toList, "ly".toList]

def withHyphenParts (tokens : List Token) : List Token :=
  tokens.flatMap fun token => token :: if token.contains '-' then token.splitOn '-' else []

def splitIdentifiers (tokens : List Token) : List Token :=
  tokens.flatMap fun token =>
    token :: if token.contains '_' then (token.splitOn '_').filter (!·.isEmpty) else []

def tokenizeEntry (entry : LexicalEntry) : List Token :=
  let tags := [' '].intercalate
    (withHyphenParts (entry.tags.map fun tag => normalizeText t tag.toList))
  let text := normalizeText t entry.content.toList ++ ' ' ::
    normalizeText t entry.detail.toList ++ ' ' :: tags
  (splitIdentifiers (words t text)).map (stemToken t)

def boundedQuery (query : List Char) : List Char :=
  let chunks := words t (query.take MAX_QUERY_CHARS)
  if query.length ≤ MAX_QUERY_CHARS ∧ chunks.length ≤ MAX_QUERY_TERMS then query
  else [' '].intercalate (chunks.take MAX_QUERY_TERMS)

/-- Function words are dropped unless nothing else is left. -/
def tokenizeQuery (query : String) : List Token :=
  let tokenized := splitIdentifiers
    (withHyphenParts (words t (normalizeText t (boundedQuery t query.toList))))
  let content := tokenized.filter fun token => !QUERY_STOPWORDS.contains token
  (if content ≠ [] then content else tokenized).map (stemToken t)

end Tokens

/-- What identifies a cached corpus. -/
abbrev CorpusSignature := Finset LexicalEntry

/-- A cached model: the ids and the tokenized rows in the order in which it was built. -/
structure CachedModel where
  orderedIds : List String
  corpus : List (List Token)

/-- The cache, the most recently used model last. -/
abbrev Bm25Cache := List (CorpusSignature × CachedModel)

def BM25_CACHE_MAX_MODELS : Nat := 8
def BM25_CACHE_MAX_ROWS : Nat := 200000

def signatureOf (entries : List LexicalEntry) : CorpusSignature := entries.toFinset

/-- No id stands for two entries. -/
def isUnambiguous (entries : List LexicalEntry) : Bool :=
  decide (entries.map LexicalEntry.id).Nodup

namespace Bm25Cache

def rows (cache : Bm25Cache) : Nat := (cache.map fun pair => pair.2.orderedIds.length).sum

/-- The least recently used models are dropped while a bound is exceeded. -/
def evict : Bm25Cache → Bm25Cache
  | [] => []
  | [pair] => [pair]
  | pair :: rest =>
      if BM25_CACHE_MAX_MODELS < (pair :: rest).length ∨
          BM25_CACHE_MAX_ROWS < rows (pair :: rest) then evict rest
      else pair :: rest

def lookup (cache : Bm25Cache) (signature : CorpusSignature) : Option CachedModel :=
  Dict.get cache signature

/-- `move_to_end` on a hit. -/
def touch (cache : Bm25Cache) (signature : CorpusSignature) : Bm25Cache :=
  match cache.lookup signature with
  | none => cache
  | some model => cache.filter (fun pair => decide (pair.1 ≠ signature)) ++ [(signature, model)]

/-- `_cache_store`. -/
def store (cache : Bm25Cache) (signature : CorpusSignature) (model : CachedModel) : Bm25Cache :=
  evict (cache.filter (fun pair => decide (pair.1 ≠ signature)) ++ [(signature, model)])

end Bm25Cache

section Search

variable (t : TextTables) (okapi : Okapi)

def buildModel (entries : List LexicalEntry) : CachedModel :=
  ⟨entries.map LexicalEntry.id, entries.map (tokenizeEntry t)⟩

/-- `_build_or_reuse_model`. -/
def buildOrReuseModel (cache : Bm25Cache) (entries : List LexicalEntry) :
    CachedModel × Bm25Cache :=
  if isUnambiguous entries then
    match cache.lookup (signatureOf entries) with
    | some model => (model, cache.touch (signatureOf entries))
    | none =>
        (buildModel t entries, cache.store (signatureOf entries) (buildModel t entries))
  else (buildModel t entries, cache)

/-- The size of `a & b` and of `a | b` for two sets of tokens. -/
def overlap (a b : List Token) : Nat := (a.dedup.filter (b.contains ·)).length

def unionSize (a b : List Token) : Nat := (a ++ b).dedup.length

def jaccard (query tokens : List Token) : Rat :=
  (overlap query tokens : Rat) / unionSize query tokens

/-- `l[:top_k]`. -/
def cutAt (topK : Int) (length : Nat) : Nat :=
  if 0 ≤ topK then topK.toNat else (length + topK).toNat

/-- The ranking of a model's rows; the ids and the rows are in the model's build order. -/
def rankModel (model : CachedModel) (query : List Token) (topK : Int) : List (String × Rat) :=
  let scored := (model.orderedIds.zip model.corpus).filter fun row => row.1 ≠ ""
  let paired := scored.map fun row => (row.1, okapi.score model.corpus query row.2)
  if paired.all fun pair => decide (pair.2 ≤ 0) then
    let fallback := ((Dict.ofPairs scored).filter fun row => 0 < overlap query row.2).map
      fun row => (row.1, jaccard query row.2)
    (sortDesc Prod.snd fallback).take (cutAt topK fallback.length)
  else
    let results := (sortDesc Prod.snd paired).filter fun pair => decide (0 < pair.2)
    results.take (cutAt topK results.length)

/-- `bm25_search`, with the cache it leaves. -/
def bm25Search (cache : Bm25Cache) (query : String) (entries : List LexicalEntry) (topK : Int) :
    List (String × Rat) × Bm25Cache :=
  if entries = [] then ([], cache)
  else
    let (model, cache) := buildOrReuseModel t cache entries
    (rankModel okapi model (tokenizeQuery t query) topK, cache)

end Search

/-- What a search does to the cache. Searches of several threads interleave at these. -/
inductive Access where
  | reuse (entries : List LexicalEntry)
  | store (entries : List LexicalEntry)

namespace Bm25Cache

variable (t : TextTables)

def access (cache : Bm25Cache) : Access → Bm25Cache
  | .reuse entries => if isUnambiguous entries then cache.touch (signatureOf entries) else cache
  | .store entries =>
      if isUnambiguous entries then cache.store (signatureOf entries) (buildModel t entries)
      else cache

/-- The cache after some accesses. -/
def after (accesses : List Access) : Bm25Cache := accesses.foldl (access t) []

/-- Every model was built from entries with the signature it is kept under. -/
def Sound (cache : Bm25Cache) : Prop :=
  ∀ pair ∈ cache, ∃ entries, isUnambiguous entries = true ∧ pair.1 = signatureOf entries ∧
    pair.2 = buildModel t entries

variable {t}

theorem evict_subset (cache : Bm25Cache) : evict cache ⊆ cache := by
  induction cache with
  | nil => exact List.Subset.refl _
  | cons pair rest ih =>
      cases rest with
      | nil => exact List.Subset.refl _
      | cons next rest =>
          unfold evict
          split
          · exact fun p hp => List.mem_cons_of_mem _ (ih hp)
          · exact List.Subset.refl _

theorem Sound.renewed {cache : Bm25Cache} (h : Sound t cache) {entries : List LexicalEntry}
    {model : CachedModel}
    (hmodel : ∃ built, isUnambiguous built = true ∧ signatureOf entries = signatureOf built ∧
      model = buildModel t built) :
    Sound t (cache.filter (fun pair => decide (pair.1 ≠ signatureOf entries)) ++
      [(signatureOf entries, model)]) := by
  intro pair hpair
  rcases List.mem_append.mp hpair with hold | hnew
  · exact h pair (List.mem_of_mem_filter hold)
  · rw [List.mem_singleton.mp hnew]
    exact hmodel

theorem Sound.access {cache : Bm25Cache} (h : Sound t cache) (a : Access) :
    Sound t (cache.access t a) := by
  cases a with
  | reuse entries =>
      unfold Bm25Cache.access
      dsimp only
      split
      · unfold touch
        split
        · exact h
        · rename_i model hmodel
          exact h.renewed (h _ (Dict.mem_of_get hmodel))
      · exact h
  | store entries =>
      unfold Bm25Cache.access
      dsimp only
      split
      · rename_i hentries
        intro pair hpair
        exact h.renewed ⟨entries, hentries, rfl, rfl⟩ pair (evict_subset _ hpair)
      · exact h

theorem after_sound (accesses : List Access) : Sound t (after t accesses) := by
  suffices hfold : ∀ cache, Sound t cache → Sound t (accesses.foldl (Bm25Cache.access t) cache) from
    hfold [] fun pair hpair => nomatch hpair
  induction accesses with
  | nil => exact fun _ h => h
  | cons a accesses ih => exact fun cache h => ih _ (h.access a)

end Bm25Cache

/-- What a search leaves in the cache is what one access leaves, or nothing new. -/
theorem bm25Search_access (t : TextTables) (okapi : Okapi) (cache : Bm25Cache) (query : String)
    (entries : List LexicalEntry) (topK : Int) :
    (bm25Search t okapi cache query entries topK).2 = cache ∨
      ∃ a, (bm25Search t okapi cache query entries topK).2 = cache.access t a := by
  unfold bm25Search
  split
  · exact .inl rfl
  · dsimp only [buildOrReuseModel]
    split
    · rename_i hentries
      split
      · exact .inr ⟨.reuse entries, (if_pos hentries).symm⟩
      · exact .inr ⟨.store entries, (if_pos hentries).symm⟩
    · exact .inl rfl

section Rank

variable (okapi : Okapi) (query : List Token)

/-- The rows that can be ranked: those with an id. -/
def CachedModel.rows (model : CachedModel) : List (String × List Token) :=
  (model.orderedIds.zip model.corpus).filter fun row => row.1 ≠ ""

/-- Whether the model's own scores rank nothing. -/
def CachedModel.isFlat (model : CachedModel) : Bool :=
  model.rows.all fun row => decide (okapi.score model.corpus query row.2 ≤ 0)

/-- What a row is ranked by: the scorer's score, or the share of common tokens where the scorer
ranks nothing. -/
def CachedModel.weight (model : CachedModel) (row : String × List Token) : Rat :=
  if model.isFlat okapi query then jaccard query row.2
  else okapi.score model.corpus query row.2

/-- The rows that are ranked. -/
def CachedModel.candidates (model : CachedModel) : List (String × List Token) :=
  model.rows.filter fun row => decide (0 < model.weight okapi query row)

/-- The ids of one weight, in the order in which the model was built. -/
def CachedModel.idsAt (model : CachedModel) (s : Rat) : List String :=
  ((model.candidates okapi query).filter fun row =>
    decide (model.weight okapi query row = s)).map Prod.fst

/-- The places that rows of larger weight leave before the cut. -/
def CachedModel.room (model : CachedModel) (topK : Int) (s : Rat) : Nat :=
  cutAt topK (model.candidates okapi query).length -
    (model.candidates okapi query).countP fun row => decide (s < model.weight okapi query row)

/-- Rows of one weight come in the same order in both models, as far as there is room. -/
def SameTies (model fresh : CachedModel) (topK : Int) : Prop :=
  ∀ s, (model.idsAt okapi query s).take (fresh.room okapi query topK s) =
    (fresh.idsAt okapi query s).take (fresh.room okapi query topK s)

end Rank

section

variable {okapi : Okapi} {query : List Token}

theorem jaccard_pos_iff (query tokens : List Token) :
    0 < jaccard query tokens ↔ 0 < overlap query tokens := by
  unfold jaccard
  constructor
  · intro h
    refine Nat.pos_of_ne_zero fun hzero => ?_
    rw [hzero, Nat.cast_zero, zero_div] at h
    exact lt_irrefl _ h
  · intro h
    obtain ⟨token, htoken⟩ := List.exists_mem_of_length_pos h
    have hmem : token ∈ (query ++ tokens).dedup := by
      rw [List.mem_dedup, List.mem_append]
      exact .inl (List.mem_dedup.mp (List.mem_of_mem_filter htoken))
    exact div_pos (Nat.cast_pos.mpr h) (Nat.cast_pos.mpr (List.length_pos_of_mem hmem))

/-- The ranking cuts the stable sort of the ranked rows by their weights. -/
theorem rankModel_eq (model : CachedModel) (hids : (model.rows.map Prod.fst).Nodup)
    (topK : Int) :
    rankModel okapi model query topK =
      (sortDesc Prod.snd ((model.candidates okapi query).map fun row =>
        (row.1, model.weight okapi query row))).take
          (cutAt topK (model.candidates okapi query).length) := by
  unfold rankModel
  dsimp only
  cases hflat : model.isFlat okapi query with
  | true =>
      have hall : ((model.rows.map fun row => (row.1, okapi.score model.corpus query row.2)).all
          fun pair => decide (pair.2 ≤ 0)) = true := by
        rw [List.all_map]
        exact hflat
      have hweight : model.weight okapi query = fun row => jaccard query row.2 :=
        funext fun row => if_pos hflat
      rw [CachedModel.rows] at hall hids
      rw [if_pos hall, Dict.ofPairs_of_nodup hids]
      simp only [CachedModel.candidates, hweight, jaccard_pos_iff, List.length_map,
        CachedModel.rows]
  | false =>
      have hsome : ¬ ((model.rows.map fun row => (row.1, okapi.score model.corpus query row.2)).all
          fun pair => decide (pair.2 ≤ 0)) = true := by
        rw [List.all_map, Bool.not_eq_true]
        exact hflat
      have hweight : model.weight okapi query = fun row => okapi.score model.corpus query row.2 :=
        funext fun row => if_neg (by rw [hflat]; decide)
      rw [CachedModel.rows] at hsome
      rw [if_neg hsome, filter_sortDesc, List.filter_map, (sortDesc_perm _ _).length_eq,
        List.length_map]
      simp only [CachedModel.candidates, hweight, CachedModel.rows]
      rfl

/-- The ranked pairs of one weight. -/
theorem classOf_candidates (model : CachedModel) (s : Rat) :
    classOf Prod.snd s ((model.candidates okapi query).map fun row =>
      (row.1, model.weight okapi query row)) =
        (model.idsAt okapi query s).map fun id => (id, s) := by
  rw [classOf, List.filter_map, CachedModel.idsAt, List.map_map]
  refine List.map_congr_left fun row hrow => ?_
  have hs : model.weight okapi query row = s := of_decide_eq_true (List.mem_filter.mp hrow).2
  exact congrArg (Prod.mk row.1) hs

theorem countP_candidates (model : CachedModel) (s : Rat) :
    ((model.candidates okapi query).map fun row => (row.1, model.weight okapi query row)).countP
        (fun pair => decide (s < pair.2)) =
      (model.candidates okapi query).countP fun row =>
        decide (s < model.weight okapi query row) := by
  rw [List.countP_map]
  rfl

variable {t : TextTables} {built entries : List LexicalEntry}

theorem rows_buildModel (t : TextTables) (entries : List LexicalEntry) :
    (buildModel t entries).rows =
      (entries.map fun e => (e.id, tokenizeEntry t e)).filter fun row => row.1 ≠ "" := by
  rw [CachedModel.rows, buildModel, List.zip_map']

theorem rows_perm (h : built.Perm entries) :
    (buildModel t built).rows.Perm (buildModel t entries).rows := by
  rw [rows_buildModel, rows_buildModel]
  exact (h.map _).filter _

theorem rows_nodup (h : isUnambiguous entries = true) :
    ((buildModel t entries).rows.map Prod.fst).Nodup := by
  rw [rows_buildModel]
  refine (List.filter_sublist.map Prod.fst).nodup ?_
  rw [List.map_map]
  exact of_decide_eq_true h

theorem score_buildModel (h : built.Perm entries) :
    okapi.score (buildModel t built).corpus = okapi.score (buildModel t entries).corpus :=
  okapi.score_perm (h.map _)

theorem isFlat_perm (h : built.Perm entries) :
    (buildModel t built).isFlat okapi query = (buildModel t entries).isFlat okapi query := by
  rw [CachedModel.isFlat, CachedModel.isFlat, score_buildModel h]
  exact (rows_perm h).all_eq

theorem weight_perm (h : built.Perm entries) :
    (buildModel t built).weight okapi query = (buildModel t entries).weight okapi query := by
  funext row
  rw [CachedModel.weight, CachedModel.weight, isFlat_perm h, score_buildModel h]

theorem candidates_perm (h : built.Perm entries) :
    ((buildModel t built).candidates okapi query).Perm
      ((buildModel t entries).candidates okapi query) := by
  rw [CachedModel.candidates, CachedModel.candidates, weight_perm h]
  exact (rows_perm h).filter _

/-- Two builds of the same entries rank alike exactly when ties within the cut do. -/
theorem rankModel_eq_iff (t : TextTables) (okapi : Okapi) (query : List Token)
    (hperm : built.Perm entries) (hbuilt : isUnambiguous built = true)
    (hentries : isUnambiguous entries = true) (topK : Int) :
    rankModel okapi (buildModel t built) query topK =
        rankModel okapi (buildModel t entries) query topK ↔
      SameTies okapi query (buildModel t built) (buildModel t entries) topK := by
  have hpairs : (((buildModel t entries).candidates okapi query).map fun row =>
        (row.1, (buildModel t entries).weight okapi query row)).Perm
      (((buildModel t built).candidates okapi query).map fun row =>
        (row.1, (buildModel t built).weight okapi query row)) := by
    rw [weight_perm hperm]
    exact (candidates_perm hperm.symm).map _
  have hinj : ∀ s : Rat, Function.Injective fun id : String => (id, s) :=
    fun _ _ _ h => (Prod.mk.inj h).1
  rw [rankModel_eq _ (rows_nodup hbuilt), rankModel_eq _ (rows_nodup hentries), eq_comm,
    (candidates_perm hperm).length_eq, take_sortDesc_eq_iff hpairs]
  refine forall_congr' fun s => ?_
  rw [classOf_candidates, classOf_candidates, countP_candidates, ← List.map_take,
    ← List.map_take, eq_comm, (List.map_injective_iff.mpr (hinj s)).eq_iff]
  rfl

/-- Unambiguous entries with one signature are the same entries. -/
theorem perm_of_signature (hbuilt : isUnambiguous built = true)
    (hentries : isUnambiguous entries = true) (h : signatureOf entries = signatureOf built) :
    built.Perm entries := by
  have hnodup : ∀ {l : List LexicalEntry}, isUnambiguous l = true → l.Nodup :=
    fun hl => List.Nodup.of_map _ (of_decide_eq_true hl)
  exact List.perm_of_nodup_nodup_toFinset_eq (hnodup hbuilt) (hnodup hentries) h.symm

end

/-- After any accesses a search returns what it returns on an empty cache exactly when it finds
no model, or one that has the rows of equal weight in the order of the entries, as far as
`topK` reaches. -/
theorem cache_transparent_iff (t : TextTables) (okapi : Okapi) (accesses : List Access)
    (query : String) (entries : List LexicalEntry) (topK : Int) :
    (bm25Search t okapi (Bm25Cache.after t accesses) query entries topK).1 =
        (bm25Search t okapi [] query entries topK).1 ↔
      ∀ model, isUnambiguous entries = true →
        (Bm25Cache.after t accesses).lookup (signatureOf entries) = some model →
        SameTies okapi (tokenizeQuery t query) model (buildModel t entries) topK := by
  have hfresh : ∀ cache, bm25Search t okapi cache query entries topK = if entries = [] then
      ([], cache) else (rankModel okapi (buildOrReuseModel t cache entries).1
        (tokenizeQuery t query) topK, (buildOrReuseModel t cache entries).2) := fun _ => rfl
  by_cases hentries : isUnambiguous entries = true
  · cases hlookup : (Bm25Cache.after t accesses).lookup (signatureOf entries) with
    | none =>
        refine iff_of_true ?_ fun _ _ h => nomatch h
        rw [hfresh, hfresh, buildOrReuseModel, buildOrReuseModel, if_pos hentries,
          if_pos hentries, hlookup]
        split <;> rfl
    | some model =>
        obtain ⟨built, hbuilt, hsignature, rfl⟩ :=
          Bm25Cache.after_sound accesses _ (Dict.mem_of_get hlookup)
        have hperm := perm_of_signature hbuilt hentries hsignature
        have hties := rankModel_eq_iff t okapi (tokenizeQuery t query) hperm hbuilt hentries topK
        have hfound : (∀ model, isUnambiguous entries = true →
            some (buildModel t built) = some model →
            SameTies okapi (tokenizeQuery t query) model (buildModel t entries) topK) ↔
              SameTies okapi (tokenizeQuery t query) (buildModel t built) (buildModel t entries)
                topK :=
          ⟨fun h => h _ hentries rfl, fun h _ _ heq => Option.some.inj heq ▸ h⟩
        rw [hfound, ← hties, hfresh, hfresh, buildOrReuseModel, buildOrReuseModel,
          if_pos hentries, if_pos hentries, hlookup]
        by_cases hnil : entries = []
        · subst hnil
          rw [hperm.eq_nil]
          exact iff_of_true rfl rfl
        · rw [if_neg hnil, if_neg hnil]
          rfl
  · refine iff_of_true ?_ fun _ h => absurd h hentries
    rw [hfresh, hfresh, buildOrReuseModel, buildOrReuseModel, if_neg hentries, if_neg hentries]
    split <;> rfl

def asciiTables : TextTables where
  isWord c := c.isAlphanum || c == '_'
  isSpace c := c == ' ' || c == '\n' || c == '\t'
  isAlpha c := c.isAlpha
  lower text := text.map Char.toLower

/-- Two documents that both hold a term get the same score for it, which is negative. -/
def pairOkapi : Okapi := ⟨fun _ _ _ => -2 / 5, fun _ => rfl⟩

def twinEntry (id : String) : LexicalEntry := ⟨id, "x", "", []⟩

/-- The second search finds the model of the first and returns its order. -/
theorem earlier_order_shows :
    let first := (bm25Search asciiTables pairOkapi [] "x" [twinEntry "a", twinEntry "b"] 50).2
    (bm25Search asciiTables pairOkapi [] "x" [twinEntry "b", twinEntry "a"] 50).1 =
        [("b", 1), ("a", 1)] ∧
      (bm25Search asciiTables pairOkapi first "x" [twinEntry "b", twinEntry "a"] 50).1 =
        [("a", 1), ("b", 1)] := by
  decide +kernel

end TrwMemory.Retrieval

import TrwMemory.Library.StableSort
import TrwMemory.Storage.VectorOps

/-!
The dense window of a namespace: `search_vectors` (`storage/_vector_ops.py`), the reads that
say of which space its vectors are (`storage/_vector_provenance_reads.py`), and
`comparable_neighbours` (`embeddings/_space_gate.py`) over them, in one snapshot.

The nearest vectors come from `vec0`, which may fail, and knows of no namespaces. A space key is
the space it stands for, and what a proof claims is what the census counts; only the vectors of a
window are checked against their proofs.
-/
namespace TrwMemory.Embeddings

open Library Library.Keyed Storage

/-- The `vec0` table of a database: how far its vectors are from a query, and the `k` nearest of
them all, or a failure. -/
structure Knn (vectors : Table RowKey StoredVector) where
  distance : List Rat → List Rat → Rat
  search : List Rat → Nat → Option (List (RowKey × Rat))
  keys : ∀ query k found, search query k = some found → (found.map Prod.fst).Nodup
  stored : ∀ query k found, search query k = some found → ∀ hit ∈ found,
    ∃ v, vectors.find hit.1 = some v ∧ hit.2 = distance query v.embedding
  nearest : ∀ query k found, search query k = some found → ∀ key v,
    vectors.find key = some v → key ∉ found.map Prod.fst →
      found.length = k ∧ ∀ hit ∈ found, hit.2 ≤ distance query v.embedding

/-- What a database answers about its vectors: `vec0`, and whether the two reads of proofs fail. -/
structure VectorReads (vectors : Table RowKey StoredVector) where
  knn : Knn vectors
  recordsReadable : Bool
  proofReadable : Bool

def NAMESPACE_OVERFETCH_FACTOR : Int := 4

def NAMESPACE_OVERFETCH_CAP : Int := 500

/-- `knn_k`. -/
def knnK (topK : Int) : Nat :=
  (min (max (topK * NAMESPACE_OVERFETCH_FACTOR) topK) NAMESPACE_OVERFETCH_CAP).toNat

section

variable (d : Digests) (b : Backend) (db : Db) (reads : VectorReads db.vectors)
  (query : List Rat) (ns : String) (space : EmbeddingSpace) (topK : Int)

/-- The ids of the rows of a namespace. -/
def rowIds : List String := (db.memories.keys.filter fun key => key.ns == ns).map RowKey.id

def hitsOf (found : List (RowKey × Rat)) : List (String × Rat) :=
  (sortBy Prod.snd found).map fun hit => (hit.1.id, hit.2)

/-- The join with the rows of a namespace. -/
def joined (found : List (RowKey × Rat)) : List (RowKey × Rat) :=
  found.filter fun hit => hit.1.ns == ns && (db.memories.find hit.1).isSome

/-- `search_vectors`. -/
def searchVectors (ns : Option String) : List (String × Rat) :=
  if !b.vecAvailable || topK ≤ 0 then []
  else if query.length ≠ b.dim then []
  else
    match ns with
    | none => ((reads.knn.search query topK.toNat).map hitsOf).getD []
    | some ns =>
        ((reads.knn.search query (knnK topK)).map fun found =>
          (hitsOf (joined db ns found)).take topK.toNat).getD []

/-- A proof is kept where it is the vector's. -/
def checked (v : StoredVector) : StoredVector :=
  { v with provenance := v.provenance.filter fun p => d.matchesVector p v.embedding }

/-- `get_vector_records`. -/
def getVectorRecords (ids : List String) : List (String × StoredVector) :=
  if !b.vecAvailable || !reads.recordsReadable then []
  else ids.filterMap fun id => (db.vectors.find ⟨ns, id⟩).map fun v => (id, checked d v)

/-- `admit_space_vectors`, the ids alone. -/
def admitSpaceVectors (records : List (String × StoredVector)) : List String :=
  (records.filter fun record => record.2.provenance.any fun p => p.space == space).map Prod.fst

/-- The spaces that the vectors of the rows of a namespace claim; `none` is no space. -/
def claims : List (Option EmbeddingSpace) :=
  (rowIds db ns).filterMap fun id =>
    (db.vectors.find ⟨ns, id⟩).map fun v => v.provenance.map VectorProvenance.space

/-- `vectors_proven_in_space`. -/
def vectorsProvenInSpace : Option Nat :=
  if !b.vecAvailable || !reads.proofReadable then none
  else if (claims db ns).any (· != some space) then none
  else some (claims db ns).length

/-- `comparable_neighbours`. -/
def comparableNeighbours : Option (List (String × Rat)) :=
  let hits := searchVectors b db reads query topK (some ns)
  if hits = [] then some []
  else
    let admitted := admitSpaceVectors space
      (getVectorRecords d b db reads ns (hits.map Prod.fst))
    let proven :=
      if admitted.length = hits.length then vectorsProvenInSpace b db reads ns space else none
    if proven.any fun proven => 0 < proven && (rowIds db ns).length ≤ proven then
      some (hits.filter fun hit => admitted.contains hit.1)
    else none

/-- A row's vector claims a space. -/
def InSpace (id : String) : Prop :=
  ∃ v, db.vectors.find ⟨ns, id⟩ = some v ∧ v.provenance.map VectorProvenance.space = some space

/-- A window by which a row of the namespace that is not in it may be left out. -/
structure Complete (window : List (String × Rat)) : Prop where
  inSpace : ∀ id ∈ rowIds db ns, InSpace db ns space id
  told : ∀ hit ∈ window, hit.1 ∈ rowIds db ns ∧
    ∃ v, db.vectors.find ⟨ns, hit.1⟩ = some v ∧ hit.2 = reads.knn.distance query v.embedding
  sorted : window.Pairwise fun hit hit' => hit.2 ≤ hit'.2
  nearest : ∀ id ∈ rowIds db ns, id ∉ window.map Prod.fst → ∀ v,
    db.vectors.find ⟨ns, id⟩ = some v → ∀ last ∈ window.getLast?,
      last.2 ≤ reads.knn.distance query v.embedding
  whole : window.length < topK → ∀ id ∈ rowIds db ns, id ∈ window.map Prod.fst

/-- The rows of a namespace whose vectors are among the nearest of all; none where there is
nothing to search or the search fails. -/
def reached : List (RowKey × Rat) :=
  if b.vecAvailable && query.length == b.dim && 0 < topK then
    joined db ns ((reads.knn.search query (knnK topK)).getD [])
  else []

/-- A row's vector is in a space, and is the one that its proof is of. -/
def verified (id : String) : Bool :=
  (db.vectors.find ⟨ns, id⟩).any fun v =>
    (checked d v).provenance.any fun p => p.space == space

end

section

variable {d : Digests} {b : Backend} {db : Db} {reads : VectorReads db.vectors}
  {query : List Rat} {ns : String} {space : EmbeddingSpace} {topK : Int}

theorem searchVectors_eq : searchVectors b db reads query topK (some ns) =
    (hitsOf (reached b db reads query ns topK)).take topK.toNat := by
  rw [searchVectors, reached]
  cases havail : b.vecAvailable with
  | false => exact List.take_nil.symm
  | true =>
      by_cases htop : topK ≤ 0
      · rw [Int.toNat_eq_zero.mpr htop, List.take_zero]
        simp [htop]
      · by_cases hwidth : query.length = b.dim
        · cases reads.knn.search query (knnK topK) with
          | none => simp [htop, hwidth, joined, hitsOf, sortBy]
          | some found =>
              have hpos : 0 < topK := by omega
              simp [htop, hwidth, hpos]
        · simp [htop, hwidth, hitsOf, sortBy]

theorem mem_rowIds {id : String} : id ∈ rowIds db ns ↔ (db.memories.find ⟨ns, id⟩).isSome := by
  rw [← Table.mem_keys, rowIds, List.mem_map]
  constructor
  · rintro ⟨key, hkey, rfl⟩
    obtain ⟨hkey, hns⟩ := List.mem_filter.mp hkey
    rwa [← beq_iff_eq.mp hns]
  · exact fun h => ⟨⟨ns, id⟩, List.mem_filter.mpr ⟨h, beq_self_eq_true ns⟩, rfl⟩

theorem mem_joined {found : List (RowKey × Rat)} {hit : RowKey × Rat} :
    hit ∈ joined db ns found ↔ hit ∈ found ∧ hit.1.ns = ns ∧ hit.1.id ∈ rowIds db ns := by
  rw [joined, List.mem_filter, Bool.and_eq_true, beq_iff_eq, mem_rowIds]
  refine and_congr_right fun _ => and_congr_right fun hns => ?_
  rw [← hns]

theorem mem_hitsOf {found : List (RowKey × Rat)} {hit : String × Rat} :
    hit ∈ hitsOf found ↔ ∃ key, (key, hit.2) ∈ found ∧ key.id = hit.1 := by
  rw [hitsOf, List.mem_map]
  constructor
  · rintro ⟨⟨key, x⟩, hmem, rfl⟩
    exact ⟨key, mem_sortBy.mp hmem, rfl⟩
  · rintro ⟨key, hmem, hid⟩
    exact ⟨(key, hit.2), mem_sortBy.mpr hmem, by rw [hid]⟩

theorem hitsOf_sorted (found : List (RowKey × Rat)) :
    (hitsOf found).Pairwise fun hit hit' => hit.2 ≤ hit'.2 :=
  List.pairwise_map.mpr (sortBy_sorted Prod.snd found)

theorem hitsOf_length (found : List (RowKey × Rat)) : (hitsOf found).length = found.length := by
  rw [hitsOf, List.length_map, (sortBy_perm Prod.snd found).length_eq]

/-- What is reached comes from a search that did not fail. -/
theorem reached_found {hit : RowKey × Rat} (h : hit ∈ reached b db reads query ns topK) :
    0 < topK ∧ ∃ found, reads.knn.search query (knnK topK) = some found ∧
      reached b db reads query ns topK = joined db ns found := by
  rw [reached] at h ⊢
  split at h
  · rename_i hsearch
    rw [if_pos hsearch]
    refine ⟨by simp only [Bool.and_eq_true, decide_eq_true_eq] at hsearch; exact hsearch.2, ?_⟩
    cases hfound : reads.knn.search query (knnK topK) with
    | none => simp [hfound, joined] at h
    | some found => exact ⟨found, rfl, rfl⟩
  · cases h

theorem reached_told {hit : RowKey × Rat} (h : hit ∈ reached b db reads query ns topK) :
    hit.1.id ∈ rowIds db ns ∧ ∃ v, db.vectors.find ⟨ns, hit.1.id⟩ = some v ∧
      hit.2 = reads.knn.distance query v.embedding := by
  obtain ⟨-, found, hfound, hreached⟩ := reached_found h
  rw [hreached] at h
  obtain ⟨hmem, hns, hrow⟩ := mem_joined.mp h
  obtain ⟨v, hv, hdistance⟩ := reads.knn.stored query _ found hfound hit hmem
  exact ⟨hrow, v, by rw [← hns]; exact hv, hdistance⟩

theorem admitted_eq (havail : b.vecAvailable = true) (hreadable : reads.recordsReadable = true)
    (ids : List String) :
    admitSpaceVectors space (getVectorRecords d b db reads ns ids) =
      ids.filter (verified d db ns space) := by
  rw [getVectorRecords, havail, hreadable]
  simp only [Bool.not_true, Bool.or_self, Bool.false_eq_true, if_false, admitSpaceVectors]
  induction ids with
  | nil => rfl
  | cons id ids ih =>
      rw [List.filterMap_cons, List.filter_cons, verified]
      cases hv : db.vectors.find ⟨ns, id⟩ with
      | none => simpa [hv] using ih
      | some v =>
          rw [Option.map_some, List.filter_cons, Option.any_some]
          split
          · rw [List.map_cons, ih]
          · exact ih

theorem claims_inSpace :
    (((claims db ns).any (· != some space)) = false ∧
        (rowIds db ns).length ≤ (claims db ns).length) ↔
      ∀ id ∈ rowIds db ns, InSpace db ns space id := by
  constructor
  · rintro ⟨hclaims, hlength⟩ id hid
    have hall := List.filterMap_length_eq_length.mp
      (le_antisymm (List.length_filterMap_le _ (rowIds db ns)) hlength) id hid
    obtain ⟨v, hv⟩ := Option.isSome_iff_exists.mp (Option.isSome_map.symm.trans hall)
    refine ⟨v, hv, ?_⟩
    have hclaim : v.provenance.map VectorProvenance.space ∈ claims db ns :=
      List.mem_filterMap.mpr ⟨id, hid, by rw [hv]; rfl⟩
    simpa using List.any_eq_false.mp hclaims _ hclaim
  · intro h
    constructor
    · refine List.any_eq_false.mpr fun claim hclaim => ?_
      obtain ⟨id, hid, hv⟩ := List.mem_filterMap.mp hclaim
      obtain ⟨v, hfind, hspace⟩ := h id hid
      rw [hfind, Option.map_some, hspace] at hv
      simp [← Option.some.inj hv]
    · refine (List.filterMap_length_eq_length.mpr fun id hid => ?_).ge
      obtain ⟨v, hfind, -⟩ := h id hid
      rw [hfind]
      rfl

theorem provenInSpace_covers (havail : b.vecAvailable = true) (hrow : rowIds db ns ≠ []) :
    ((vectorsProvenInSpace b db reads ns space).any fun proven =>
        decide (0 < proven) && decide ((rowIds db ns).length ≤ proven)) = true ↔
      reads.proofReadable = true ∧ ∀ id ∈ rowIds db ns, InSpace db ns space id := by
  rw [vectorsProvenInSpace, havail, ← claims_inSpace]
  cases hreadable : reads.proofReadable with
  | false => simp
  | true =>
      cases hany : (claims db ns).any (· != some space) with
      | true => simp
      | false =>
          have hpos : 0 < (rowIds db ns).length := List.length_pos_iff.mpr hrow
          simp only [Bool.not_true, Bool.or_self, Bool.false_eq_true, if_false, Option.any_some,
            Bool.and_eq_true, decide_eq_true_eq, true_and]
          exact and_iff_right_of_imp fun hle => hpos.trans_le hle

/-- A window that is not empty is returned exactly if the whole namespace is in the space. -/
theorem comparableNeighbours_eq_some {window : List (String × Rat)}
    (hhits : searchVectors b db reads query topK (some ns) ≠ []) :
    comparableNeighbours d b db reads query ns space topK = some window ↔
      window = searchVectors b db reads query topK (some ns) ∧
        reads.recordsReadable = true ∧ reads.proofReadable = true ∧
        (∀ id ∈ rowIds db ns, InSpace db ns space id) ∧
        ∀ hit ∈ searchVectors b db reads query topK (some ns),
          verified d db ns space hit.1 = true := by
  have havail : b.vecAvailable = true := by
    by_contra hnone
    exact hhits (by rw [searchVectors, Bool.eq_false_of_not_eq_true hnone]; rfl)
  have hrow : rowIds db ns ≠ [] := by
    obtain ⟨hit, hhit⟩ := List.exists_mem_of_ne_nil _ hhits
    rw [searchVectors_eq] at hhit
    obtain ⟨key, hkey, -⟩ := mem_hitsOf.mp (List.mem_of_mem_take hhit)
    exact List.ne_nil_of_mem (reached_told hkey).1
  rw [comparableNeighbours]
  generalize searchVectors b db reads query topK (some ns) = hits at hhits ⊢
  dsimp only
  rw [if_neg hhits]
  cases hreadable : reads.recordsReadable with
  | false =>
      have hnone : admitSpaceVectors space (getVectorRecords d b db reads ns (hits.map Prod.fst)) =
          [] := by
        rw [getVectorRecords, hreadable, Bool.not_false, Bool.or_true, if_pos rfl]
        rfl
      have hlength : ¬([] : List String).length = hits.length := fun h =>
        hhits (List.length_eq_zero_iff.mp h.symm)
      rw [hnone, if_neg hlength]
      simp
  | true =>
      rw [admitted_eq havail hreadable]
      by_cases hall : ∀ hit ∈ hits, verified d db ns space hit.1 = true
      · have hadmitted : (hits.map Prod.fst).filter (verified d db ns space) =
            hits.map Prod.fst := List.filter_eq_self.mpr fun id hid => by
          obtain ⟨hit, hhit, rfl⟩ := List.mem_map.mp hid
          exact hall hit hhit
        have hkept : (hits.filter fun hit => (hits.map Prod.fst).contains hit.1) = hits :=
          List.filter_eq_self.mpr fun hit hhit =>
            List.contains_iff_mem.mpr (List.mem_map_of_mem hhit)
        rw [hadmitted, List.length_map, if_pos rfl, hkept]
        by_cases hspace : reads.proofReadable = true ∧ ∀ id ∈ rowIds db ns, InSpace db ns space id
        · rw [if_pos ((provenInSpace_covers havail hrow).mpr hspace)]
          exact ⟨fun h => ⟨(Option.some.inj h).symm, rfl, hspace.1, hspace.2, hall⟩,
            fun h => by rw [h.1]⟩
        · rw [if_neg fun h => hspace ((provenInSpace_covers havail hrow).mp h)]
          exact ⟨nofun, fun h => absurd ⟨h.2.2.1, h.2.2.2.1⟩ hspace⟩
      · have hless : ¬((hits.map Prod.fst).filter (verified d db ns space)).length =
            hits.length := by
          have hlength : (hits.map Prod.fst).length = hits.length := List.length_map _
          rw [← hlength, List.length_filter_eq_length_iff]
          exact fun h => hall fun hit hhit => h hit.1 (List.mem_map_of_mem hhit)
        rw [if_neg hless]
        exact ⟨nofun, fun h => absurd h.2.2.2.2 hall⟩

/-- When a window does not mislead: an empty one where the namespace has no rows, a short one
where it has reached all rows that could be in it. -/
def Tells (d : Digests) (b : Backend) (db : Db) (reads : VectorReads db.vectors)
    (query : List Rat) (ns : String) (space : EmbeddingSpace) (topK : Int) : Prop :=
  (reached b db reads query ns topK = [] →
      rowIds db ns = [] ∨ topK ≤ 0 ∧ ∀ id ∈ rowIds db ns, InSpace db ns space id) ∧
    (reached b db reads query ns topK ≠ [] →
      reads.recordsReadable = true → reads.proofReadable = true →
      (∀ id ∈ rowIds db ns, InSpace db ns space id) →
      (∀ hit ∈ reached b db reads query ns topK, verified d db ns space hit.1.id = true) →
        topK ≤ (reached b db reads query ns topK).length ∨
          ∀ id ∈ rowIds db ns,
            id ∈ (reached b db reads query ns topK).map fun hit => hit.1.id)

/-- A row that the window leaves out is no nearer than the last that it holds. -/
theorem searchVectors_nearest {id : String} (hid : id ∈ rowIds db ns)
    (hout : id ∉ (searchVectors b db reads query topK (some ns)).map Prod.fst) {v : StoredVector}
    (hv : db.vectors.find ⟨ns, id⟩ = some v) {last : String × Rat}
    (hlast : last ∈ searchVectors b db reads query topK (some ns)) :
    last.2 ≤ reads.knn.distance query v.embedding := by
  rw [searchVectors_eq] at hout hlast
  obtain ⟨key, hkey, -⟩ := mem_hitsOf.mp (List.mem_of_mem_take hlast)
  obtain ⟨-, found, hfound, hreached⟩ := reached_found hkey
  rw [hreached] at hkey hout hlast
  by_cases hmem : (⟨ns, id⟩ : RowKey) ∈ found.map Prod.fst
  · -- It was found and cut off.
    obtain ⟨⟨key', x⟩, hhit, hkey'⟩ := List.mem_map.mp hmem
    dsimp only at hkey'
    subst hkey'
    obtain ⟨v', hv', hx⟩ := reads.knn.stored query _ found hfound _ hhit
    obtain rfl := Option.some.inj (hv.symm.trans hv')
    rw [← hx]
    have hsorted := hitsOf_sorted (joined db ns found)
    rw [← List.take_append_drop topK.toNat (hitsOf (joined db ns found))] at hsorted
    have hthere : (id, x) ∈ hitsOf (joined db ns found) :=
      mem_hitsOf.mpr ⟨⟨ns, id⟩, mem_joined.mpr ⟨hhit, rfl, hid⟩, rfl⟩
    rw [← List.take_append_drop topK.toNat (hitsOf (joined db ns found)), List.mem_append] at hthere
    rcases hthere with htaken | hcut
    · exact absurd (List.mem_map_of_mem htaken) hout
    · exact (List.pairwise_append.mp hsorted).2.2 _ hlast _ hcut
  · exact (reads.knn.nearest query _ found hfound _ v hv hmem).2 _ (mem_joined.mp hkey).1

/-- `comparable_neighbours` says of a window that it is complete where it is, exactly if the window
is not empty or short for want of vectors of the namespace among the nearest of all. -/
theorem comparableNeighbours_complete_iff (d : Digests) (b : Backend) (db : Db)
    (reads : VectorReads db.vectors) (query : List Rat) (ns : String) (space : EmbeddingSpace)
    (topK : Int) :
    (∀ window, comparableNeighbours d b db reads query ns space topK = some window →
        Complete db reads query ns space topK window) ↔
      Tells d b db reads query ns space topK := by
  have hshort : (reached b db reads query ns topK).length < topK →
      searchVectors b db reads query topK (some ns) =
        hitsOf (reached b db reads query ns topK) := fun hless => by
    rw [searchVectors_eq, List.take_of_length_le (by rw [hitsOf_length]; omega)]
  have hids : ∀ id, id ∈ (hitsOf (reached b db reads query ns topK)).map Prod.fst ↔
      id ∈ (reached b db reads query ns topK).map fun hit => hit.1.id := fun id => by
    rw [hitsOf, List.map_map]
    exact ((sortBy_perm Prod.snd _).map _).mem_iff
  have hempty : searchVectors b db reads query topK (some ns) = [] ↔
      reached b db reads query ns topK = [] := by
    rw [searchVectors_eq, List.take_eq_nil_iff, ← List.length_eq_zero_iff, hitsOf_length,
      List.length_eq_zero_iff]
    refine ⟨fun h => h.elim (fun hzero => ?_) id, Or.inr⟩
    by_contra hne
    obtain ⟨hit, hhit⟩ := List.exists_mem_of_ne_nil _ hne
    have hpos := (reached_found hhit).1
    omega
  constructor
  · intro h
    refine ⟨fun hnone => ?_, fun hsome hrecords hproof hspace hverified => ?_⟩
    · have hcomplete := h [] (by rw [comparableNeighbours, hempty.mpr hnone]; rfl)
      by_cases htop : topK ≤ 0
      · exact Or.inr ⟨htop, hcomplete.inSpace⟩
      · refine Or.inl (List.eq_nil_iff_forall_not_mem.mpr fun id hid => ?_)
        exact List.not_mem_nil (hcomplete.whole (by simpa using htop) id hid)
    · by_cases hlength : topK ≤ (reached b db reads query ns topK).length
      · exact Or.inl hlength
      · have hhits := hshort (by omega)
        have hcomplete := h _ ((comparableNeighbours_eq_some
          (fun hnil => hsome (hempty.mp hnil))).mpr
          ⟨rfl, hrecords, hproof, hspace, fun hit hhit => by
            rw [hhits] at hhit
            obtain ⟨key, hkey, hid⟩ := mem_hitsOf.mp hhit
            exact hid ▸ hverified _ hkey⟩)
        rw [hhits] at hcomplete
        exact Or.inr fun id hid =>
          (hids id).mp (hcomplete.whole (by rw [hitsOf_length]; omega) id hid)
  · rintro ⟨hnone, hsome⟩ window hwindow
    by_cases hhits : searchVectors b db reads query topK (some ns) = []
    · rw [comparableNeighbours, hhits] at hwindow
      obtain rfl := Option.some.inj hwindow
      have hcase := hnone (hempty.mp hhits)
      refine ⟨?_, nofun, .nil, nofun, fun hpos id hid => ?_⟩
      · rcases hcase with hrows | ⟨-, hspace⟩
        · exact fun id hid => by rw [hrows] at hid; cases hid
        · exact hspace
      · rcases hcase with hrows | ⟨htop, -⟩
        · rw [hrows] at hid
          cases hid
        · simp only [List.length_nil, Nat.cast_zero] at hpos
          omega
    · obtain ⟨rfl, hrecords, hproof, hspace, hverified⟩ :=
        (comparableNeighbours_eq_some hhits).mp hwindow
      refine ⟨hspace, fun hit hhit => ?_, ?_, fun id hid hout v hv last hlast =>
        searchVectors_nearest hid hout hv (List.mem_of_getLast? hlast), fun hless id hid => ?_⟩
      · rw [searchVectors_eq] at hhit
        obtain ⟨key, hkey, hid⟩ := mem_hitsOf.mp (List.mem_of_mem_take hhit)
        rw [← hid]
        exact reached_told hkey
      · rw [searchVectors_eq]
        exact (hitsOf_sorted _).sublist (List.take_sublist _ _)
      · have hlength : (reached b db reads query ns topK).length < topK := by
          rw [searchVectors_eq, List.length_take, hitsOf_length] at hless
          omega
        have hfull := hshort hlength
        rw [hfull, hids]
        rw [hfull] at hverified
        refine (hsome (fun hnil => hhits (hempty.mpr hnil)) hrecords hproof hspace
          fun hit hhit => ?_).resolve_left (by omega) id hid
        exact hverified (hit.1.id, hit.2) (mem_hitsOf.mpr ⟨hit.1, hhit, rfl⟩)

end

/-- A `vec0` that looks at every vector. -/
def Knn.scan (vectors : Table RowKey StoredVector) (distance : List Rat → List Rat → Rat) :
    Knn vectors where
  distance := distance
  search query k := some
    ((sortBy Prod.snd (vectors.rows.map fun row => (row.1, distance query row.2.embedding))).take k)
  keys query k found h := by
    obtain rfl := Option.some.inj h
    refine ((List.take_sublist _ _).map Prod.fst).nodup
      (((sortBy_perm Prod.snd _).map Prod.fst).nodup_iff.mpr ?_)
    rw [List.map_map]
    exact vectors.nodup
  stored query k found h hit hhit := by
    obtain rfl := Option.some.inj h
    obtain ⟨⟨key, v⟩, hrow, rfl⟩ := List.mem_map.mp (mem_sortBy.mp (List.mem_of_mem_take hhit))
    exact ⟨v, (vectors.mem_rows key v).mp hrow, rfl⟩
  nearest query k found h key v hv hout := by
    obtain rfl := Option.some.inj h
    have hrow : (key, distance query v.embedding) ∈ sortBy Prod.snd
        (vectors.rows.map fun row => (row.1, distance query row.2.embedding)) :=
      mem_sortBy.mpr (List.mem_map_of_mem (f := fun row : RowKey × StoredVector =>
        (row.1, distance query row.2.embedding)) ((vectors.mem_rows key v).mpr hv))
    have hsorted := sortBy_sorted Prod.snd
      (vectors.rows.map fun row => (row.1, distance query row.2.embedding))
    generalize sortBy Prod.snd (vectors.rows.map fun row =>
      (row.1, distance query row.2.embedding)) = scanned at hrow hsorted hout ⊢
    rw [← List.take_append_drop k scanned, List.mem_append] at hrow
    rw [← List.take_append_drop k scanned] at hsorted
    rcases hrow with htaken | hcut
    · exact absurd (List.mem_map_of_mem htaken) hout
    · refine ⟨?_, fun hit hhit => (List.pairwise_append.mp hsorted).2.2 _ hhit _ hcut⟩
      have hlong := List.length_pos_of_mem hcut
      rw [List.length_drop] at hlong
      rw [List.length_take]
      omega

section

def someSpace : EmbeddingSpace := ⟨"a", "e", 1⟩

def vectorAt (x : Rat) : StoredVector := ⟨[x], some ⟨someSpace, "", "", "document", none⟩, ""⟩

/-- One row, and four nearer vectors of another namespace. -/
def crowded : Db :=
  { Db.empty with
    memories := Table.empty.put ⟨"default", "m"⟩
      (MemoryEntry.ofDefaults "m" "text" "default" ⟨0, some 0⟩ (by decide))
    vectors := ((((Table.empty.put ⟨"default", "m"⟩ (vectorAt 1)).put ⟨"other", "1"⟩
      (vectorAt 0)).put ⟨"other", "2"⟩ (vectorAt 0)).put ⟨"other", "3"⟩ (vectorAt 0)).put
      ⟨"other", "4"⟩ (vectorAt 0) }

def absDistance (v w : List Rat) : Rat := |v.headD 0 - w.headD 0|

/-- The empty window says that the namespace has no rows, and it has one. -/
theorem comparableNeighbours_crowded :
    ¬∀ (reads : VectorReads crowded.vectors) query ns space topK window,
      comparableNeighbours ⟨fun _ => "", fun _ => some ""⟩ ⟨true, true, 1⟩ crowded reads query ns
          space topK = some window →
        Complete crowded reads query ns space topK window := by
  intro h
  have hcomplete := h ⟨Knn.scan _ absDistance, true, true⟩ [0] "default" someSpace 1 []
    (by decide +kernel)
  exact List.not_mem_nil (hcomplete.whole (by decide) "m" (by decide +kernel))

end

end TrwMemory.Embeddings

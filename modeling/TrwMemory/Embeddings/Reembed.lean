import Mathlib.Data.List.MinMax
import TrwMemory.Embeddings.Neighbours
import TrwMemory.Embeddings.VectorUpdates
import TrwMemory.Retrieval.ValidityPrior
import TrwMemory.Storage.SweepPages

/-!
The re-embed run (`reembed_rows` of `_client_reembed.py`): calls that sweep a namespace in id
order, a page at a time, and carry on from the token of the one before. Other writers may run
before a page is listed, between the read of its rows and that of its vectors, and until its
transaction. What they do is arbitrary.

A run finds vectors supported and an encoder that names its space. Pages of the warm tier are not
modelled; of them a call only tells where they stop. The sweep's two checks of its caller pass: a
page holds no more rows than asked for, and all of it is consumed.
-/
namespace TrwMemory.Embeddings

open Library Library.Keyed Library.Keyset Storage Retrieval

abbrev Encoder := String → Option (List Rat × Option EmbeddingSpace)

/-- `get_vector_records`, of one row. -/
def recordOf (d : Digests) (db : Db) (k : RowKey) : Option (List Rat × Option VectorProvenance) :=
  (db.vectors.find k).map (vectorRecord d)

/-- `vector_in_space`. -/
def vectorInSpace (space : EmbeddingSpace)
    (record : Option (List Rat × Option VectorProvenance)) : Bool :=
  record.any fun record => record.2.any fun p => p.space == space

/-- The rows of a page that are encoded, with the vectors that were read. -/
def staleItems (d : Digests) (space : EmbeddingSpace) (encode : Encoder) (read : Db)
    (batch : List MemoryEntry) : List PageItem :=
  ((batch.filter fun e => !isSystemCanary e.metadata).filter fun e =>
    !vectorInSpace space (recordOf d read (rowKey e))).map fun e =>
      ⟨e, recordOf d read (rowKey e), encode (embeddingText e)⟩

/-- Whether `_reembed_page` writes a vector, and does not skip it. -/
def isReembedded (d : Digests) (blocks : MemoryEntry → Bool) (found : Db) (item : PageItem) :
    Bool :=
  item.vector.isSome && (recordOf d found (rowKey item.entry) == item.record) &&
    match backendGet blocks found (rowKey item.entry) with
    | .ok (some current) => embeddingText current == embeddingText item.entry
    | _ => false

/-- A page that was committed: the store as its vectors were read, as its transaction found it and
as it left it, and its count of `reembedded`. -/
structure Commit where
  read : Db
  found : Db
  left : Db
  reembedded : Nat

/-- What happens around one page: the other writers, the encoder, and whether the deadline has
passed after it. -/
structure Round where
  before : Db → Db
  between : Db → Db
  meanwhile : Db → Db
  encode : Encoder
  late : Bool

/-- How a sweep or a call stops: it raises, or with the place to resume from, if any. -/
inductive Stop where
  | raised
  | resume (key : String)
  | finished
  deriving DecidableEq, Repr

/-- The budgets of one call, the writers before it and during it, and where the warm tier's pages
stop. -/
structure ReembedCall where
  start : Db → Db
  page : Nat
  rows : Nat
  bounded : Bool
  round : Nat → Round
  warm : Option String → Option String

def MAX_REEMBED_BATCH : Nat := 1000

/-- `_ROWS` and `_WARM`. -/
def ROWS : String := "rows-by-id"

def WARM : String := "warm-by-id"

section

variable (d : Digests) (w : Writer) (blocks : MemoryEntry → Bool) (ns : String)
  (space : EmbeddingSpace)

/-- The statement of `list_entries_by_id`, without its limit. -/
def idRows (db : Db) (after : String) (through : Option String) : List (RowKey × MemoryEntry) :=
  sortOn (fun row => row.1.id) <| db.memories.rows.filter fun row =>
    row.1.ns == ns && decide (after < row.1.id) && through.all fun last => decide (row.1.id ≤ last)

/-- `list_entries_by_id` of `storage/_query_ops.py`. -/
def rawById (db : Db) (through after : Option String) (limit : Nat) :
    Except MapError (List MemoryEntry) :=
  fetchRows (((idRows ns db (after.getD "") through).take limit).map Prod.snd)

/-- The loop of `_quarantine_keyset`, where a fetch may raise. -/
def refillPages (fetch : Option String → Nat → Except MapError (List MemoryEntry)) (limit : Nat) :
    Nat → List MemoryEntry → List MemoryEntry → Except MapError (List MemoryEntry)
  | 0, _, page => .ok (page.take limit)
  | fuel + 1, raw, page =>
      if raw.length = limit ∧ page.length < limit then
        match raw.getLast? with
        | none => .ok (page.take limit)
        | some last => do
            let raw ← fetch (some last.id) limit
            refillPages fetch limit fuel raw (page ++ filterQuarantined blocks raw)
      else .ok (page.take limit)

/-- `SQLiteBackend.list_entries_by_id`. No page after the first can show more rows than there
are. -/
def listById (db : Db) (through after : Option String) (limit : Nat) :
    Except MapError (List MemoryEntry) := do
  let raw ← rawById ns db through after limit
  refillPages blocks (rawById ns db through) limit (db.memories.rows.length + 1) raw
    (filterQuarantined blocks raw)

def lastEntryId (db : Db) : Option String := (rowIds db ns).argmax fun id => id

/-- `_reembed_page`; `none` is a raise, which leaves the store as it was found. -/
def reembedBatch (round : Round) (batch : List MemoryEntry) (listed : Db) : Option Commit :=
  let read := round.between listed
  let found := round.meanwhile read
  let items := staleItems d space round.encode read batch
  (items.foldlM (fun current item => reembedItem d w blocks found item current) found).map
    fun left => ⟨read, found, left, items.countP (isReembedded d blocks found)⟩

/-- `sweep` over the pages of `reembed_rows`: what was committed, and where it stopped. -/
def sweepRows (call : ReembedCall) (ceiling : String) :
    Nat → Nat → Option String → Db → List Commit × Stop × Db
  | 0, _, cursor, db => ([], (cursor.map Stop.resume).getD .finished, db)
  | fuel + 1, visited, cursor, db =>
      if call.rows ≤ visited then ([], (cursor.map Stop.resume).getD .finished, db)
      else
        let round := call.round visited
        let limit := min call.page (call.rows - visited)
        let listed := round.before db
        match listById blocks ns listed (some ceiling) cursor limit with
        | .error _ => ([], .raised, listed)
        | .ok batch =>
            match batch.getLast? with
            | none => ([], .finished, listed)
            | some last =>
                match reembedBatch d w blocks space round batch listed with
                | none => ([], .raised, round.meanwhile (round.between listed))
                | some commit =>
                    let visited := visited + batch.length
                    if batch.length < limit then ([commit], .finished, commit.left)
                    else if round.late then ([commit], .resume last.id, commit.left)
                    else
                      let rest := sweepRows call ceiling fuel visited (some last.id) commit.left
                      (commit :: rest.1, rest.2)

/-- The warm tier's half of a call. -/
def warmHalf (call : ReembedCall) (after : Option String) : Stop :=
  match call.warm after with
  | none => .finished
  | some id => ((encodeToken [WARM, id, ""]).map Stop.resume).getD .raised

/-- The row half of a call from an id on. -/
def rowHalf (call : ReembedCall) (id ceiling : String) (db : Db) : List Commit × Stop × Db :=
  let swept := sweepRows d w blocks ns space call ceiling call.rows 0
    (if id = "" then none else some id) db
  match swept.2.1 with
  | .raised => swept
  | .resume key =>
      (swept.1, ((encodeToken [ROWS, key, ceiling]).map Stop.resume).getD .raised, swept.2.2)
  | .finished =>
      if call.bounded then
        (swept.1, ((encodeToken [WARM, "", ""]).map Stop.resume).getD .raised, swept.2.2)
      else (swept.1, warmHalf call none, swept.2.2)

/-- `reembed_rows`; the place to resume from is a token. -/
def reembedRows (call : ReembedCall) (token : Option String) (db : Db) :
    List Commit × Stop × Db :=
  if call.page < 1 ∨ MAX_REEMBED_BATCH < call.page ∨ w.backend.vecAvailable = false then
    ([], .raised, db)
  else
    match token.elim (some [ROWS, "", ""]) fun token => decodeToken token 3 with
    | some [phase, id, ceiling] =>
        if phase = ROWS then
          let ceiling := if ceiling = "" then (lastEntryId ns db).getD "" else ceiling
          if ceiling = "" then ([], warmHalf call none, db)
          else rowHalf d w blocks ns space call id ceiling db
        else if phase = WARM then
          ([], warmHalf call (if id = "" then none else some id), db)
        else ([], .raised, db)
    | _ => ([], .raised, db)

/-- A run: each call resumes from the token of the one before, until one returns none. A call that
raised is made again. -/
def reembedRun : List ReembedCall → Option String → Db → List Commit × Bool × Db
  | [], _, db => ([], false, db)
  | call :: calls, token, db =>
      match reembedRows d w blocks ns space call token (call.start db) with
      | (commits, .finished, db) => (commits, true, db)
      | (commits, .resume token, db) =>
          let rest := reembedRun calls (some token) db
          (commits ++ rest.1, rest.2)
      | (commits, .raised, db) =>
          let rest := reembedRun calls token db
          (commits ++ rest.1, rest.2)

end

/-- A page's transaction writes vectors of the texts that are committed, over vectors that it has
read, and nothing else. -/
structure Commit.Safe (d : Digests) (commit : Commit) : Prop where
  rows : commit.left.memories = commit.found.memories
  kept : ∀ k, recordOf d commit.found k ≠ recordOf d commit.read k →
    commit.left.vectors.find k = commit.found.vectors.find k
  written : ∀ k, commit.left.vectors.find k ≠ commit.found.vectors.find k →
    ∃ row v p, commit.found.memories.find k = some row ∧
      commit.left.vectors.find k = some v ∧ v.source = embeddingText row ∧
      v.provenance = some p ∧ p.inputSha256 = d.inputDigest (embeddingText row)

section

variable {d : Digests} {w : Writer} {blocks : MemoryEntry → Bool} {ns : String}
  {space : EmbeddingSpace}

/-- An item is skipped, or its vector replaces the one that was read, of the text that is there. -/
theorem reembedItem_cases {found db db' : Db} {item : PageItem}
    (h : reembedItem d w blocks found item db = some db') :
    db' = db ∨ ∃ row embedding provided p, item.vector = some (embedding, provided) ∧
      db.memories.find (rowKey item.entry) = some row ∧
      embeddingText row = embeddingText item.entry ∧
      recordOf d found (rowKey item.entry) = item.record ∧
      d.generationProvenance provided (embeddingText item.entry) embedding = some p ∧
      w.lands embedding = true ∧
      db' = { db with
        vectors := db.vectors.put (rowKey item.entry) ⟨embedding, some p, embeddingText row⟩ } := by
  unfold reembedItem at h
  dsimp only at h
  cases hget : backendGet blocks db (rowKey item.entry) with
  | error _ => simp [hget] at h
  | ok current =>
      cases hvector : item.vector with
      | none =>
          simp only [hget, hvector, Option.some.injEq] at h
          exact Or.inl h.symm
      | some encoded =>
          obtain ⟨embedding, provided⟩ := encoded
          simp only [hget, hvector] at h
          split at h
          · exact Or.inl (Option.some.inj h).symm
          · rename_i hsame
            cases hproof : d.generationProvenance provided (embeddingText item.entry) embedding with
            | none => simp [hproof] at h
            | some p =>
                have hmatches := (d.generationProvenance_eq hproof).2
                simp only [hproof] at h
                rw [upsertVector_eq (by simpa using hmatches), Option.some.injEq] at h
                cases hlands : w.lands embedding with
                | false =>
                    rw [if_neg (by simp [hlands])] at h
                    exact Or.inl h.symm
                | true =>
                    rw [if_pos hlands] at h
                    rw [Bool.or_eq_true, not_or, bne_iff_ne, ne_eq, Decidable.not_not] at hsame
                    obtain ⟨hcurrent, hrecord⟩ := hsame
                    cases current with
                    | none => simp at hcurrent
                    | some current =>
                        obtain ⟨row, entry, hrow, hread, -, rfl⟩ := backendGet_some hget
                        have htext : embeddingText row = embeddingText item.entry := by
                          rw [← embeddingText_served hread]
                          simpa using hcurrent
                        refine Or.inr ⟨row, embedding, provided, p, rfl, hrow, htext, hrecord,
                          hproof, hlands, ?_⟩
                        rw [htext]
                        exact h.symm

/-- What holds of the store in the middle of a page's transaction. -/
structure Midway (d : Digests) (read found current : Db) : Prop where
  rows : current.memories = found.memories
  vectors : ∀ k, current.vectors.find k = found.vectors.find k ∨
    recordOf d found k = recordOf d read k ∧ ∃ row v p, found.memories.find k = some row ∧
      current.vectors.find k = some v ∧ v.source = embeddingText row ∧
      v.provenance = some p ∧ p.inputSha256 = d.inputDigest (embeddingText row)

theorem Midway.item {read found current next : Db} {item : PageItem}
    (h : Midway d read found current)
    (hrecord : item.record = recordOf d read (rowKey item.entry))
    (hnext : reembedItem d w blocks found item current = some next) :
    Midway d read found next := by
  obtain rfl | ⟨row, embedding, provided, p, -, hrow, htext, hfound, hproof, -, rfl⟩ :=
    reembedItem_cases hnext
  · exact h
  · refine ⟨h.rows, fun k => ?_⟩
    by_cases hk : k = rowKey item.entry
    · subst hk
      rw [h.rows] at hrow
      refine Or.inr ⟨hfound.trans hrecord, row, _, p, hrow, Table.find_put_self _ _ _, rfl, rfl, ?_⟩
      rw [htext]
      exact (d.generationProvenance_eq hproof).1
    · have hsame := h.vectors k
      rwa [← Table.find_put_of_ne current.vectors _ hk] at hsame

theorem reembedBatch_safe {round : Round} {batch : List MemoryEntry} {listed : Db}
    {commit : Commit} (h : reembedBatch d w blocks space round batch listed = some commit) :
    commit.Safe d := by
  obtain ⟨left, hfold, rfl⟩ := Option.map_eq_some_iff.mp h
  generalize round.between listed = read at hfold ⊢
  generalize round.meanwhile read = found at hfold ⊢
  have hitems : ∀ item ∈ staleItems d space round.encode read batch,
      item.record = recordOf d read (rowKey item.entry) := by
    intro item hitem
    obtain ⟨e, -, rfl⟩ := List.mem_map.mp hitem
    rfl
  generalize staleItems d space round.encode read batch = items at hfold hitems ⊢
  have hmidway : ∀ (items : List PageItem), (∀ item ∈ items,
      item.record = recordOf d read (rowKey item.entry)) → ∀ current, Midway d read found current →
      ∀ after, items.foldlM (fun current item => reembedItem d w blocks found item current)
        current =
        some after → Midway d read found after := by
    intro items
    induction items with
    | nil =>
        intro _ current hcurrent after hafter
        obtain rfl := Option.some.inj hafter
        exact hcurrent
    | cons item items ih =>
        intro hrecords current hcurrent after hafter
        obtain ⟨hrecord, hrecords⟩ := List.forall_mem_cons.mp hrecords
        obtain ⟨next, hnext, hrest⟩ := Option.bind_eq_some_iff.mp hafter
        exact ih hrecords next (hcurrent.item hrecord hnext) after hrest
  have hleft := hmidway items hitems found ⟨rfl, fun _ => Or.inl rfl⟩ left hfold
  refine ⟨hleft.rows, fun k hne => ?_, fun k hne => ?_⟩
  · exact (hleft.vectors k).resolve_right fun hwritten => hne hwritten.1
  · exact ((hleft.vectors k).resolve_left hne).2

theorem sweepRows_safe {call : ReembedCall} {ceiling : String} {fuel visited : Nat}
    {cursor : Option String} {db : Db} {commit : Commit}
    (h : commit ∈ (sweepRows d w blocks ns space call ceiling fuel visited cursor db).1) :
    commit.Safe d := by
  induction fuel generalizing visited cursor db with
  | zero => cases h
  | succ fuel ih =>
      rw [sweepRows] at h
      split at h
      · cases h
      · dsimp only at h
        split at h
        · cases h
        · split at h
          · cases h
          · split at h
            · cases h
            · rename_i hfirst
              have hsafe := reembedBatch_safe hfirst
              split at h
              · exact List.mem_singleton.mp h ▸ hsafe
              · split at h
                · exact List.mem_singleton.mp h ▸ hsafe
                · rcases List.mem_cons.mp h with rfl | h
                  · exact hsafe
                  · exact ih h

theorem rowHalf_safe {call : ReembedCall} {id ceiling : String} {db : Db} {commit : Commit}
    (h : commit ∈ (rowHalf d w blocks ns space call id ceiling db).1) : commit.Safe d := by
  rw [rowHalf] at h
  split at h
  · exact sweepRows_safe h
  · exact sweepRows_safe h
  · split at h
    · exact sweepRows_safe h
    · exact sweepRows_safe h

theorem reembedRows_safe {call : ReembedCall} {token : Option String} {db : Db} {commit : Commit}
    (h : commit ∈ (reembedRows d w blocks ns space call token db).1) : commit.Safe d := by
  rw [reembedRows] at h
  split at h
  · cases h
  · split at h
    · split at h
      · generalize hceiling : (if _ = "" then _ else _ : String) = ceiling at h
        dsimp only at h
        split at h
        · cases h
        · exact rowHalf_safe h
      · split at h
        · cases h
        · cases h
    · cases h

/-- Whatever the other writers do, no page of a run writes a vector of another text than the
committed one, or over a vector that it has not read. -/
theorem reembedRun_safe {calls : List ReembedCall} {token : Option String} {db : Db}
    {commit : Commit} (h : commit ∈ (reembedRun d w blocks ns space calls token db).1) :
    commit.Safe d := by
  induction calls generalizing token db with
  | nil => cases h
  | cons call calls ih =>
      have hcall : ∀ commits, (reembedRows d w blocks ns space call token (call.start db)).1 =
          commits → commit ∈ commits → commit.Safe d := fun commits hcommits hmem =>
        reembedRows_safe (hcommits ▸ hmem)
      rw [reembedRun] at h
      split at h
      · rename_i commits left hrows
        exact hcall commits (by rw [hrows]) h
      · rename_i commits resumed left hrows
        exact (List.mem_append.mp h).elim (hcall commits (by rw [hrows])) ih
      · rename_i commits left hrows
        exact (List.mem_append.mp h).elim (hcall commits (by rw [hrows])) ih

end

end TrwMemory.Embeddings

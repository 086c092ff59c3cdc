import TrwMemory.Library.StableSort
import TrwMemory.Library.Verdicts
import TrwMemory.Retrieval.ValidityPrior
import TrwMemory.Storage.Database

/-!
Keyword search (`storage/_fts_query.py`): the keys that a `MATCH` finds are read a page at a time
in rank order, the rows of a page are fetched by key, filtered and selected, put back into rank
order and added to the results. Pages double until there are enough results or no more keys.

The keys come in one rank order throughout, and a key may come twice. Rows are entries here; a row
that cannot be decoded is not among them. How the text of a query becomes a `MATCH` is left out.
-/
namespace TrwMemory.Storage

open Library Retrieval

/-- What `dict.fromkeys` leaves of a part is that part of what it leaves. -/
theorem eraseDups_filter {α : Type} [BEq α] [LawfulBEq α] (p : α → Bool) (l : List α) :
    (l.filter p).eraseDups = l.eraseDups.filter p := by
  induction hn : l.length using Nat.strongRecOn generalizing l with
  | ind n ih =>
      cases l with
      | nil => rfl
      | cons a l =>
          have hless : ∀ q : α → Bool, (l.filter q).length < n := fun q =>
            (Nat.lt_succ_of_le (List.length_filter_le q l)).trans_eq hn
          rw [List.eraseDups_cons]
          by_cases ha : p a = true
          · rw [List.filter_cons_of_pos ha, List.eraseDups_cons, List.filter_cons_of_pos ha,
              List.filter_comm, ih _ (hless _) _ rfl]
          · rw [List.filter_cons_of_neg ha, List.filter_cons_of_neg ha,
              ← ih _ (hless _) _ rfl, List.filter_comm, List.filter_filter]
            congr 1
            refine List.filter_congr fun b hb => ?_
            by_cases hba : b = a
            · subst hba
              simp [ha]
            · simp [hba]

theorem contains_eraseDups {α : Type} [BEq α] [LawfulBEq α] (l : List α) (a : α) :
    l.eraseDups.contains a = l.contains a := by
  have hmem : a ∈ l.eraseDups ↔ a ∈ l := List.mem_eraseDups
  rw [Bool.eq_iff_iff, List.contains_iff_mem, List.contains_iff_mem, hmem]

/-- The rows in the order in which a page is fetched, and the keys that `MATCH` finds in rank
order; `none` is a query without terms. -/
structure FtsStore where
  table : List MemoryEntry
  keys : (table.map rowKey).Nodup
  ranked : Option (List RowKey)

structure FtsQuery where
  topK : Int
  status : Option MemoryStatus
  minImportance : Rat
  ns : Option String
  tags : List String
  selection : Option TemporalSelection
  entryFilter : Option (MemoryEntry → Bool)

namespace FtsQuery

variable (query : FtsQuery)

/-- `_build_filter_clause` and `_append_exact_tag_filters`. -/
def passes (e : MemoryEntry) : Bool :=
  query.status.all (e.status == ·) &&
    (!(query.minImportance > 0) || query.minImportance ≤ e.importance) &&
    query.ns.all (e.ns == ·) &&
    query.tags.all e.tags.contains

def filter (e : MemoryEntry) : Bool := query.entryFilter.all fun p => p e

end FtsQuery

section

variable (py : Python) (dateFromisoformat : String → Option Int) (store : FtsStore)
  (query : FtsQuery)

def canary (selection : TemporalSelection) (e : MemoryEntry) : Bool :=
  selection.excludeSystemCanaries && isSystemCanary e.metadata

/-- `TemporalMaterialization.retain`, of a row for which there is room. -/
def retained (selection : TemporalSelection) (e : MemoryEntry) : Except PyError Bool :=
  if canary selection e then .ok false
  else
    (selection.eligible py dateFromisoformat (windowOf e)).map fun isOpen =>
      isOpen || selection.includeSuperseded

def retainRows (selection : TemporalSelection) :
    List MemoryEntry → Except PyError (List MemoryEntry)
  | [] => .ok []
  | e :: rows => do
      let keep ← retained py dateFromisoformat selection e
      let kept ← retainRows selection rows
      return if keep then e :: kept else kept

/-- `execute_temporal_query`: rows are dropped early, filtered and selected. -/
def executeTemporalQuery (rows : List MemoryEntry) (limit : Nat) :
    Except PyError (List MemoryEntry) :=
  match query.selection with
  | some selection => do
      let kept ← retainRows py dateFromisoformat selection rows
      select (selection.eligible py dateFromisoformat) selection limit (kept.filter query.filter)
  | none => .ok ((rows.filter query.filter).take limit)

/-- `_fetch_keys`. -/
def fetchKeys (keys : List RowKey) : Except PyError (List MemoryEntry) :=
  if keys = [] then .ok []
  else
    executeTemporalQuery py dateFromisoformat query
      (store.table.filter fun e => keys.contains (rowKey e) && query.passes e) keys.length

/-- The keys that `candidate_sql` lists. -/
def candidates : List RowKey :=
  (store.ranked.getD []).filter fun key =>
    store.table.any fun e => rowKey e == key && query.passes e

/-- The loop; `rank.get(key, len(keys))` is the place among the keys. -/
def searchLoop : Nat → Nat → Nat → List RowKey → List MemoryEntry →
    Except PyError (List MemoryEntry)
  | 0, _, _, _, results => .ok results
  | fuel + 1, offset, page, seen, results =>
      let rows := ((candidates store query).drop offset).take page
      if query.topK ≤ results.length ∨ rows = [] then .ok results
      else do
        let keys := rows.eraseDups.filter fun key => !seen.contains key
        let batch ← fetchKeys py dateFromisoformat store query keys
        let results := results ++ sortBy (fun e => keys.idxOf (rowKey e)) batch
        if rows.length < page then .ok results
        else searchLoop fuel (offset + page) (page * 2) (seen ++ keys) results

/-- `search_fts`. -/
def searchFts : Except PyError (List MemoryEntry) :=
  if query.topK ≤ 0 then .ok []
  else
    match store.ranked with
    | none => .ok []
    | some ranked =>
        (searchLoop py dateFromisoformat store query (ranked.length + 1) 0
          (min (query.topK.toNat * 4) 500) [] []).map fun results => results.take query.topK.toNat

/-- The rows that match and pass the filters, in rank order. -/
def filteredMatches : List MemoryEntry :=
  ((candidates store query).eraseDups.filterMap fun key =>
    store.table.find? fun e => rowKey e == key).filter query.filter

end

section Select

variable {eligible : Window → Except PyError Bool} {selection : TemporalSelection} {limit : Nat}

variable (eligible selection) in
/-- An entry that the selection takes first. -/
def isEligible (e : MemoryEntry) : Bool :=
  !canary selection e && (eligible (windowOf e)).toOption == some true

variable (eligible selection) in
/-- An entry that the selection takes where there is room left. -/
def isDeferred (e : MemoryEntry) : Bool :=
  selection.includeSuperseded && !canary selection e &&
    (eligible (windowOf e)).toOption == some false

theorem selectFrom_finish {entries : List MemoryEntry} {selected selected' : Selected}
    (hroom : selected.eligible.length ≤ limit)
    (h : selectFrom eligible selection limit selected entries = .ok selected') :
    selected'.finish limit =
      (selected.eligible ++ entries.filter (isEligible eligible selection)).take limit ++
        (selected.deferred ++ entries.filter (isDeferred eligible selection)).take
          (limit - (selected.eligible ++
            entries.filter (isEligible eligible selection)).length) := by
  induction entries generalizing selected with
  | nil =>
      obtain rfl := Except.ok.inj h
      rw [List.filter_nil, List.filter_nil, List.append_nil, List.append_nil,
        List.take_of_length_le hroom]
      rfl
  | cons e entries ih =>
      rw [selectFrom] at h
      split at h
      · rename_i hfull
        obtain rfl := Except.ok.inj h
        have hlength : selected.eligible.length = limit := by simpa [Selected.isFull] using hfull
        rw [Selected.finish, List.take_append_of_le_length hlength.ge,
          List.take_of_length_le hlength.le, List.length_append]
        have hnone : limit - selected.eligible.length = 0 := by omega
        have hnone' : limit - (selected.eligible.length +
          ((e :: entries).filter (isEligible eligible selection)).length) = 0 := by omega
        rw [hnone, hnone', List.take_zero, List.take_zero]
      · rename_i hfull
        have hless : selected.eligible.length < limit := by
          have hne : selected.eligible.length ≠ limit := by simpa [Selected.isFull] using hfull
          omega
        cases hcanary : canary selection e with
        | true =>
            have hoffer : offer eligible selection limit selected e = .ok selected := by
              rw [offer]
              exact if_pos hcanary
            rw [hoffer] at h
            rw [List.filter_cons_of_neg (by simp [isEligible, hcanary]),
              List.filter_cons_of_neg (by simp [isDeferred, hcanary])]
            exact ih hroom h
        | false =>
            have hoffer : offer eligible selection limit selected e = (eligible (windowOf e)).bind
                fun isOpen => cond isOpen
                  (.ok { selected with eligible := selected.eligible ++ [e] })
                  (if selection.includeSuperseded && selected.deferred.length < limit then
                    .ok { selected with deferred := selected.deferred ++ [e] }
                  else .ok selected) := by
              rw [offer]
              refine (if_neg ?_).trans (congrArg _ (funext fun isOpen => ?_))
              · rw [show (selection.excludeSystemCanaries &&
                  isSystemCanary e.metadata) = false from hcanary]
                exact Bool.false_ne_true
              · cases isOpen <;> rfl
            rw [hoffer] at h
            cases hopen : eligible (windowOf e) with
            | error error =>
                rw [hopen] at h
                cases h
            | ok isOpen =>
                rw [hopen] at h
                cases isOpen with
                | true =>
                    have hnext := @ih { selected with eligible := selected.eligible ++ [e] }
                      (by
                        simp only [List.length_append, List.length_singleton]
                        omega) h
                    rw [List.filter_cons_of_pos
                      (by simp [isEligible, hcanary, hopen, Except.toOption]),
                      List.filter_cons_of_neg (by simp [isDeferred, hopen, Except.toOption])]
                    simpa using hnext
                | false =>
                    rw [List.filter_cons_of_neg (by simp [isEligible, hopen, Except.toOption])]
                    cases hwanted : selection.includeSuperseded with
                    | false =>
                        rw [List.filter_cons_of_neg (by simp [isDeferred, hwanted])]
                        exact ih hroom (by simpa [bind, Except.bind, hwanted] using h)
                    | true =>
                        rw [List.filter_cons_of_pos
                          (by simp [isDeferred, hcanary, hopen, hwanted, Except.toOption])]
                        by_cases hspace : selected.deferred.length < limit
                        · have hnext := @ih { selected with deferred := selected.deferred ++ [e] }
                            hroom (by simpa [bind, Except.bind, hwanted, hspace] using h)
                          simpa using hnext
                        · have hfilled : limit - (selected.eligible ++
                              entries.filter (isEligible eligible selection)).length ≤
                              selected.deferred.length := by omega
                          rw [ih hroom (by simpa [bind, Except.bind, hwanted, hspace] using h),
                            List.take_append_of_le_length hfilled,
                            List.take_append_of_le_length hfilled]

/-- A selection takes the eligible entries and then the deferred ones, each class in its order. -/
theorem select_eq {entries taken : List MemoryEntry}
    (h : select eligible selection limit entries = .ok taken) :
    taken = (entries.filter (isEligible eligible selection)).take limit ++
      (entries.filter (isDeferred eligible selection)).take
        (limit - (entries.filter (isEligible eligible selection)).length) := by
  rw [select] at h
  split at h
  · cases h
  · cases hfrom : selectFrom eligible selection limit ⟨[], []⟩ entries with
    | error error =>
        rw [hfrom] at h
        cases h
    | ok selected =>
        rw [hfrom] at h
        obtain rfl := Except.ok.inj h
        exact selectFrom_finish (Nat.zero_le limit) hfrom

variable (eligible selection) in
/-- An entry that the selection may take. -/
def admits (e : MemoryEntry) : Bool :=
  isEligible eligible selection e || isDeferred eligible selection e

theorem not_both (e : MemoryEntry) (h : isEligible eligible selection e = true) :
    isDeferred eligible selection e = false := by
  rw [isEligible, Bool.and_eq_true, beq_iff_eq] at h
  simp [isDeferred, h.2]

variable (eligible selection) in
theorem admits_split (entries : List MemoryEntry) :
    (entries.filter (admits eligible selection)).filter (isEligible eligible selection) =
        entries.filter (isEligible eligible selection) ∧
      ((entries.filter (admits eligible selection)).filter fun e =>
        !isEligible eligible selection e) = entries.filter (isDeferred eligible selection) := by
  rw [List.filter_filter, List.filter_filter]
  refine ⟨List.filter_congr fun e _ => ?_, List.filter_congr fun e _ => ?_⟩
  · cases he : isEligible eligible selection e <;> simp [admits, he]
  · cases he : isEligible eligible selection e with
    | true => simp [not_both e he]
    | false => simp [admits, he]

/-- With room for all, a selection only reorders. -/
theorem select_perm {entries taken : List MemoryEntry} (hroom : entries.length ≤ limit)
    (h : select eligible selection limit entries = .ok taken) :
    taken.Perm (entries.filter (admits eligible selection)) := by
  have hsplit := List.filter_append_perm (isEligible eligible selection)
    (entries.filter (admits eligible selection))
  obtain ⟨hfirst, hsecond⟩ := admits_split eligible selection entries
  rw [hfirst, hsecond] at hsplit
  have hcount := hsplit.length_eq
  rw [List.length_append] at hcount
  have hall := List.length_filter_le (admits eligible selection) entries
  rw [select_eq h, List.take_of_length_le (by omega), List.take_of_length_le (by omega)]
  exact hsplit

/-- The selection can tell of an entry whether it is eligible. -/
def Judged (eligible : Window → Except PyError Bool) (selection : TemporalSelection)
    (e : MemoryEntry) : Prop :=
  canary selection e = true ∨ ∃ isOpen, eligible (windowOf e) = .ok isOpen

theorem offer_judged {e : MemoryEntry} (h : Judged eligible selection e) (selected : Selected) :
    ∃ selected', offer eligible selection limit selected e = .ok selected' := by
  rw [offer]
  rcases h with hcanary | ⟨isOpen, hopen⟩
  · exact ⟨selected, if_pos hcanary⟩
  · rw [hopen]
    split
    · exact ⟨_, rfl⟩
    · cases isOpen with
      | true => exact ⟨_, rfl⟩
      | false =>
          simp only [bind, Except.bind]
          split <;> exact ⟨_, rfl⟩

theorem select_judged {entries : List MemoryEntry} (hlimit : limit ≠ 0)
    (h : ∀ e ∈ entries, Judged eligible selection e) :
    ∃ taken, select eligible selection limit entries = .ok taken := by
  have hfrom : ∀ selected, ∃ selected',
      selectFrom eligible selection limit selected entries = .ok selected' := by
    induction entries with
    | nil => exact fun selected => ⟨selected, rfl⟩
    | cons e entries ih =>
        intro selected
        obtain ⟨hjudged, hentries⟩ := List.forall_mem_cons.mp h
        rw [selectFrom]
        split
        · exact ⟨selected, rfl⟩
        · obtain ⟨between, hoffer⟩ := offer_judged hjudged selected
          rw [hoffer]
          exact ih hentries between
  obtain ⟨selected, hselected⟩ := hfrom ⟨[], []⟩
  exact ⟨selected.finish limit, by rw [select, if_neg hlimit, hselected]; rfl⟩

end Select

end TrwMemory.Storage

import TrwMemory.Storage.CodecRoundTrips
import TrwMemory.Storage.FtsSearch

/-!
What a keyword search returns. A page is put back into the order of its keys, so the results so
far are what all keys so far would give, and the loop ends with enough of them or with all.

A selection takes eligible rows before superseded ones; a search only drops what its selection
never takes, and leaves the rest in rank order.
-/
namespace TrwMemory.Storage

open Library Retrieval

section Pages

variable {py : Python} {dateFromisoformat : String → Option Int} {store : FtsStore}
  {query : FtsQuery}

theorem retained_eq {selection : TemporalSelection} {e : MemoryEntry} {keep : Bool}
    (h : retained py dateFromisoformat selection e = .ok keep) :
    keep = admits (selection.eligible py dateFromisoformat) selection e := by
  rw [retained] at h
  split at h
  · rename_i hcanary
    obtain rfl := Except.ok.inj h
    simp [admits, isEligible, isDeferred, hcanary]
  · rename_i hcanary
    cases hopen : selection.eligible py dateFromisoformat (windowOf e) with
    | error error =>
        rw [hopen] at h
        cases h
    | ok isOpen =>
        rw [hopen] at h
        obtain rfl := Except.ok.inj h
        cases isOpen <;> simp [admits, isEligible, isDeferred, hcanary, hopen, Except.toOption]

theorem retainRows_eq {selection : TemporalSelection} {rows kept : List MemoryEntry}
    (h : retainRows py dateFromisoformat selection rows = .ok kept) :
    kept = rows.filter (admits (selection.eligible py dateFromisoformat) selection) := by
  induction rows generalizing kept with
  | nil => exact (Except.ok.inj h).symm
  | cons e rows ih =>
      obtain ⟨keep, hkeep, h⟩ := bind_eq_ok h
      obtain ⟨rest, hrest, h⟩ := bind_eq_ok h
      obtain rfl := Except.ok.inj h
      rw [List.filter_cons, ← retained_eq hkeep, ← ih hrest]

theorem retainRows_judged {selection : TemporalSelection} {rows : List MemoryEntry}
    (h : ∀ e ∈ rows, Judged (selection.eligible py dateFromisoformat) selection e) :
    ∃ kept, retainRows py dateFromisoformat selection rows = .ok kept := by
  induction rows with
  | nil => exact ⟨[], rfl⟩
  | cons e rows ih =>
      obtain ⟨hjudged, hrows⟩ := List.forall_mem_cons.mp h
      obtain ⟨kept, hkept⟩ := ih hrows
      have hretained : ∃ keep, retained py dateFromisoformat selection e = .ok keep := by
        rw [retained]
        rcases hjudged with hcanary | ⟨isOpen, hopen⟩
        · exact ⟨false, if_pos hcanary⟩
        · rw [hopen]
          split <;> exact ⟨_, rfl⟩
      obtain ⟨keep, hkeep⟩ := hretained
      exact ⟨if keep then e :: kept else kept, by rw [retainRows, hkeep, hkept]; rfl⟩

variable (py dateFromisoformat query) in
/-- Whether the selection, if there is one, may take an entry. -/
def FtsQuery.admits (e : MemoryEntry) : Bool :=
  query.selection.all fun selection =>
    Storage.admits (selection.eligible py dateFromisoformat) selection e

variable (py dateFromisoformat query) in
def FtsQuery.Judges (e : MemoryEntry) : Prop :=
  ∀ selection ∈ query.selection, Judged (selection.eligible py dateFromisoformat) selection e

variable (py dateFromisoformat query) in
/-- An entry that a search may return. -/
def FtsQuery.returns (e : MemoryEntry) : Bool :=
  query.filter e && query.admits py dateFromisoformat e

theorem executeTemporalQuery_perm {rows batch : List MemoryEntry} {limit : Nat}
    (hroom : rows.length ≤ limit)
    (h : executeTemporalQuery py dateFromisoformat query rows limit = .ok batch) :
    batch.Perm (rows.filter (query.returns py dateFromisoformat)) := by
  rw [executeTemporalQuery] at h
  have hreturns : query.returns py dateFromisoformat =
      fun e => query.filter e && query.admits py dateFromisoformat e := rfl
  split at h
  · rename_i selection hselection
    obtain ⟨kept, hkept, hselect⟩ := bind_eq_ok h
    obtain rfl := retainRows_eq hkept
    have hlength := List.length_filter_le query.filter
      (rows.filter (admits (selection.eligible py dateFromisoformat) selection))
    have hlength' := List.length_filter_le
      (admits (selection.eligible py dateFromisoformat) selection) rows
    have hperm := select_perm (by omega) hselect
    rw [List.filter_filter, List.filter_filter] at hperm
    refine hperm.trans (List.Perm.of_eq (List.filter_congr fun e _ => ?_))
    simp only [hreturns, FtsQuery.admits, hselection, Option.all_some]
    cases query.filter e <;> simp
  · rename_i hselection
    obtain rfl := Except.ok.inj h
    have hlength := List.length_filter_le query.filter rows
    rw [List.take_of_length_le (by omega)]
    refine List.Perm.of_eq (List.filter_congr fun e _ => ?_)
    simp [hreturns, FtsQuery.admits, hselection]

theorem executeTemporalQuery_judged {rows : List MemoryEntry} {limit : Nat} (hlimit : limit ≠ 0)
    (h : ∀ e ∈ rows, query.Judges py dateFromisoformat e) :
    ∃ batch, executeTemporalQuery py dateFromisoformat query rows limit = .ok batch := by
  rw [executeTemporalQuery]
  split
  · rename_i selection hselection
    have hjudged : ∀ e ∈ rows, Judged (selection.eligible py dateFromisoformat) selection e :=
      fun e he => h e he selection hselection
    obtain ⟨kept, hkept⟩ := retainRows_judged hjudged
    have hsubset : ∀ e ∈ kept.filter query.filter, e ∈ rows := by
      rw [retainRows_eq hkept]
      exact fun e he => List.mem_of_mem_filter (List.mem_of_mem_filter he)
    obtain ⟨taken, htaken⟩ := select_judged hlimit fun e he => hjudged e (hsubset e he)
    exact ⟨taken, by rw [hkept]; exact htaken⟩
  · exact ⟨_, rfl⟩

variable (store) in
def FtsStore.rowOf (key : RowKey) : Option MemoryEntry :=
  store.table.find? fun e => rowKey e == key

theorem rowOf_eq_some {key : RowKey} {e : MemoryEntry} :
    store.rowOf key = some e ↔ e ∈ store.table ∧ rowKey e = key := by
  have hinj : ∀ e ∈ store.table, ∀ e' ∈ store.table, rowKey e = rowKey e' → e = e' :=
    fun e he e' he' heq => List.inj_on_of_nodup_map store.keys he he' heq
  have hkey : ∀ {key e}, store.rowOf key = some e → rowKey e = key := fun {key e} h =>
    beq_iff_eq.mp (@List.find?_some MemoryEntry (fun e => rowKey e == key) _ _ h)
  constructor
  · intro h
    exact ⟨List.mem_of_find?_eq_some h, hkey h⟩
  · rintro ⟨he, rfl⟩
    cases h : store.rowOf (rowKey e) with
    | none =>
        have hnone := List.find?_eq_none.mp h e he
        exact absurd (beq_self_eq_true _) hnone
    | some e' =>
        rw [hinj e' (List.mem_of_find?_eq_some h) e he (hkey h)]

theorem passes_of_candidate {e : MemoryEntry} (he : e ∈ store.table)
    (h : rowKey e ∈ candidates store query) : query.passes e = true := by
  obtain ⟨-, hany⟩ := List.mem_filter.mp h
  obtain ⟨e', he', hmatch⟩ := List.any_eq_true.mp hany
  rw [Bool.and_eq_true, beq_iff_eq] at hmatch
  obtain rfl := List.inj_on_of_nodup_map store.keys he' he hmatch.1
  exact hmatch.2

/-- Where a key without repetitions stands. -/
theorem pairwise_idxOf {keys : List RowKey} (h : keys.Nodup) :
    keys.Pairwise fun a b => keys.idxOf a ≤ keys.idxOf b := by
  refine List.pairwise_iff_getElem.mpr fun i j hi hj hij => ?_
  rw [h.idxOf_getElem i hi, h.idxOf_getElem j hj]
  exact hij.le

/-- A page is put back into the order of its keys. -/
theorem fetchKeys_sorted {keys : List RowKey} {batch : List MemoryEntry} (hkeys : keys.Nodup)
    (hcandidates : ∀ key ∈ keys, key ∈ candidates store query)
    (h : fetchKeys py dateFromisoformat store query keys = .ok batch) :
    sortBy (fun e => keys.idxOf (rowKey e)) batch =
      (keys.filterMap store.rowOf).filter (query.returns py dateFromisoformat) := by
  have htable : store.table.Nodup := store.keys.of_map
  rw [fetchKeys] at h
  split at h
  · rename_i hnone
    obtain rfl := Except.ok.inj h
    rw [hnone]
    rfl
  · generalize hrows : (store.table.filter fun e => keys.contains (rowKey e) && query.passes e) =
      rows at h
    have hmem : ∀ e, e ∈ rows ↔ e ∈ store.table ∧ rowKey e ∈ keys := by
      intro e
      rw [← hrows, List.mem_filter, Bool.and_eq_true, List.contains_iff_mem]
      exact and_congr_right fun he =>
        and_iff_left_of_imp fun hkey => passes_of_candidate he (hcandidates _ hkey)
    have hnodup : rows.Nodup := hrows ▸ htable.filter _
    have hroom : rows.length ≤ keys.length := by
      have hsubset : rows.map rowKey ⊆ keys := by
        intro key hkey
        obtain ⟨e, he, rfl⟩ := List.mem_map.mp hkey
        exact ((hmem e).mp he).2
      have hdistinct : (rows.map rowKey).Nodup :=
        hrows ▸ (List.filter_sublist.map rowKey).nodup store.keys
      have hle := (List.subperm_of_subset hdistinct hsubset).length_le
      rwa [List.length_map] at hle
    have hperm := executeTemporalQuery_perm hroom h
    have hfetched : ∀ e, e ∈ batch ↔ (e ∈ store.table ∧ rowKey e ∈ keys) ∧
        query.returns py dateFromisoformat e = true := fun e => by
      rw [hperm.mem_iff, List.mem_filter, hmem]
    have hlisted : ∀ e, e ∈ (keys.filterMap store.rowOf).filter
        (query.returns py dateFromisoformat) ↔ (e ∈ store.table ∧ rowKey e ∈ keys) ∧
        query.returns py dateFromisoformat e = true := by
      intro e
      rw [List.mem_filter, List.mem_filterMap]
      refine and_congr_left fun _ => ?_
      constructor
      · rintro ⟨key, hkey, hrow⟩
        obtain ⟨he, rfl⟩ := rowOf_eq_some.mp hrow
        exact ⟨he, hkey⟩
      · rintro ⟨he, hkey⟩
        exact ⟨rowKey e, hkey, rowOf_eq_some.mpr ⟨he, rfl⟩⟩
    have hdistinct : ((keys.filterMap store.rowOf).filter
        (query.returns py dateFromisoformat)).Nodup := by
      refine (hkeys.filterMap fun key key' e he he' => ?_).filter _
      exact (rowOf_eq_some.mp he).2.symm.trans (rowOf_eq_some.mp he').2
    have hbatch : batch.Nodup := hperm.nodup_iff.mpr (hnodup.filter _)
    have hsame : (sortBy (fun e => keys.idxOf (rowKey e)) batch).Perm
        ((keys.filterMap store.rowOf).filter (query.returns py dateFromisoformat)) :=
      (sortBy_perm _ batch).trans ((List.perm_ext_iff_of_nodup hbatch hdistinct).mpr fun e =>
        (hfetched e).trans (hlisted e).symm)
    refine @List.Perm.eq_of_pairwise MemoryEntry
      (fun e e' => keys.idxOf (rowKey e) ≤ keys.idxOf (rowKey e')) _ _
      (fun e e' he he' hle hge => ?_) (sortBy_sorted _ batch) ?_ hsame
    · obtain ⟨⟨he, hkey⟩, -⟩ := (hfetched e).mp (mem_sortBy.mp he)
      obtain ⟨⟨he', -⟩, -⟩ := (hlisted e').mp he'
      have hkeyEq := (List.idxOf_inj hkey).mp (le_antisymm hle hge)
      exact List.inj_on_of_nodup_map store.keys he he' hkeyEq
    · refine List.Pairwise.filter _ (List.pairwise_filterMap.mpr ?_)
      refine (pairwise_idxOf hkeys).imp fun hle e he e' he' => ?_
      rw [(rowOf_eq_some.mp he).2, (rowOf_eq_some.mp he').2]
      exact hle

variable (py dateFromisoformat store query) in
/-- What a search returns of some keys in rank order, without a limit. -/
def returned (keys : List RowKey) : List MemoryEntry :=
  (keys.eraseDups.filterMap store.rowOf).filter (query.returns py dateFromisoformat)

variable (py dateFromisoformat store query) in
theorem returned_append (seen keys : List RowKey) :
    returned py dateFromisoformat store query (seen ++ keys) =
      returned py dateFromisoformat store query seen ++
        ((keys.eraseDups.filter fun key => !seen.eraseDups.contains key).filterMap
          store.rowOf).filter (query.returns py dateFromisoformat) := by
  simp only [contains_eraseDups]
  rw [returned, List.eraseDups_append, List.removeAll, eraseDups_filter, List.filterMap_append,
    List.filter_append]
  rfl

/-- With fuel for all keys, the loop has collected enough or all. -/
theorem searchLoop_returned {fuel offset page : Nat} {seen : List RowKey}
    {results found : List MemoryEntry} (hpage : 0 < page)
    (hseen : seen = ((candidates store query).take offset).eraseDups)
    (hresults : results =
      returned py dateFromisoformat store query ((candidates store query).take offset))
    (hfuel : (candidates store query).length < offset + fuel)
    (h : searchLoop py dateFromisoformat store query fuel offset page seen results = .ok found) :
    found.take query.topK.toNat =
      (returned py dateFromisoformat store query (candidates store query)).take
        query.topK.toNat := by
  induction fuel generalizing offset page seen results with
  | zero =>
      obtain rfl := Except.ok.inj h
      rw [hresults, List.take_of_length_le (l := candidates store query) (by omega)]
  | succ fuel ih =>
      rw [searchLoop] at h
      split at h
      · rename_i hstop
        obtain rfl := Except.ok.inj h
        rcases hstop with henough | hnone
        · have hsplit := returned_append py dateFromisoformat store query
            ((candidates store query).take offset)
            ((candidates store query).drop offset)
          rw [List.take_append_drop, ← hresults] at hsplit
          rw [hsplit, List.take_append_of_le_length (by omega)]
        · have hend : (candidates store query).drop offset = [] := by
            rcases List.take_eq_nil_iff.mp hnone with hzero | hend
            · omega
            · exact hend
          have hlength := List.drop_eq_nil_iff.mp hend
          rw [hresults, List.take_of_length_le hlength]
      · obtain ⟨batch, hbatch, h⟩ := bind_eq_ok h
        have hkeys := Keyed.nodup_eraseDups (((candidates store query).drop offset).take page)
        have hnext : (candidates store query).take (offset + page) =
            (candidates store query).take offset ++
              ((candidates store query).drop offset).take page := List.take_add
        have hsorted := fetchKeys_sorted (hkeys.filter fun key => !seen.contains key)
          (fun key hkey => List.mem_of_mem_drop (List.mem_of_mem_take
            (List.mem_eraseDups.mp (List.mem_of_mem_filter hkey)))) hbatch
        have hgrown := returned_append py dateFromisoformat store query
          ((candidates store query).take offset)
          (((candidates store query).drop offset).take page)
        rw [← hnext, ← hseen, ← hsorted, ← hresults] at hgrown
        dsimp only at h
        split at h
        · rename_i hlast
          obtain rfl := Except.ok.inj h
          rw [List.length_take, List.length_drop] at hlast
          rw [← hgrown, List.take_of_length_le (l := candidates store query) (by omega)]
        · refine ih (by omega) ?_ hgrown.symm (by omega) h
          rw [hnext, List.eraseDups_append, List.removeAll, eraseDups_filter, hseen]
          simp only [contains_eraseDups]

/-- The loop returns a list where the selection can tell of every match whether it is eligible. -/
theorem searchLoop_judged (hjudged : ∀ e ∈ store.table, rowKey e ∈ candidates store query →
      query.Judges py dateFromisoformat e) (fuel offset page : Nat) (seen : List RowKey)
    (results : List MemoryEntry) : ∃ found,
      searchLoop py dateFromisoformat store query fuel offset page seen results = .ok found := by
  induction fuel generalizing offset page seen results with
  | zero => exact ⟨results, rfl⟩
  | succ fuel ih =>
      rw [searchLoop]
      split
      · exact ⟨results, rfl⟩
      · have hfetched : ∀ keys : List RowKey, (∀ key ∈ keys, key ∈ candidates store query) →
            ∃ batch, fetchKeys py dateFromisoformat store query keys = .ok batch := by
          intro keys hkeys
          rw [fetchKeys]
          split
          · exact ⟨[], rfl⟩
          · rename_i hne
            refine executeTemporalQuery_judged
              (fun hzero => hne (List.length_eq_zero_iff.mp hzero)) fun e he => ?_
            obtain ⟨he, hmatch⟩ := List.mem_filter.mp he
            rw [Bool.and_eq_true, List.contains_iff_mem] at hmatch
            exact hjudged e he (hkeys _ hmatch.1)
        obtain ⟨batch, hbatch⟩ := hfetched
          ((((candidates store query).drop offset).take page).eraseDups.filter fun key =>
            !seen.contains key)
          fun key hkey => List.mem_of_mem_drop (List.mem_of_mem_take
            (List.mem_eraseDups.mp (List.mem_of_mem_filter hkey)))
        dsimp only
        rw [hbatch]
        dsimp only [bind, Except.bind]
        split
        · exact ⟨_, rfl⟩
        · exact ih _ _ _ _

/-- The loop has come to its end where there is fuel for all keys. -/
theorem searchLoop_fuel {fuel offset page : Nat} {seen : List RowKey}
    {results : List MemoryEntry} (hpage : 0 < page)
    (hfuel : (candidates store query).length < offset + fuel) :
    searchLoop py dateFromisoformat store query (fuel + 1) offset page seen results =
      searchLoop py dateFromisoformat store query fuel offset page seen results := by
  induction fuel generalizing offset page seen results with
  | zero =>
      have hend : ((candidates store query).drop offset).take page = [] := by
        rw [List.drop_eq_nil_of_le (by omega), List.take_nil]
      rw [searchLoop, searchLoop]
      exact if_pos (Or.inr hend)
  | succ fuel ih =>
      rw [searchLoop]
      conv_rhs => rw [searchLoop]
      dsimp only
      congr 2
      funext batch
      congr 1
      exact ih (by omega) (by omega)

theorem returned_eq : returned py dateFromisoformat store query (candidates store query) =
    (filteredMatches store query).filter (query.admits py dateFromisoformat) := by
  rw [returned, filteredMatches, List.filter_filter]
  exact List.filter_congr fun e _ => Bool.and_comm _ _

end Pages

/-- To take the first entries of a list is to take its entries of one class first exactly if no
other entry among these comes before one of the class. -/
theorem take_eq_classes_iff {α : Type} (p : α → Bool) (l : List α) (n : Nat) :
    l.take n = (l.filter p).take n ++ (l.filter fun a => !p a).take (n - (l.filter p).length) ↔
      ∀ before a after, l = before ++ a :: after → before.length < n → p a = false →
        ∀ b ∈ after, p b = false := by
  induction l generalizing n with
  | nil => simp
  | cons a l ih =>
      cases n with
      | zero => simp
      | succ n =>
          cases ha : p a with
          | true =>
              rw [List.filter_cons_of_pos ha, List.filter_cons_of_neg (by simp [ha]),
                List.take_succ_cons, List.take_succ_cons, List.cons_append, List.cons_inj_right,
                List.length_cons, Nat.add_sub_add_right, ih]
              constructor
              · intro h before b after hsplit hlength hb
                cases before with
                | nil =>
                    obtain ⟨rfl, -⟩ := List.cons.inj hsplit
                    rw [ha] at hb
                    cases hb
                | cons c before =>
                    exact h before b after (List.cons.inj hsplit).2
                      (Nat.lt_of_succ_lt_succ hlength) hb
              · intro h before b after hsplit hlength
                exact h (a :: before) b after (by rw [hsplit]; rfl) (Nat.succ_lt_succ hlength)
          | false =>
              have hrest : (l.filter p = [] ↔ ∀ b ∈ l, p b = false) := by
                simp [List.filter_eq_nil_iff]
              rw [List.filter_cons_of_neg (by simp [ha]), List.filter_cons_of_pos (by simp [ha])]
              constructor
              · intro h before b after hsplit hlength hb
                have hnone : l.filter p = [] := by
                  cases hclass : l.filter p with
                  | nil => rfl
                  | cons c cs =>
                      rw [hclass, List.take_succ_cons, List.take_succ_cons] at h
                      have hc : p c = true := (List.mem_filter.mp
                        (hclass ▸ List.mem_cons_self : c ∈ l.filter p)).2
                      rw [(List.cons.inj h).1, hc] at ha
                      cases ha
                have hall : ∀ b ∈ a :: l, p b = false :=
                  List.forall_mem_cons.mpr ⟨ha, hrest.mp hnone⟩
                rw [hsplit] at hall
                exact fun c hc => hall c (List.mem_append_right _ (List.mem_cons_of_mem b hc))
              · intro h
                have hall := h [] a l rfl (Nat.succ_pos n) ha
                rw [hrest.mpr hall, List.take_nil, List.nil_append, List.length_nil, Nat.sub_zero,
                  List.filter_eq_self.mpr fun b hb => by rw [hall b hb]; rfl]

section

variable {py : Python} {dateFromisoformat : String → Option Int} {store : FtsStore}
  {query : FtsQuery}

theorem candidates_of_ranked {ranked : List RowKey} (h : store.ranked = some ranked) :
    (candidates store query).length ≤ ranked.length := by
  rw [candidates, h, Option.getD_some]
  exact List.length_filter_le _ _

theorem searchFts_returned {results : List MemoryEntry}
    (h : searchFts py dateFromisoformat store query = .ok results) :
    results = ((filteredMatches store query).filter (query.admits py dateFromisoformat)).take
      query.topK.toNat := by
  rw [searchFts] at h
  split at h
  · rename_i hnone
    obtain rfl := Except.ok.inj h
    rw [Int.toNat_eq_zero.mpr hnone, List.take_zero]
  · rename_i hsome
    split at h
    · rename_i hranked
      obtain rfl := Except.ok.inj h
      rw [filteredMatches, candidates, hranked]
      exact List.take_nil.symm
    · rename_i ranked hranked
      generalize hloop : searchLoop py dateFromisoformat store query (ranked.length + 1) 0
        (min (query.topK.toNat * 4) 500) [] [] = found at h
      cases found with
      | error error => cases h
      | ok found =>
          obtain rfl := Except.ok.inj h
          have hlength : (candidates store query).length ≤ ranked.length :=
            candidates_of_ranked hranked
          have hfound := searchLoop_returned (by omega) rfl rfl (by omega) hloop
          rw [returned_eq] at hfound
          exact hfound

theorem searchFts_judged (hjudged : ∀ e ∈ store.table, rowKey e ∈ candidates store query →
      query.Judges py dateFromisoformat e) :
    ∃ results, searchFts py dateFromisoformat store query = .ok results := by
  rw [searchFts]
  split
  · exact ⟨[], rfl⟩
  · split
    · exact ⟨[], rfl⟩
    · rename_i ranked hranked
      obtain ⟨found, hfound⟩ := searchLoop_judged hjudged (ranked.length + 1) 0
        (min (query.topK.toNat * 4) 500) [] []
      exact ⟨found.take query.topK.toNat, by rw [hfound]; rfl⟩

/-- A search takes the first matches in rank order that the selection admits, wherever its pages
end. The selection would take the same of all matches exactly if no superseded match that the search
takes comes before an eligible one. -/
theorem searchFts_selects (py : Python) (dateFromisoformat : String → Option Int)
    (store : FtsStore) (query : FtsQuery) :
    (∀ fuel page, (candidates store query).length < fuel → 0 < page → ∀ seen results,
      searchLoop py dateFromisoformat store query (fuel + 1) 0 page seen results =
        searchLoop py dateFromisoformat store query fuel 0 page seen results) ∧
      ((∀ e ∈ store.table, rowKey e ∈ candidates store query →
          query.Judges py dateFromisoformat e) →
        ∃ results, searchFts py dateFromisoformat store query = .ok results) ∧
      ∀ results, searchFts py dateFromisoformat store query = .ok results →
        results = ((filteredMatches store query).filter
          (query.admits py dateFromisoformat)).take query.topK.toNat ∧
        (query.selection = none → results =
          (filteredMatches store query).take query.topK.toNat) ∧
        ∀ selection ∈ query.selection, ∀ taken,
          select (selection.eligible py dateFromisoformat) selection query.topK.toNat
              (filteredMatches store query) = .ok taken →
            (selection.includeSuperseded = false → results = taken) ∧
            (results = taken ↔ ∀ before e after,
              (filteredMatches store query).filter
                (query.admits py dateFromisoformat) = before ++ e :: after →
              before.length < query.topK.toNat →
              isEligible (selection.eligible py dateFromisoformat) selection e = false →
              ∀ e' ∈ after,
                isEligible (selection.eligible py dateFromisoformat) selection e' = false) := by
  refine ⟨fun fuel page hfuel hpage seen results => searchLoop_fuel hpage (by omega),
    searchFts_judged, fun results hresults => ?_⟩
  have hreturned := searchFts_returned hresults
  refine ⟨hreturned, fun hnone => ?_, fun selection hselection taken htaken => ?_⟩
  · rw [hreturned, List.filter_eq_self.mpr fun e _ => by rw [FtsQuery.admits, hnone]; rfl]
  · have hadmits : query.admits py dateFromisoformat =
        admits (selection.eligible py dateFromisoformat) selection := by
      funext e
      rw [FtsQuery.admits, hselection, Option.all_some]
    obtain ⟨hfirst, hsecond⟩ := admits_split (selection.eligible py dateFromisoformat) selection
      (filteredMatches store query)
    have hclasses := take_eq_classes_iff
      (isEligible (selection.eligible py dateFromisoformat) selection)
      ((filteredMatches store query).filter
        (admits (selection.eligible py dateFromisoformat) selection)) query.topK.toNat
    rw [hfirst, hsecond, ← select_eq htaken, ← hadmits, ← hreturned] at hclasses
    refine ⟨fun hopen => hclasses.mpr fun before e after hsplit _ hdeferred => ?_, hclasses⟩
    -- Without superseded entries, what is admitted is eligible.
    have he : e ∈ (filteredMatches store query).filter (query.admits py dateFromisoformat) :=
      hsplit ▸ List.mem_append_right before List.mem_cons_self
    have hadmitted := (List.mem_filter.mp he).2
    rw [hadmits, admits, hdeferred, isDeferred, hopen] at hadmitted
    cases hadmitted

end

section

open Codec

def supersededEntry : MemoryEntry :=
  { plainEntry with id := "old", id_ne := by decide, invalidFrom := some ⟨0, some 0⟩ }

def twoMatches : FtsStore where
  table := [supersededEntry, plainEntry]
  keys := by decide
  ranked := some [rowKey supersededEntry, rowKey plainEntry]

def supersededToo : TemporalSelection := ⟨none, true, false, ⟨0, some 0⟩⟩

/-- A superseded match that ranks first is returned where the policy takes the other. -/
theorem searchFts_in_rank_order :
    ¬∀ store query selection, query.selection = some selection →
      searchFts plainPython (fun _ => none) store query =
        select (selection.eligible plainPython fun _ => none) selection query.topK.toNat
          (filteredMatches store query) := by
  intro h
  have hsame := congrArg (Except.map (List.map MemoryEntry.id))
    (h twoMatches ⟨1, none, 0, none, [], some supersededToo, none⟩ supersededToo rfl)
  clear h
  revert hsame
  decide +kernel

end

end TrwMemory.Storage

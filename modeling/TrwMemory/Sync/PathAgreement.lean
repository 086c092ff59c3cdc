import TrwMemory.Security.EvidenceRuns
import TrwMemory.Sync.DirtyFeed

/-!
When the SQL path and the path over a listing agree. For `get_dirty_entries` the keyset is
`(sync_seq, id)` and rows are unique only by `(namespace, id)`: agreement, for every ledger,
cursor and limit, is the same as distinct keys among the rows in scope, all of them rows that can
be read, in a table no timestamp of which overflows. Naming a namespace is enough for the keys;
`twin_lost` is what happens without.

For `find_synced_entry` and `find_synced_entries` (`sync/delta.py`) it is the SQL over the rows of
the `memories` table against a complete listing, which the quarantine ledger filters. A query
without an order scans the rows in any order, each query in its own. The order of a listing does
not matter either. Limits on the variables of a statement are not modelled.
-/
namespace TrwMemory.Sync

open Library.Keyset Storage

/-- The `memories` rows in scan order, under their primary key. -/
structure MemoryRows where
  rows : List MemoryEntry
  primaryKey : (rows.map fun e => (e.ns, e.id)).Nodup

namespace MemoryRows

variable (store : MemoryRows)

/-- The rows a call can serve or skip, in feed order. -/
def scope (ns : Option String) : List MemoryEntry :=
  sortOn feedKey (store.rows.filter (inFeed ns))

def DistinctKeys (ns : Option String) : Prop :=
  ((store.rows.filter (inFeed ns)).map feedKey).Nodup

instance (ns : Option String) : Decidable (store.DistinctKeys ns) :=
  inferInstanceAs (Decidable (List.Nodup _))

/-- Every row in scope can be read, and a listing of all rows does not raise. -/
structure Readable (ns : Option String) : Prop where
  scope : ∀ row ∈ store.rows, inFeed ns row = true → readable row = true
  shift : ∀ row ∈ store.rows, shifts row = true

/-- Both paths serve the first `limit` unblocked dirty rows after the cursor; the listing is over
the rows in any order. -/
def PathsAgree (scan : List MemoryEntry) (ns : Option String) : Prop :=
  ∀ blocks sinceSeq limit after,
    getDirtyEntriesSql store.rows blocks sinceSeq ns limit after =
        some (.ok (feedPage store.rows blocks sinceSeq ns limit after)) ∧
      getDirtyEntriesListed scan blocks sinceSeq ns limit after =
        .ok (feedPage store.rows blocks sinceSeq ns limit after)

theorem scope_strict {ns : Option String} (h : store.DistinctKeys ns) :
    StrictlySorted feedKey (store.scope ns) :=
  sortOn_strict feedKey h

/-- Within one namespace an id names one row. -/
theorem distinctKeys_of_namespace (n : String) : store.DistinctKeys (some n) := by
  refine List.Nodup.map_on ?_ (store.primaryKey.of_map.filter _)
  intro a ha b hb hkey
  rw [List.mem_filter] at ha hb
  have hns : ∀ e : MemoryEntry, inFeed (some n) e = true → e.ns = n := by
    intro e he
    simp only [inFeed, Option.all_some, Bool.and_eq_true, beq_iff_eq] at he
    exact he.2.symm
  have hid : a.id = b.id := WithTop.coe_injective (congrArg (fun k => (ofLex k).2) hkey)
  exact List.inj_on_of_nodup_map store.primaryKey ha.1 hb.1
    (Prod.ext ((hns a ha.2).trans (hns b hb.2).symm) hid)

theorem mem_scope {ns : Option String} {row : MemoryEntry} :
    row ∈ store.scope ns ↔ row ∈ store.rows ∧ inFeed ns row = true := by
  rw [scope, mem_sortOn, List.mem_filter]

theorem getDirtyEntriesSql_eq {ns : Option String} (h : store.DistinctKeys ns)
    (blocks : MemoryEntry → Bool) (sinceSeq : Int) (limit : Option Int)
    (after : Option (Int × String))
    (hread : ∀ row ∈ behind feedKey (startKey sinceSeq after) (store.scope ns),
      readable row = true) :
    getDirtyEntriesSql store.rows blocks sinceSeq ns limit after =
      some (.ok (feedPage store.rows blocks sinceSeq ns limit after)) := by
  have hfuel : ∀ k : FeedKey, (behind feedKey k (store.scope ns)).length <
      store.rows.length + 1 := by
    intro k
    have hle : (behind feedKey k (store.scope ns)).length ≤ (store.scope ns).length :=
      List.length_filter_le _ _
    rw [scope, (sortOn_perm feedKey _).length_eq] at hle
    exact Nat.lt_succ_of_le (hle.trans (List.length_filter_le _ _))
  rw [feedPage, behind_dirtyFeed]
  match after with
  | none =>
      exact fillPage_eq store.rows blocks ns limit (store.scope_strict h) _ sinceSeq none []
        (hfuel _) hread
  | some (seq, id) =>
      exact fillPage_eq store.rows blocks ns limit (store.scope_strict h) _ seq (some id) []
        (hfuel _) hread

theorem getDirtyEntriesListed_eq {ns : Option String} (h : store.DistinctKeys ns)
    (hread : store.Readable ns) {scan : List MemoryEntry} (hscan : scan.Perm store.rows)
    (blocks : MemoryEntry → Bool) (sinceSeq : Int) (limit : Option Int)
    (after : Option (Int × String)) :
    getDirtyEntriesListed scan blocks sinceSeq ns limit after =
      .ok (feedPage store.rows blocks sinceSeq ns limit after) := by
  have hlisting := fetchRows_shifts fun row hrow => hread.shift row (hscan.subset hrow)
  have hrows : (((scan.filter readable).map readOf).filter (inFeed ns)).Perm
      ((store.rows.filter (inFeed ns)).map readOf) := by
    have hfilter : ((scan.filter readable).map readOf).filter (inFeed ns) =
        (scan.filter (inFeed ns)).map readOf := by
      rw [List.filter_map, List.filter_filter]
      refine congrArg _ (List.filter_congr fun row hrow => ?_)
      rw [Function.comp_apply, inFeed_readOf]
      cases hfeed : inFeed ns row with
      | false => rfl
      | true =>
          rw [hread.scope row (hscan.subset hrow) hfeed]
          rfl
    rw [hfilter]
    exact (hscan.filter _).map _
  rw [getDirtyEntriesListed, hlisting]
  generalize (scan.filter readable).map readOf = listing at hrows
  have hscope : (sortOn feedKey listing).filter (inFeed ns) =
      (store.scope ns).map readOf := by
    have hkeys : ((listing.filter (inFeed ns)).map feedKey).Nodup := by
      have hserved : feedKey ∘ readOf = feedKey := funext feedKey_readOf
      rw [(hrows.map feedKey).nodup_iff, List.map_map, hserved]
      exact h
    rw [filter_sortOn, sortOn_eq_of_perm feedKey hrows hkeys,
      ← map_sortOn feedKey readOf feedKey_readOf, scope]
  have hbehind : (sortOn feedKey listing).filter
      (fun e => pyBehind sinceSeq after e && inFeed ns e) =
        behind feedKey (startKey sinceSeq after) ((store.scope ns).map readOf) := by
    rw [← List.filter_filter, hscope, behind]
    exact List.filter_congr fun e _ => pyBehind_iff sinceSeq after e
  have hblocked : filterQuarantined blocks
      (behind feedKey (startKey sinceSeq after) ((store.scope ns).map readOf)) =
        behind feedKey (startKey sinceSeq after) (dirtyFeed store.rows blocks ns) := by
    simp only [filterQuarantined, behind, dirtyFeed, scope, List.filter_filter, Bool.and_comm]
  refine congrArg Except.ok ?_
  change dirtyOf listing blocks sinceSeq ns limit after = _
  unfold dirtyOf
  rw [hbehind, hblocked, feedPage]
  cases limit <;> rfl

/-- With pages of one row, a row whose key an earlier row has is never fetched. -/
theorem fillPage_skips {ns : Option String} {a b : MemoryEntry} {blocks : MemoryEntry → Bool}
    (hblocks : ∀ e, e ≠ readOf b → blocks e = true)
    (hpair : [a, b].Sublist (store.scope ns)) (hkey : feedKey a = feedKey b) (fuel : Nat)
    (lastSeq : Int) (lastId : Option String) (page : List MemoryEntry)
    (h : fillPage store.rows blocks ns (some 1) fuel lastSeq lastId [] = some (.ok page)) :
    page = [] := by
  have hidentity : ((store.scope ns).map fun e => (e.ns, e.id)).Nodup := by
    rw [scope, ((sortOn_perm feedKey _).map _).nodup_iff]
    exact store.primaryKey.sublist (List.filter_sublist.map _)
  induction fuel generalizing lastSeq lastId with
  | zero => cases h
  | succ fuel ih =>
      have hselect : selectDirty store.rows ns lastSeq lastId 1 =
          (behind feedKey (cursorKey lastSeq lastId) (store.scope ns)).take 1 :=
        selectDirty_eq store.rows ns lastSeq lastId 1
      simp only [fillPage, Option.getD_some, hselect] at h
      generalize hseen : behind feedKey (cursorKey lastSeq lastId) (store.scope ns) = seen at h
      have hsub : seen.Sublist (store.scope ns) := hseen ▸ List.filter_sublist
      cases seen with
      | nil => simpa [sliceTo, filterQuarantined, pure, Except.pure] using h.symm
      | cons c rest =>
          -- `b` cannot be first: `a` stands before it and is behind the cursor too.
          have hcb : readOf c ≠ readOf b := by
            intro heq
            have hcid : (c.ns, c.id) = (b.ns, b.id) := by
              have hns := congrArg MemoryEntry.ns heq
              have hid := congrArg MemoryEntry.id heq
              rw [readOf_ns, readOf_ns] at hns
              rw [readOf_id, readOf_id] at hid
              exact Prod.ext hns hid
            have hbscope : b ∈ store.scope ns := hpair.subset (by simp)
            have hcmem : c ∈ store.scope ns := hsub.subset List.mem_cons_self
            have hc : c = b := List.inj_on_of_nodup_map hidentity hcmem hbscope hcid
            subst hc
            have hlater : cursorKey lastSeq lastId < feedKey c :=
              ((mem_behind feedKey).mp (hseen ▸ List.mem_cons_self)).2
            have hboth : [a, c].Sublist (c :: rest) := by
              have hf := hpair.filter fun e => decide (cursorKey lastSeq lastId < feedKey e)
              rw [← hseen, behind]
              simpa [hkey, hlater] using hf
            have hnodup : (c :: rest).Nodup := (hidentity.of_map).sublist hsub
            have hrest : c ∈ rest := by
              cases hboth with
              | cons _ hin => exact hin.subset (by simp)
              | cons_cons _ hin => exact hin.subset (by simp)
            exact (List.nodup_cons.mp hnodup).1 hrest
          cases hread : readServed c with
          | error _ => simp [hread, bind, Except.bind] at h
          | ok served =>
          obtain rfl := readServed_eq hread
          simp only [List.take_succ_cons, List.take_zero, List.mapM_cons, List.mapM_nil, hread,
            bind, Except.bind, pure, Except.pure, List.length_singleton, filterQuarantined,
              List.nil_append, List.getLast?_singleton,
            List.filter_cons, hblocks _ hcb, Bool.not_true, Bool.false_eq_true, ite_false,
            List.filter_nil, List.length_nil] at h
          exact ih _ _ h

/-- Where the paths agree for every start, no row in scope fails to be read. -/
theorem readable_of_agree {scan : List MemoryEntry} (hscan : scan.Perm store.rows)
    {ns : Option String} (hagree : store.PathsAgree scan ns) : store.Readable ns where
  scope row hrow hfeed := by
    have hpage := (hagree (fun _ => false) (row.syncSeq - 1) none none).1
    have hselected : row ∈ selectDirty store.rows ns (row.syncSeq - 1) none (-1) := by
      simp [selectDirty, sqlLimit, mem_sortOn, sqlBehind, hrow, hfeed]
    rw [getDirtyEntriesSql, fillPage, Option.getD_none] at hpage
    cases hmap : (selectDirty store.rows ns (row.syncSeq - 1) none (-1)).mapM readServed with
    | error _ => simp [hmap] at hpage
    | ok entries => exact readable_of_mapM hmap row hselected
  shift row hrow := by
    have hlisted := (hagree (fun _ => false) 0 none none).2
    cases hshifts : shifts row with
    | true => rfl
    | false =>
        rw [getDirtyEntriesListed, fetchRows_overflow (hscan.symm.subset hrow) hshifts] at hlisted
        cases hlisted

end MemoryRows

def twinRow (ns : String) : MemoryEntry :=
  { MemoryEntry.ofDefaults "a" "twin" ns ⟨0, some 0⟩ a_ne_empty with syncSeq := 1 }

def twins : MemoryRows where
  rows := [twinRow "north", twinRow "south"]
  primaryKey := by decide

def blocksNorth (e : MemoryEntry) : Bool := e.ns == "north"

end TrwMemory.Sync

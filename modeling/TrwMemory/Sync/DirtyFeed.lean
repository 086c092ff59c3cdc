import Mathlib.Data.Prod.Lex
import Mathlib.Data.String.Basic
import Mathlib.Order.WithBot
import TrwMemory.Library.Keyset
import TrwMemory.Storage.RowWrites

/-!
`DeltaTracker.get_dirty_entries` (`sync/delta.py`) on rows that do not change
during the call: the SQL path, which refills a page that the quarantine ledger
left short, and the path over a complete listing. The ledger is a predicate on
rows as they are served. The SQL path raises on a row that cannot be read; a listing skips
a row that the model refuses, and raises where a timestamp overflows.

The order of a scan without ties is all the SQL promises, so the rows are given
in the order the query happens to scan them.
-/
namespace TrwMemory.Sync

open Library.Keyset Storage

/-- Python's `xs[:limit]`. -/
def sliceTo {α : Type} (limit : Int) (xs : List α) : List α :=
  if 0 ≤ limit then xs.take limit.toNat else xs.take (xs.length - (-limit).toNat)

/-- SQLite's `LIMIT`: a negative one is no limit. -/
def sqlLimit {α : Type} (cap : Int) (xs : List α) : List α :=
  if cap < 0 then xs else xs.take cap.toNat

theorem sqlLimit_subset {α : Type} (cap : Int) (xs : List α) : sqlLimit cap xs ⊆ xs := by
  unfold sqlLimit
  split
  · exact List.Subset.refl _
  · exact List.take_subset _ _

/-- A cursor without an id stands after every id of its `sync_seq`. -/
abbrev FeedKey := Int ×ₗ WithTop String

def feedKey (e : MemoryEntry) : FeedKey := toLex (e.syncSeq, (e.id : WithTop String))

/-- Rows of the feed: never synced, of the namespace asked for. -/
def inFeed (ns : Option String) (e : MemoryEntry) : Bool :=
  e.lastSyncedAt.isNone && ns.all fun n => n == e.ns

/-- `sync_seq > ? OR (? IS NOT NULL AND sync_seq = ? AND id > ?)`. -/
def sqlBehind (lastSeq : Int) (lastId : Option String) (e : MemoryEntry) : Bool :=
  lastSeq < e.syncSeq || lastId.any fun id => lastSeq == e.syncSeq && id < e.id

/-- One query of the SQL path. -/
def selectDirty (rows : List MemoryEntry) (ns : Option String) (lastSeq : Int)
    (lastId : Option String) (cap : Int) : List MemoryEntry :=
  sqlLimit cap (sortOn feedKey (rows.filter fun e => sqlBehind lastSeq lastId e && inFeed ns e))

def filterQuarantined (blocks : MemoryEntry → Bool) (entries : List MemoryEntry) :
    List MemoryEntry :=
  entries.filter fun e => !blocks e

/-- The loop of the SQL path. `none` is a loop that has not returned within `fuel`
queries. -/
def fillPage (rows : List MemoryEntry) (blocks : MemoryEntry → Bool) (ns : Option String)
    (limit : Option Int) : Nat → Int → Option String → List MemoryEntry →
      Option (Except MapError (List MemoryEntry))
  | 0, _, _, _ => none
  | fuel + 1, lastSeq, lastId, page =>
      match (selectDirty rows ns lastSeq lastId (limit.getD (-1))).mapM readServed with
      | .error error => some (.error error)
      | .ok entries =>
          let page := page ++ filterQuarantined blocks entries
          match limit with
          | none => some (.ok page)
          | some limit =>
              if (entries.length : Int) < limit ∨ limit ≤ (page.length : Int) then
                some (.ok (sliceTo limit page))
              else
                match entries.getLast? with
                | none => none
                | some last =>
                    fillPage rows blocks ns (some limit) fuel last.syncSeq (some last.id) page

/-- The SQL path. No query after the first can show more rows than there are. -/
def getDirtyEntriesSql (rows : List MemoryEntry) (blocks : MemoryEntry → Bool) (sinceSeq : Int)
    (ns : Option String) (limit : Option Int) (after : Option (Int × String)) :
    Option (Except MapError (List MemoryEntry)) :=
  match after with
  | some (seq, id) => fillPage rows blocks ns limit (rows.length + 1) seq (some id) []
  | none => fillPage rows blocks ns limit (rows.length + 1) sinceSeq none []

/-- `(e.sync_seq, e.id) > after if after is not None else e.sync_seq > since_seq`. -/
def pyBehind (sinceSeq : Int) (after : Option (Int × String)) (e : MemoryEntry) : Bool :=
  match after with
  | some (seq, id) => seq < e.syncSeq || (seq == e.syncSeq && id < e.id)
  | none => sinceSeq < e.syncSeq

/-- What the generic path makes of a listing. -/
def dirtyOf (listing : List MemoryEntry) (blocks : MemoryEntry → Bool)
    (sinceSeq : Int) (ns : Option String) (limit : Option Int) (after : Option (Int × String)) :
    List MemoryEntry :=
  let dirty := filterQuarantined blocks
    ((sortOn feedKey listing).filter fun e => pyBehind sinceSeq after e && inFeed ns e)
  match limit with
  | none => dirty
  | some limit => sliceTo limit dirty

/-- The generic path, over what `list_entries` makes of all rows. -/
def getDirtyEntriesListed (scan : List MemoryEntry) (blocks : MemoryEntry → Bool)
    (sinceSeq : Int) (ns : Option String) (limit : Option Int) (after : Option (Int × String)) :
    Except MapError (List MemoryEntry) :=
  (fetchRows scan).map fun listing => dirtyOf listing blocks sinceSeq ns limit after

/-- Where a call starts. -/
def startKey (sinceSeq : Int) : Option (Int × String) → FeedKey
  | some (seq, id) => toLex (seq, (id : WithTop String))
  | none => toLex (sinceSeq, ⊤)

def cursorKey (lastSeq : Int) (lastId : Option String) : FeedKey :=
  toLex (lastSeq, lastId.elim ⊤ fun id => (id : WithTop String))

theorem sqlBehind_iff (lastSeq : Int) (lastId : Option String) (e : MemoryEntry) :
    sqlBehind lastSeq lastId e = decide (cursorKey lastSeq lastId < feedKey e) := by
  rw [Bool.eq_iff_iff]
  cases lastId with
  | none => simp [sqlBehind, cursorKey, feedKey, Prod.Lex.toLex_lt_toLex]
  | some id => simp [sqlBehind, cursorKey, feedKey, Prod.Lex.toLex_lt_toLex]

theorem pyBehind_iff (sinceSeq : Int) (after : Option (Int × String)) (e : MemoryEntry) :
    pyBehind sinceSeq after e = decide (startKey sinceSeq after < feedKey e) := by
  rw [Bool.eq_iff_iff]
  match after with
  | none => simp [pyBehind, startKey, feedKey, Prod.Lex.toLex_lt_toLex]
  | some (seq, id) => simp [pyBehind, startKey, feedKey, Prod.Lex.toLex_lt_toLex]

theorem ok_of_toOption {ε α : Type} {x : Except ε α} {a : α} (h : x.toOption = some a) :
    x = .ok a := by
  cases x with
  | error _ => cases h
  | ok b => exact congrArg Except.ok (Option.some.inj h)

theorem answered_of_toOption {ε α : Type} {x : Option (Except ε α)} {a : α}
    (h : x.bind Except.toOption = some a) : x = some (.ok a) := by
  obtain ⟨y, rfl, hy⟩ := Option.bind_eq_some_iff.mp h
  rw [ok_of_toOption hy]

theorem readOf_fields (row : MemoryEntry) :
    ∃ confidence metadata, readOf row = { readBack row with confidence, metadata } :=
  servedView_fields (readBack row)

theorem readOf_ns (row : MemoryEntry) : (readOf row).ns = row.ns := by
  obtain ⟨confidence, metadata, h⟩ := readOf_fields row
  rw [h]
  rfl

@[simp]
theorem feedKey_readOf (row : MemoryEntry) : feedKey (readOf row) = feedKey row := by
  obtain ⟨confidence, metadata, h⟩ := readOf_fields row
  rw [h]
  rfl

@[simp]
theorem inFeed_readOf (ns : Option String) (row : MemoryEntry) :
    inFeed ns (readOf row) = inFeed ns row := by
  obtain ⟨confidence, metadata, h⟩ := readOf_fields row
  rw [h]
  simp [inFeed, readBack]

theorem mapM_readServed {rows : List MemoryEntry} (h : ∀ row ∈ rows, readable row = true) :
    rows.mapM readServed = .ok (rows.map readOf) := by
  induction rows with
  | nil => rfl
  | cons row rows ih =>
      rw [List.forall_mem_cons] at h
      rw [List.mapM_cons, readServed_readable h.1, ih h.2]
      rfl

/-- A page that is served holds no row that cannot be read. -/
theorem readable_of_mapM {rows entries : List MemoryEntry}
    (h : rows.mapM readServed = .ok entries) :
    ∀ row ∈ rows, readable row = true := by
  induction rows generalizing entries with
  | nil => exact fun row hrow => by cases hrow
  | cons row rows ih =>
      rw [List.mapM_cons] at h
      cases hread : readServed row with
      | error _ => simp [hread, bind, Except.bind] at h
      | ok served =>
          cases hrest : rows.mapM readServed with
          | error _ => simp [hread, hrest, bind, Except.bind] at h
          | ok rest =>
              refine List.forall_mem_cons.mpr ⟨?_, ih hrest⟩
              cases hmap : mapRow row with
              | error _ => simp [readServed, hmap, Except.map] at hread
              | ok e =>
                  rw [readable, hmap]
                  rfl

/-- The feed: unblocked rows that still need a push, in `(sync_seq, id)` order. -/
def dirtyFeed (rows : List MemoryEntry) (blocks : MemoryEntry → Bool) (ns : Option String) :
    List MemoryEntry :=
  filterQuarantined blocks ((sortOn feedKey (rows.filter (inFeed ns))).map readOf)

def firstRows (limit : Option Int) (xs : List MemoryEntry) : List MemoryEntry :=
  limit.elim xs fun limit => sliceTo limit xs

/-- The first `limit` rows of the feed after the cursor. -/
def feedPage (rows : List MemoryEntry) (blocks : MemoryEntry → Bool) (sinceSeq : Int)
    (ns : Option String) (limit : Option Int) (after : Option (Int × String)) :
    List MemoryEntry :=
  firstRows limit (behind feedKey (startKey sinceSeq after) (dirtyFeed rows blocks ns))

theorem filterQuarantined_append (blocks : MemoryEntry → Bool) (xs ys : List MemoryEntry) :
    filterQuarantined blocks (xs ++ ys) =
      filterQuarantined blocks xs ++ filterQuarantined blocks ys :=
  List.filter_append ..

theorem behind_dirtyFeed (rows : List MemoryEntry) (blocks : MemoryEntry → Bool)
    (ns : Option String) (k : FeedKey) :
    behind feedKey k (dirtyFeed rows blocks ns) =
      filterQuarantined blocks
        ((behind feedKey k (sortOn feedKey (rows.filter (inFeed ns)))).map readOf) := by
  simp only [behind, dirtyFeed, filterQuarantined, List.filter_map, List.filter_filter]
  congr 1
  apply List.filter_congr
  intro e _
  simp [Bool.and_comm]

theorem selectDirty_eq (rows : List MemoryEntry) (ns : Option String) (lastSeq : Int)
    (lastId : Option String) (cap : Int) :
    selectDirty rows ns lastSeq lastId cap =
      sqlLimit cap (behind feedKey (cursorKey lastSeq lastId)
        (sortOn feedKey (rows.filter (inFeed ns)))) := by
  rw [selectDirty, behind, filter_sortOn, List.filter_filter]
  simp only [sqlBehind_iff]

/-- The refill loop, by induction on the queries it may still make: what is not on
the page is what the next query can see. -/
theorem fillPage_eq (rows : List MemoryEntry) (blocks : MemoryEntry → Bool) (ns : Option String)
    (limit : Option Int)
    (hstrict : StrictlySorted feedKey (sortOn feedKey (rows.filter (inFeed ns))))
    (fuel : Nat) (lastSeq : Int) (lastId : Option String) (page : List MemoryEntry)
    (hfuel : (behind feedKey (cursorKey lastSeq lastId)
      (sortOn feedKey (rows.filter (inFeed ns)))).length < fuel)
    (hread : ∀ row ∈ behind feedKey (cursorKey lastSeq lastId)
      (sortOn feedKey (rows.filter (inFeed ns))), readable row = true) :
    fillPage rows blocks ns limit fuel lastSeq lastId page =
      some (.ok (firstRows limit (page ++ filterQuarantined blocks
        ((behind feedKey (cursorKey lastSeq lastId)
          (sortOn feedKey (rows.filter (inFeed ns)))).map readOf)))) := by
  induction fuel generalizing lastSeq lastId page with
  | zero => exact absurd hfuel (Nat.not_lt_zero _)
  | succ fuel ih =>
      have hrest := behind_strict feedKey (cursorKey lastSeq lastId) hstrict
      simp only [fillPage, selectDirty_eq]
      generalize hseen : behind feedKey (cursorKey lastSeq lastId)
        (sortOn feedKey (rows.filter (inFeed ns))) = seen at hfuel hrest hread ⊢
      have hshows : ∀ cap, (sqlLimit cap seen).mapM readServed =
          .ok ((sqlLimit cap seen).map readOf) := fun cap =>
        mapM_readServed fun row hrow => hread row (sqlLimit_subset cap seen hrow)
      rw [hshows]
      dsimp only
      cases limit with
      | none => simp [sqlLimit, firstRows]
      | some limit =>
          simp only [Option.getD_some, List.length_map, firstRows, Option.elim_some]
          by_cases hneg : limit < 0
          · -- no limit in the query, and any page is long enough
            have hshown : sqlLimit limit seen = seen := if_pos hneg
            rw [hshown, if_pos (.inr (by omega))]
          · have hshown : sqlLimit limit seen = seen.take limit.toNat := if_neg hneg
            have hslice : ∀ xs : List MemoryEntry, sliceTo limit xs = xs.take limit.toNat :=
              fun xs => if_pos (by omega)
            simp only [hshown, hslice]
            have hmap : ∀ xs : List MemoryEntry, (xs.take limit.toNat).map readOf =
                (xs.map readOf).take limit.toNat := fun xs => List.map_take
            have hpage : filterQuarantined blocks (seen.map readOf) =
                filterQuarantined blocks ((seen.take limit.toNat).map readOf) ++
                  filterQuarantined blocks ((seen.drop limit.toNat).map readOf) := by
              rw [← filterQuarantined_append, ← List.map_append, List.take_append_drop]
            split_ifs with hstop
            · rcases hstop with hshort | hfull
              · have hall : seen.take limit.toNat = seen := by
                  apply List.take_of_length_le
                  simp only [List.length_take] at hshort
                  omega
                rw [hall]
              · have hlong : limit.toNat ≤ (page ++ filterQuarantined blocks
                    ((seen.take limit.toNat).map readOf)).length := by omega
                rw [hpage, ← List.append_assoc]
                exact congrArg (some ∘ Except.ok) (List.take_append_of_le_length hlong).symm
            · push Not at hstop
              have hne : seen.take limit.toNat ≠ [] := by
                intro hnil
                rw [hnil] at hstop
                simp only [List.length_nil, List.map_nil, filterQuarantined, List.filter_nil,
                  List.append_nil] at hstop
                omega
              obtain ⟨last, hlast⟩ := Option.ne_none_iff_exists'.mp
                (mt List.getLast?_eq_none_iff.mp hne)
              have hlast' : ((seen.take limit.toNat).map readOf).getLast? =
                  some (readOf last) := by
                rw [List.getLast?_map, hlast, Option.map_some]
              have hmem : last ∈ seen := List.mem_of_mem_take (List.mem_of_getLast? hlast)
              have hkey : cursorKey (readOf last).syncSeq (some (readOf last).id) =
                  feedKey last := feedKey_readOf last
              have hlater : cursorKey lastSeq lastId < feedKey last :=
                ((mem_behind feedKey).mp (hseen ▸ hmem)).2
              have hdrop : behind feedKey (feedKey last)
                  (sortOn feedKey (rows.filter (inFeed ns))) = seen.drop limit.toNat := by
                rw [← behind_behind feedKey _ hlater, hseen]
                exact behind_take_last feedKey hrest hlast
              have hless : (seen.drop limit.toNat).length < fuel := by
                have hshrinks := length_behind_lt feedKey
                  (hseen ▸ hmem : last ∈ behind feedKey (cursorKey lastSeq lastId) _)
                rw [hdrop, hseen] at hshrinks
                omega
              rw [hlast']
              simp only
              rw [ih _ _ _ (by rw [hkey, hdrop]; exact hless) (by
                rw [hkey, hdrop]
                exact fun row hrow => hread row (List.mem_of_mem_drop hrow)), hkey, hdrop]
              simp only [firstRows, Option.elim_some, hslice, hpage, List.append_assoc]

end TrwMemory.Sync

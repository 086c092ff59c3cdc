import TrwMemory.Sync.PathAgreement

/-!
The dirty feed as a client walks it (`tools/sync.py`): each page's last row gives
the cursor `<sync_seq>:<id>` of the next call, until a page is empty. The parser
takes at most 18 digits, so a row whose `sync_seq` reaches `10 ^ 18` is served but
cannot be paged past; the tool serves pages of at most `MAX_SYNC_DIRTY_PAGE` rows. A dirty row
that cannot be read makes every page raise that it falls on.
-/
namespace TrwMemory.Sync

open Library.Keyset Storage

def MAX_SYNC_DIRTY_PAGE : Int := 1000

/-- What a client makes of the last row of a page. -/
def cursorText (e : MemoryEntry) : String := toString e.syncSeq ++ ":" ++ e.id

/-- `_parse_dirty_cursor`: the text before the first colon, and the id after it. -/
def parseDirtyCursor (cursor : String) : Option (Int × String) :=
  let seq := cursor.toList.takeWhile fun c => c != ':'
  let rowId := (cursor.toList.dropWhile fun c => c != ':').drop 1
  if seq ≠ [] ∧ seq.all Char.isDigit ∧ seq.length ≤ 18 ∧ rowId ≠ [] then
    some ((Nat.ofDigitChars 10 seq 0 : Nat), String.ofList rowId)
  else none

/-- `raised` is an error that escapes from the tool. -/
inductive DirtyPageReply where
  | error (message status : String)
  | raised (error : MapError)
  | entries (entries : List MemoryEntry)

def pageReply : Except MapError (List MemoryEntry) → DirtyPageReply
  | .error error => .raised error
  | .ok page => .entries page

namespace DirtyPageReply

def served : DirtyPageReply → Option (List MemoryEntry)
  | entries page => some page
  | _ => none

theorem served_ofPage (page : Option (Except MapError (List MemoryEntry))) :
    (page.map pageReply).bind served = page.bind Except.toOption := by
  rcases page with _ | (_ | _) <;> rfl

end DirtyPageReply

/-- `memory_sync_dirty_page_impl`; `refused` is the answer of the namespace grant. -/
def memorySyncDirtyPage (store : MemoryRows) (blocks : MemoryEntry → Bool)
    (refused : Option DirtyPageReply) (ns : String) (limit : Int) (cursor : Option String) :
    Option DirtyPageReply :=
  if limit < 1 ∨ MAX_SYNC_DIRTY_PAGE < limit then
    some (.error ("limit must be in [1, " ++ toString MAX_SYNC_DIRTY_PAGE ++ "]") "invalid")
  else
    let page (after : Option (Int × String)) : Option DirtyPageReply :=
      match refused with
      | some reply => some reply
      | none =>
          (getDirtyEntriesSql store.rows blocks 0 (some ns) (some limit) after).map pageReply
    match cursor with
    | none => page none
    | some text =>
        match parseDirtyCursor text with
        | none =>
            some (.error ("cursor must be '<sync_seq>:<id>' as read from the last row of the " ++
              "previous page") "invalid")
        | some after => page (some after)

/-- The rows of a page, if the tool served any. -/
def toolPage (store : MemoryRows) (blocks : MemoryEntry → Bool) (ns : String) (limit : Int)
    (cursor : Option String) : Option (List MemoryEntry) :=
  (memorySyncDirtyPage store blocks none ns limit cursor).bind DirtyPageReply.served

/-- The same page asked of the feed itself, whatever its size. -/
def trackerPage (store : MemoryRows) (blocks : MemoryEntry → Bool) (ns : String) (limit : Int)
    (cursor : Option String) : Option (List MemoryEntry) :=
  match cursor with
  | none => servedPage none
  | some text => (parseDirtyCursor text).bind fun after => servedPage (some after)
where
  servedPage (after : Option (Int × String)) : Option (List MemoryEntry) :=
    (getDirtyEntriesSql store.rows blocks 0 (some ns) (some limit) after).bind Except.toOption

/-- The pages of a client that pages until it is shown nothing. -/
abbrev FeedWalk (page : Option String → Option (List MemoryEntry)) :
    List (List MemoryEntry) → Prop :=
  Walk page (fun e => some (cursorText e)) none

theorem cursorText_toList (e : MemoryEntry) (n : Nat) (h : e.syncSeq = n) :
    (cursorText e).toList = Nat.toDigits 10 n ++ ':' :: e.id.toList := by
  have hseq : toString e.syncSeq = n.repr := by
    rw [h]
    rfl
  rw [cursorText, hseq, String.toList_append, String.toList_append, Nat.toList_repr]
  simp

/-- A cursor decodes to the row it was made from, also when the id holds colons. -/
theorem parseDirtyCursor_cursorText {e : MemoryEntry} (hpos : 0 ≤ e.syncSeq)
    (hsmall : e.syncSeq < 10 ^ 18) :
    parseDirtyCursor (cursorText e) = some (e.syncSeq, e.id) := by
  obtain ⟨n, hn⟩ := Int.eq_ofNat_of_zero_le hpos
  have hdigits : ∀ c ∈ Nat.toDigits 10 n, c.isDigit = true := fun c hc =>
    Nat.isDigit_of_mem_toDigits (by decide) (by decide) hc
  have hcolon : ∀ c ∈ Nat.toDigits 10 n, (c != ':') = true := by
    intro c hc
    have hd := hdigits c hc
    rw [bne_iff_ne]
    rintro rfl
    exact absurd hd (by decide)
  have htake : (cursorText e).toList.takeWhile (fun c => c != ':') = Nat.toDigits 10 n := by
    rw [cursorText_toList e n hn, List.takeWhile_append_of_pos hcolon]
    simp
  have hdrop : ((cursorText e).toList.dropWhile fun c => c != ':').drop 1 = e.id.toList := by
    rw [cursorText_toList e n hn, List.dropWhile_append_of_pos hcolon]
    simp
  have hlength : (Nat.toDigits 10 n).length ≤ 18 := by
    rw [Nat.length_toDigits_le_iff (by decide) (by decide)]
    omega
  have hid : e.id.toList ≠ [] := fun h => e.id_ne (String.toList_eq_nil_iff.mp h)
  simp only [parseDirtyCursor, htake, hdrop]
  rw [if_pos ⟨Nat.toDigits_ne_nil, List.all_eq_true.mpr hdigits, hlength, hid⟩,
    Nat.ofDigitChars_ten_toDigits, String.ofList_toList, hn]

section Paging

variable (store : MemoryRows) (blocks : MemoryEntry → Bool) (ns : String)

/-- The unblocked rows of the namespace that need a push, in `(sync_seq, id)` order. -/
def pushable : List MemoryEntry :=
  (dirtyFeed store.rows blocks (some ns)).filter fun e => 0 < e.syncSeq

theorem pushable_eq :
    pushable store blocks ns =
      behind feedKey (startKey 0 none) (dirtyFeed store.rows blocks (some ns)) := by
  apply List.filter_congr
  intro e _
  rw [← pyBehind_iff]
  rfl

theorem dirtyFeed_strict : StrictlySorted feedKey (dirtyFeed store.rows blocks (some ns)) := by
  have hscope := store.scope_strict (store.distinctKeys_of_namespace ns)
  refine List.Pairwise.sublist List.filter_sublist (List.pairwise_map.mpr ?_)
  simp only [feedKey_readOf]
  exact hscope

/-- Every row that a page can fall on can be read. -/
def FeedReadable : Prop :=
  ∀ row ∈ store.rows, inFeed (some ns) row = true → 0 < row.syncSeq → readable row = true

variable {store ns} {limit : Int}

theorem sql_page (hread : FeedReadable store ns) (hlimit : 1 ≤ limit)
    (after : Option (Int × String)) (hafter : ∀ cursor ∈ after, 0 < cursor.1) :
    (getDirtyEntriesSql store.rows blocks 0 (some ns) (some limit) after).bind Except.toOption =
      some ((behind feedKey (startKey 0 after)
        (dirtyFeed store.rows blocks (some ns))).take limit.toNat) := by
  rw [store.getDirtyEntriesSql_eq (store.distinctKeys_of_namespace ns) _ _ _ _ fun row hrow => ?_,
    feedPage]
  · simp only [firstRows, Option.elim_some, sliceTo]
    rw [if_pos (by omega)]
    rfl
  · obtain ⟨hscope, hlater⟩ := (mem_behind feedKey).mp hrow
    obtain ⟨hmem, hfeed⟩ := store.mem_scope.mp hscope
    refine hread row hmem hfeed ?_
    cases after with
    | none =>
        have hpos := pyBehind_iff 0 none row
        simpa [hlater, pyBehind] using hpos
    | some cursor =>
        obtain ⟨seq, id⟩ := cursor
        have hseq : 0 < seq := hafter (seq, id) rfl
        have hbehind := pyBehind_iff 0 (some (seq, id)) row
        rw [decide_eq_true hlater, pyBehind, Bool.or_eq_true, Bool.and_eq_true,
          decide_eq_true_eq, beq_iff_eq] at hbehind
        omega

theorem trackerPage_cursor (hread : FeedReadable store ns) (hlimit : 1 ≤ limit) {e : MemoryEntry}
    (hpos : 0 < e.syncSeq) (hsmall : e.syncSeq < 10 ^ 18) :
    trackerPage store blocks ns limit (some (cursorText e)) =
      some ((behind feedKey (feedKey e)
        (dirtyFeed store.rows blocks (some ns))).take limit.toNat) := by
  simp only [trackerPage, parseDirtyCursor_cursorText hpos.le hsmall, Option.bind_some]
  exact sql_page blocks hread hlimit (some (e.syncSeq, e.id)) fun cursor hcursor => by
    obtain rfl := Option.some.inj hcursor
    exact hpos

variable (store ns)

theorem toolPage_eq (hlimit : 1 ≤ limit) (hmax : limit ≤ MAX_SYNC_DIRTY_PAGE) :
    toolPage store blocks ns limit = trackerPage store blocks ns limit := by
  funext cursor
  have hrange : ¬ (limit < 1 ∨ MAX_SYNC_DIRTY_PAGE < limit) := by omega
  cases cursor with
  | none =>
      rw [toolPage, memorySyncDirtyPage, if_neg hrange]
      exact DirtyPageReply.served_ofPage _
  | some text =>
      rw [toolPage, memorySyncDirtyPage, if_neg hrange]
      cases hparse : parseDirtyCursor text with
      | none =>
          simp only [trackerPage, hparse]
          rfl
      | some after =>
          simp only [trackerPage, hparse]
          exact DirtyPageReply.served_ofPage _

end Paging

/-- Paging is complete for every namespace, ledger and page size, as long as no
`sync_seq` has outgrown the cursor and the dirty rows can be read: the walk ends, its
pages are the feed, each row once and in order, and every row on them has a cursor that
decodes to it. The tool's pages are these pages up to its ceiling. -/
theorem dirty_paging_complete (store : MemoryRows) (blocks : MemoryEntry → Bool) (ns : String)
    (limit : Int) (hlimit : 1 ≤ limit) (hread : FeedReadable store ns)
    (hsmall : ∀ e ∈ dirtyFeed store.rows blocks (some ns), e.syncSeq < 10 ^ 18) :
    (∃ pages, FeedWalk (trackerPage store blocks ns limit) pages) ∧
      (∀ pages, FeedWalk (trackerPage store blocks ns limit) pages →
        pages.flatten = pushable store blocks ns ∧
        StrictlySorted feedKey pages.flatten ∧
        ∀ e ∈ pages.flatten, parseDirtyCursor (cursorText e) = some (e.syncSeq, e.id)) ∧
      (limit ≤ MAX_SYNC_DIRTY_PAGE →
        toolPage store blocks ns limit = trackerPage store blocks ns limit) := by
  -- Rows at or below zero are behind no cursor, so the walk is over the rest.
  have hfeed : StrictlySorted feedKey (pushable store blocks ns) :=
    (dirtyFeed_strict store blocks ns).sublist List.filter_sublist
  have hpositive : ∀ e ∈ pushable store blocks ns, 0 < e.syncSeq := fun e he => by
    simpa using (List.mem_filter.mp he).2
  have hbounded : ∀ e ∈ pushable store blocks ns, e.syncSeq < 10 ^ 18 := fun e he =>
    hsmall e (List.mem_of_mem_filter he)
  have hpage : ∀ e ∈ pushable store blocks ns,
      trackerPage store blocks ns limit (some (cursorText e)) =
        some ((behind feedKey (feedKey e) (pushable store blocks ns)).take limit.toNat) := by
    intro e he
    have hlater : startKey 0 none < feedKey e :=
      ((mem_behind feedKey).mp (pushable_eq store blocks ns ▸ he)).2
    rw [trackerPage_cursor blocks hread hlimit (hpositive e he) (hbounded e he), pushable_eq,
      behind_behind feedKey _ hlater]
  have hstart : trackerPage store blocks ns limit none =
      some ((behind feedKey (startKey 0 none) (pushable store blocks ns)).take limit.toNat) := by
    have hidem : behind feedKey (startKey 0 none) (pushable store blocks ns) =
        behind feedKey (startKey 0 none) (dirtyFeed store.rows blocks (some ns)) := by
      rw [pushable_eq, behind, behind, List.filter_filter]
      simp only [Bool.and_self]
    rw [hidem]
    exact sql_page blocks hread hlimit none (by simp)
  have hn : 0 < limit.toNat := by omega
  refine ⟨exists_walk feedKey hpage hstart, ?_, toolPage_eq store blocks ns hlimit⟩
  intro pages hwalk
  have hall : pages.flatten = pushable store blocks ns := by
    rw [walk_flatten feedKey hfeed hn hpage hwalk hstart, pushable_eq, behind, behind,
      List.filter_filter]
    simp only [Bool.and_self]
  refine ⟨hall, hall ▸ hfeed, ?_⟩
  intro e he
  rw [hall] at he
  exact parseDirtyCursor_cursorText (hpositive e he).le (hbounded e he)

def feedRow (id : String) (seq : Int) (h : id ≠ "") : MemoryEntry :=
  { MemoryEntry.ofDefaults id "row" "south" ⟨0, some 0⟩ h with syncSeq := seq }

def mixedRows : MemoryRows where
  rows := [feedRow "b:2" 1 (by decide), feedRow "a" 2 a_ne_empty, feedRow "b" 1 b_ne_empty]
  primaryKey := by decide

theorem mixedRows_paging :
    (∃ pages, FeedWalk (trackerPage mixedRows (fun e => e.id == "b") "south" 1) pages) ∧
      (∀ pages, FeedWalk (trackerPage mixedRows (fun e => e.id == "b") "south" 1) pages →
        pages.flatten = pushable mixedRows (fun e => e.id == "b") "south" ∧
        StrictlySorted feedKey pages.flatten ∧
        ∀ e ∈ pages.flatten, parseDirtyCursor (cursorText e) = some (e.syncSeq, e.id)) ∧
      (1 ≤ MAX_SYNC_DIRTY_PAGE →
        toolPage mixedRows (fun e => e.id == "b") "south" 1 =
          trackerPage mixedRows (fun e => e.id == "b") "south" 1) :=
  dirty_paging_complete mixedRows (fun e => e.id == "b") "south" 1 le_rfl
    (by unfold FeedReadable; decide +kernel) (by decide +kernel)

def grownRows : MemoryRows where
  rows := [feedRow "a" (10 ^ 18) a_ne_empty]
  primaryKey := by decide

/-- A dirty row that was created before the first year in UTC, and one behind it. -/
def earlyRows : MemoryRows where
  rows :=
    [{ feedRow "a" 1 a_ne_empty with createdAt := ⟨0, some 3600000000⟩ },
      feedRow "b" 2 b_ne_empty]
  primaryKey := by decide

/-- The tool serves the row and refuses the cursor made from it; a page of more than
its ceiling it does not serve at all, and none behind a row that cannot be read. -/
theorem grown_cursor_refused :
    toolPage grownRows (fun _ => false) "south" 1 none = some [feedRow "a" (10 ^ 18) (by decide)] ∧
      parseDirtyCursor (cursorText (feedRow "a" (10 ^ 18) (by decide))) = none ∧
      toolPage grownRows (fun _ => false) "south" 1
        (some (cursorText (feedRow "a" (10 ^ 18) (by decide)))) = none ∧
      toolPage mixedRows (fun _ => false) "south" 1001 none = none ∧
      (pushable earlyRows (fun _ => false) "south").length = 2 ∧
      toolPage earlyRows (fun _ => false) "south" 1 none = none := by
  refine ⟨?_, ?_, ?_, ?_, ?_, ?_⟩ <;> decide +kernel

end TrwMemory.Sync

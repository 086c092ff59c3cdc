import Mathlib.Data.String.Basic
import TrwMemory.Library.Json
import TrwMemory.Storage.RowWrites
import TrwMemory.Storage.Sweep

/-!
What a sweep of a namespace is made of: the pages of its rows in the order of their ids
(`list_entries_by_id` of `storage/_query_ops.py`), and the texts that carry a key from one
call to the next (`_sweep.py`).

The database limits a page before the rows that cannot be mapped are left out of it; a row whose
timestamp overflows makes its page raise. A row is here its key and what the mapper makes of its
columns. Of the texts that are no token the ones
with other escapes than the encoder's are refused without being read; failing statements, and
the quarantine filter over the pages, are not modelled here.
-/
namespace TrwMemory.Storage

open Library Library.Keyset Library.IsoText

def MAX_TOKEN_PARTS : Nat := 3

def MAX_KEY_PART_CHARS : Nat := MAX_ENTRY_ID_CHARS

def MAX_TOKEN_CHARS : Nat := 2 + MAX_TOKEN_PARTS * (6 * MAX_KEY_PART_CHARS + 3)

/-- The items of a list up to its end, with "," between them. -/
def tightItems : List String → List Char
  | [] => [']']
  | [part] => (Json.rawStr part).toList ++ [']']
  | part :: more :: parts => (Json.rawStr part).toList ++ ',' :: tightItems (more :: parts)

/-- `json.dumps` of a list of strings, without blanks and not made ASCII. -/
def dumpsTight (parts : List String) : String := String.ofList ('[' :: tightItems parts)

/-- `none` is the `ValueError` for what `decode_token` would refuse. -/
def encodeToken (parts : List String) : Option String :=
  if MAX_TOKEN_PARTS < parts.length ∨ parts.any fun part => MAX_KEY_PART_CHARS < part.length then
    none
  else some (dumpsTight parts)

def skipBlanks (text : List Char) : List Char :=
  text.dropWhile fun c => decide (c ∈ [' ', '\n', '\r', '\t'])

/-- One or more strings up to the closing bracket. -/
def readItems : Nat → List Char → Option (List String × List Char)
  | 0, _ => none
  | fuel + 1, text => do
      let (part, text) ← Json.readStr (skipBlanks text)
      match expect ']' (skipBlanks text) with
      | some text => some ([part], text)
      | none => do
          let text ← expect ',' (skipBlanks text)
          let (parts, text) ← readItems fuel text
          return (part :: parts, text)

/-- `json.loads`, of the texts that are lists of strings. -/
def loadsStrings (token : String) : Option (List String) := do
  let text ← expect '[' (skipBlanks token.toList)
  let (parts, text) ←
    match expect ']' (skipBlanks text) with
    | some text => some ([], text)
    | none => readItems text.length text
  if (skipBlanks text).isEmpty then some parts else none

def decodeToken (token : String) (arity : Nat) : Option (List String) :=
  if MAX_TOKEN_CHARS < token.length then none
  else (loadsStrings token).filter fun parts => parts.length == arity

example : encodeToken ["by_id", "a\"b,c\n", "é"] = some "[\"by_id\",\"a\\\"b,c\\n\",\"é\"]" := by
  decide

/-- What begins with the first character of a string or with punctuation has no blanks. -/
theorem skipBlanks_cons {c : Char} (h : c ∉ [' ', '\n', '\r', '\t']) (text : List Char) :
    skipBlanks (c :: text) = c :: text := by
  rw [skipBlanks, List.dropWhile_cons_of_neg (by simpa using h)]

theorem rawStr_head (part : String) : ∃ text, (Json.rawStr part).toList = '"' :: text :=
  ⟨_, by simp [Json.rawStr, Json.quoted]; rfl⟩

theorem skipBlanks_rawStr (part : String) (rest : List Char) :
    skipBlanks ((Json.rawStr part).toList ++ rest) = (Json.rawStr part).toList ++ rest := by
  obtain ⟨text, htext⟩ := rawStr_head part
  rw [htext, List.cons_append, skipBlanks_cons (by decide)]

theorem readItems_tightItems (parts : List String) (hne : parts ≠ []) {fuel : Nat}
    (h : parts.length ≤ fuel) : readItems fuel (tightItems parts) = some (parts, []) := by
  induction parts generalizing fuel with
  | nil => exact absurd rfl hne
  | cons part parts ih =>
      obtain ⟨fuel, rfl⟩ : ∃ n, fuel = n + 1 := ⟨fuel - 1, by simp at h; omega⟩
      cases parts with
      | nil =>
          rw [tightItems, readItems, skipBlanks_rawStr, Json.readStr_rawStr]
          rfl
      | cons more parts =>
          have hrest := ih (List.cons_ne_nil _ _) (by simpa using h)
          rw [tightItems, readItems, skipBlanks_rawStr, Json.readStr_rawStr]
          simp only [Option.bind_eq_bind, Option.bind_some,
            skipBlanks_cons (show ',' ∉ [' ', '\n', '\r', '\t'] by decide), expect_cons, hrest]
          rfl

theorem length_tightItems (parts : List String) : parts.length ≤ (tightItems parts).length := by
  induction parts with
  | nil => exact Nat.zero_le _
  | cons part parts ih =>
      cases parts with
      | nil =>
          rw [tightItems, List.length_append]
          simp
      | cons more parts =>
          rw [tightItems, List.length_append, List.length_cons (a := ','), List.length_cons]
          omega

theorem loadsStrings_dumpsTight (parts : List String) :
    loadsStrings (dumpsTight parts) = some parts := by
  rw [loadsStrings, dumpsTight, String.toList_ofList, skipBlanks_cons (by decide), expect_cons]
  cases parts with
  | nil => rfl
  | cons part parts =>
      have hhead : ∃ text, tightItems (part :: parts) = '"' :: text := by
        obtain ⟨text, htext⟩ := rawStr_head part
        cases parts with
        | nil => exact ⟨_, by rw [tightItems, htext, List.cons_append]⟩
        | cons more parts => exact ⟨_, by rw [tightItems, htext, List.cons_append]⟩
      have hclose : expect ']' (skipBlanks (tightItems (part :: parts))) = none := by
        obtain ⟨text, htext⟩ := hhead
        rw [htext, skipBlanks_cons (by decide)]
        rfl
      simp only [Option.bind_eq_bind, Option.bind_some, hclose,
        readItems_tightItems _ (List.cons_ne_nil _ _) (length_tightItems _)]
      rfl

theorem length_rawStr (part : String) : (Json.rawStr part).length ≤ 6 * part.length + 2 := by
  have hjoin : ∀ cs : List Char,
      (String.join (cs.map Json.escapeRaw)).length ≤ 6 * cs.length := by
    intro cs
    induction cs with
    | nil => simp
    | cons c cs ih =>
        have hc := Json.length_escapeRaw c
        rw [List.map_cons, String.join_cons, String.length_append, List.length_cons]
        omega
  have h := hjoin part.toList
  rw [String.length_toList] at h
  rw [Json.rawStr, Json.quoted, String.length_append, String.length_append]
  have hquote : "\"".length = 1 := by decide
  omega

theorem length_tightItems_le {bound : Nat} (parts : List String)
    (h : ∀ part ∈ parts, part.length ≤ bound) :
    (tightItems parts).length ≤ 1 + parts.length * (6 * bound + 3) := by
  induction parts with
  | nil => simp [tightItems]
  | cons part parts ih =>
      obtain ⟨hpart, hparts⟩ := List.forall_mem_cons.mp h
      have hstr := length_rawStr part
      have hrest := ih hparts
      rw [← String.length_toList] at hstr
      rw [List.length_cons, Nat.add_one_mul]
      cases parts with
      | nil =>
          rw [tightItems, List.length_append, List.length_singleton]
          omega
      | cons more parts =>
          rw [tightItems, List.length_append, List.length_cons]
          omega

/-- The bound on the text of a token leaves room for every key that is accepted. -/
theorem decodeToken_encodeToken {parts : List String} {token : String}
    (h : encodeToken parts = some token) : decodeToken token parts.length = some parts := by
  rw [encodeToken] at h
  split at h
  · cases h
  · rename_i hbounds
    rw [not_or, List.any_eq_true, not_lt] at hbounds
    obtain ⟨hcount, hchars⟩ := hbounds
    obtain rfl := Option.some.inj h
    have hlength := @length_tightItems_le MAX_KEY_PART_CHARS parts fun part hpart => by
      have := fun hlt => hchars ⟨part, hpart, hlt⟩
      simpa using this
    have hproduct := Nat.mul_le_mul_right (6 * MAX_KEY_PART_CHARS + 3) hcount
    have hfits : ¬MAX_TOKEN_CHARS < (dumpsTight parts).length := by
      rw [dumpsTight, String.length_ofList, List.length_cons, MAX_TOKEN_CHARS]
      omega
    rw [decodeToken, if_neg hfits, loadsStrings_dumpsTight]
    simp [Option.filter]

/-- A row of `memories`: its key, and the entry that its columns are mapped to, where they can
be. No entry has an empty id. -/
structure KeyedRow (ε : Type) where
  ns : String
  id : String
  mapped : Except MapError ε
  named : mapped.toOption.isSome → id ≠ ""

/-- The entry, if there is one. -/
def KeyedRow.entry {ε : Type} (row : KeyedRow ε) : Option ε := row.mapped.toOption

/-- The mapping of the row escapes from a listing. -/
def KeyedRow.raises {ε : Type} (row : KeyedRow ε) : Bool :=
  match row.mapped with
  | .error .overflow => true
  | _ => false

/-- The table; namespace and id are its key. -/
structure KeyedRows (ε : Type) where
  rows : List (KeyedRow ε)
  distinct : (rows.map fun row => (row.ns, row.id)).Nodup

variable {ε : Type}

/-- What a page shows of a row: an entry with its id. -/
def KeyedRow.served (row : KeyedRow ε) : Option (String × ε) := row.entry.map (row.id, ·)

/-- The statement of `list_entries_by_id`, without its limit. -/
def KeyedRows.select (table : KeyedRows ε) (ns after : String) (through : Option String) :
    List (KeyedRow ε) :=
  sortOn KeyedRow.id <| table.rows.filter fun row =>
    row.ns == ns && decide (after < row.id) && through.all fun last => decide (row.id ≤ last)

def listEntriesById (table : KeyedRows ε) (ns : String) (through after : Option String)
    (limit : Nat) : Except MapError (List (String × ε)) :=
  if limit = 0 then .ok []
  else
    let page := (table.select ns (after.getD "") through).take limit
    if page.any KeyedRow.raises then .error .overflow else .ok (page.filterMap KeyedRow.served)

/-- The entries of a page that does not raise. -/
def shownById (table : KeyedRows ε) (ns : String) (through after : Option String)
    (limit : Nat) : List (String × ε) :=
  ((table.select ns (after.getD "") through).take limit).filterMap KeyedRow.served

/-- The rows of a sweep. -/
def KeyedRows.swept (table : KeyedRows ε) (ns : String) (through : Option String) :
    List (KeyedRow ε) :=
  table.select ns "" through

/-- No row that can be read stands behind one that cannot. -/
def ReadableFirst (rows : List (KeyedRow ε)) : Prop :=
  rows.Pairwise fun a b => b.entry.isSome → a.entry.isSome

instance (rows : List (KeyedRow ε)) : Decidable (ReadableFirst rows) :=
  inferInstanceAs (Decidable (rows.Pairwise _))

/-- No row of a sweep makes its page raise. -/
def NoneRaises (rows : List (KeyedRow ε)) : Prop := ∀ row ∈ rows, row.raises = false

instance (rows : List (KeyedRow ε)) : Decidable (NoneRaises rows) :=
  inferInstanceAs (Decidable (∀ row ∈ rows, _))

theorem swept_strict (table : KeyedRows ε) (ns : String) (through : Option String) :
    StrictlySorted KeyedRow.id (table.swept ns through) := by
  refine sortOn_strict KeyedRow.id (List.pairwise_map.mpr ?_)
  have hdistinct := List.pairwise_map.mp table.distinct
  refine (hdistinct.sublist List.filter_sublist).imp_of_mem fun {a b} ha hb hne hid => hne ?_
  have ha := (List.mem_filter.mp ha).2
  have hb := (List.mem_filter.mp hb).2
  simp only [Bool.and_eq_true, beq_iff_eq] at ha hb
  rw [ha.1.1, hb.1.1, hid]

theorem empty_le (s : String) : "" ≤ s :=
  not_lt.mp fun h => List.not_lt_nil _ (String.lt_iff_toList_lt.mp h)

theorem lt_of_mem_swept {table : KeyedRows ε} {ns : String} {through : Option String}
    {row : KeyedRow ε} (h : row ∈ table.swept ns through) : "" < row.id := by
  have h := (List.mem_filter.mp ((mem_sortOn KeyedRow.id).mp h)).2
  simp only [Bool.and_eq_true, decide_eq_true_eq] at h
  exact h.1.2

/-- A page resumes in the rows of the sweep. -/
theorem select_after (table : KeyedRows ε) (ns : String) (through : Option String)
    (after : String) :
    table.select ns after through =
      (table.swept ns through).filter fun row => decide (after < row.id) := by
  rw [KeyedRows.swept, KeyedRows.select, KeyedRows.select, filter_sortOn, List.filter_filter]
  congr 1
  refine List.filter_congr fun row _ => ?_
  by_cases hafter : after < row.id
  · have hempty : "" < row.id := lt_of_le_of_lt (empty_le after) hafter
    simp [hafter, hempty]
  · simp [hafter]

theorem listEntriesById_eq (table : KeyedRows ε) (ns : String) (through : Option String)
    (h : NoneRaises (table.swept ns through)) (after : Option String) (limit : Nat) :
    listEntriesById table ns through after limit =
      .ok (shownById table ns through after limit) := by
  rw [listEntriesById, shownById]
  split
  · rename_i hzero
    rw [hzero]
    rfl
  · dsimp only
    rw [if_neg]
    rw [List.any_eq_true]
    rintro ⟨row, hrow, hraises⟩
    have hselected := List.mem_of_mem_take hrow
    rw [select_after] at hselected
    rw [h row (List.mem_filter.mp hselected).1] at hraises
    cases hraises

section Shown

variable {rows : List (KeyedRow ε)}

/-- All rows that are shown come first. -/
theorem filterMap_take (h : ReadableFirst rows) (n : Nat) :
    (rows.take n).filterMap KeyedRow.served = (rows.filterMap KeyedRow.served).take n := by
  induction rows generalizing n with
  | nil => simp
  | cons row rows ih =>
      have hrows := List.pairwise_cons.mp h
      cases n with
      | zero => simp
      | succ n =>
          cases hrow : row.entry with
          | some e =>
              have hserved : row.served = some (row.id, e) := by rw [KeyedRow.served, hrow]; rfl
              rw [List.take_succ_cons, List.filterMap_cons_some hserved,
                List.filterMap_cons_some hserved, List.take_succ_cons, ih hrows.2]
          | none =>
              -- then nothing behind it can be read either
              have hserved : row.served = none := by rw [KeyedRow.served, hrow]; rfl
              have hnone : ∀ behind ∈ rows, behind.served = none := by
                intro behind hbehind
                have hread := hrows.1 behind hbehind
                rw [hrow] at hread
                cases hentry : behind.entry with
                | none => rw [KeyedRow.served, hentry]; rfl
                | some e => exact absurd (hread (by rw [hentry]; rfl)) Bool.false_ne_true
              rw [List.take_succ_cons, List.filterMap_cons_none hserved,
                List.filterMap_cons_none hserved, List.filterMap_eq_nil_iff.mpr hnone,
                List.take_nil]
              exact List.filterMap_eq_nil_iff.mpr fun b hb => hnone b (List.mem_of_mem_take hb)

theorem id_of_served {row : KeyedRow ε} {shown : String × ε} (h : row.served = some shown) :
    shown.1 = row.id := by
  obtain ⟨e, -, rfl⟩ := Option.map_eq_some_iff.mp h
  rfl

theorem filterMap_filter_id (p : String → Bool) :
    (rows.filter fun row => p row.id).filterMap KeyedRow.served =
      (rows.filterMap KeyedRow.served).filter fun shown => p shown.1 := by
  induction rows with
  | nil => rfl
  | cons row rows ih =>
      cases hserved : row.served with
      | none =>
          rw [List.filterMap_cons_none hserved, ← ih, List.filter_cons]
          split
          · rw [List.filterMap_cons_none hserved]
          · rfl
      | some shown =>
          rw [List.filterMap_cons_some hserved, List.filter_cons, List.filter_cons,
            id_of_served hserved, ← ih]
          split
          · rw [List.filterMap_cons_some hserved]
          · rfl

end Shown

/-- The rows that a sweep can show, as a source that is paged by id. -/
def KeyedRows.source (table : KeyedRows ε) (ns : String) (through : Option String) :
    OrderedSource (String × ε) String where
  key := Prod.fst
  rows := (table.swept ns through).filterMap KeyedRow.served
  sorted := by
    refine List.Pairwise.filterMap _ (fun a b hab x hx y hy => ?_) (swept_strict table ns through)
    rw [id_of_served hx, id_of_served hy]
    exact hab

variable (table : KeyedRows ε) (ns : String) (through : Option String)

/-- Where the rows that can be read come first and none raises, the pages are those of the
source. -/
theorem listEntriesById_eq_fetch (hraises : NoneRaises (table.swept ns through))
    (h : ReadableFirst (table.swept ns through)) :
    listEntriesById table ns through = (table.source ns through).pages := by
  funext after limit
  rw [listEntriesById_eq table ns through hraises, shownById, OrderedSource.pages,
    OrderedSource.fetch, select_after,
    filterMap_take (h.sublist List.filter_sublist),
    filterMap_filter_id fun id => decide (after.getD "" < id)]
  congr 2
  cases after with
  | some k => rfl
  | none =>
      refine List.filter_eq_self.mpr fun shown hshown => ?_
      obtain ⟨row, -, hrow⟩ := List.mem_filterMap.mp hshown
      have hne : shown.1 ≠ "" := by
        rw [id_of_served hrow]
        refine row.named ?_
        obtain ⟨e, he, -⟩ := Option.map_eq_some_iff.mp hrow
        rw [← KeyedRow.entry, he]
        rfl
      exact decide_eq_true (lt_of_le_of_ne (empty_le _) (Ne.symm hne))

/-- One row a page, one page a call. -/
def oneByOne : Nat → SweepCall (String × ε) := fun _ => ⟨1, 1, fun _ _ => 1, fun _ => true⟩

theorem oneByOne_lawful (i : Nat) : (oneByOne (ε := ε) i).Lawful :=
  ⟨Nat.le_refl 1, Nat.le_refl 1,
    fun _ _ hbatch => ⟨Nat.le_refl 1, List.length_pos_iff.mpr hbatch⟩⟩

theorem sweep_oneByOne (fetch : Option String → Nat → Except MapError (List (String × ε))) (i : Nat)
    (cursor : Option String) :
    (fetch cursor 1 = .ok [] →
      sweep fetch Prod.fst (oneByOne i) cursor = ([], .ok none)) ∧
    ∀ shown, fetch cursor 1 = .ok [shown] →
      sweep fetch Prod.fst (oneByOne i) cursor = ([shown], .ok (some shown.1)) := by
  constructor
  · intro hpage
    simp [sweep, sweepLoop, oneByOne, hpage]
  · intro shown hpage
    simp [sweep, sweepLoop, oneByOne, hpage]

/-- A call that asks for as many rows as there may be. -/
def allAtOnce (n : Nat) : Nat → SweepCall (String × ε) := fun _ =>
  ⟨n + 1, n + 1, fun _ batch => batch.length, fun _ => false⟩

theorem allAtOnce_lawful (n i : Nat) : (allAtOnce (ε := ε) n i).Lawful :=
  ⟨Nat.le_add_left 1 n, Nat.le_add_left 1 n,
    fun _ _ hbatch => ⟨List.length_pos_iff.mpr hbatch, Nat.le_refl _⟩⟩

/-- A row that raises is on the first page of such a call. -/
theorem noneRaises_of_visitsOnce {rows : List (String × ε)}
    (h : VisitsOnce (listEntriesById table ns through) Prod.fst rows) :
    NoneRaises (table.swept ns through) := by
  intro row hrow
  by_contra hraises
  obtain ⟨n, hn⟩ := h (allAtOnce (table.swept ns through).length)
    (allAtOnce_lawful (table.swept ns through).length)
  have hpage : listEntriesById table ns through none ((table.swept ns through).length + 1) =
      .error .overflow := by
    rw [listEntriesById, if_neg (Nat.succ_ne_zero _)]
    have hall : (table.select ns ((none : Option String).getD "") through).take
        ((table.swept ns through).length + 1) = table.swept ns through :=
      List.take_of_length_le (Nat.le_succ _)
    dsimp only
    rw [hall, if_pos (List.any_eq_true.mpr ⟨row, hrow, by simpa using hraises⟩)]
  have hcall : sweep (listEntriesById table ns through) Prod.fst
      (allAtOnce (table.swept ns through).length 0) none = ([], .error .fetch) := by
    simp [sweep, sweepLoop, allAtOnce, hpage]
  cases n with
  | zero => cases hn
  | succ n =>
      rw [sweeps, hcall] at hn
      cases hn

/-- The page before such a row is the last one. -/
theorem sweeps_stop (hraises : NoneRaises (table.swept ns through)) {unread : KeyedRow ε}
    (hmem : unread ∈ table.swept ns through)
    (hunread : unread.entry = none) (n i : Nat) {cursor : Option String}
    (hcursor : cursor.getD "" < unread.id) :
    ∀ shown ∈ (sweeps (listEntriesById table ns through) Prod.fst oneByOne n i cursor).1,
      shown.1 < unread.id := by
  induction n generalizing i cursor with
  | zero => simp [sweeps]
  | succ n ih =>
      have hpage : listEntriesById table ns through cursor 1 =
          .ok (((table.select ns (cursor.getD "") through).take 1).filterMap KeyedRow.served) :=
        listEntriesById_eq table ns through hraises cursor 1
      have hleft : unread ∈ table.select ns (cursor.getD "") through := by
        rw [select_after]
        exact List.mem_filter.mpr ⟨hmem, decide_eq_true hcursor⟩
      have hstrict : StrictlySorted KeyedRow.id (table.select ns (cursor.getD "") through) := by
        rw [select_after]
        exact (swept_strict table ns through).sublist List.filter_sublist
      have hcall := sweep_oneByOne (listEntriesById table ns through) i cursor
      rw [hpage] at hcall
      rw [sweeps]
      cases hrows : table.select ns (cursor.getD "") through with
      | nil =>
          rw [hrows] at hleft
          cases hleft
      | cons row rows =>
          rw [hrows, List.take_succ_cons, List.take_zero] at hcall
          cases hserved : row.served with
          | none =>
              rw [hcall.1 (congrArg Except.ok (List.filterMap_cons_none hserved))]
              simp
          | some shown =>
              -- the row that is shown stands before the one that cannot be
              have hbefore : shown.1 < unread.id := by
                rw [hrows] at hleft hstrict
                rw [id_of_served hserved]
                rcases List.mem_cons.mp hleft with rfl | hleft
                · rw [KeyedRow.served, hunread] at hserved
                  cases hserved
                · exact (List.pairwise_cons.mp hstrict).1 unread hleft
              rw [hcall.2 shown (congrArg Except.ok (List.filterMap_cons_some hserved))]
              exact List.forall_mem_cons.mpr
                ⟨hbefore, @ih (i + 1) (some shown.1) hbefore⟩

/-- What an unreadable row hides is not visited. -/
theorem readableFirst_of_visitsOnce
    (h : VisitsOnce (listEntriesById table ns through) Prod.fst (table.source ns through).rows) :
    ReadableFirst (table.swept ns through) := by
  refine List.pairwise_iff_getElem.mpr fun i j hi hj hij hread => ?_
  have hlt := List.pairwise_iff_getElem.mp (swept_strict table ns through) i j hi hj hij
  generalize hbefore : (table.swept ns through)[i] = unread at hlt
  generalize hbehind : (table.swept ns through)[j] = row at hlt hread
  have hmem : unread ∈ table.swept ns through := hbefore ▸ List.getElem_mem hi
  have hrow : row ∈ table.swept ns through := hbehind ▸ List.getElem_mem hj
  obtain ⟨e, he⟩ := Option.isSome_iff_exists.mp hread
  cases hunread : unread.entry with
  | some e => rfl
  | none =>
      obtain ⟨n, hn⟩ := h oneByOne oneByOne_lawful
      have hcursor : (none : Option String).getD "" < unread.id :=
        lt_of_mem_swept hmem
      have hstop := sweeps_stop table ns through (noneRaises_of_visitsOnce table ns through h)
        hmem hunread n 0 hcursor
      rw [hn] at hstop
      have hshown : (row.id, e) ∈ (table.source ns through).rows :=
        List.mem_filterMap.mpr ⟨row, hrow, by rw [KeyedRow.served, he]; rfl⟩
      exact absurd hlt (lt_asymm (hstop _ hshown))

/-- Sweeps over keys that do not change visit every row once and in order, whatever cuts their
calls; the pages of a namespace are such a source; and a token is read back as the key that it
was made of. -/
structure Resumable (table : KeyedRows ε) (ns : String) (through : Option String) : Prop where
  ordered : ∀ {α κ : Type} [LinearOrder κ] (source : OrderedSource α κ),
    VisitsOnce (source.pages (ε := MapError)) source.key source.rows
  pages : VisitsOnce (listEntriesById table ns through) Prod.fst (table.source ns through).rows
  tokens : ∀ parts token, encodeToken parts = some token →
    decodeToken token parts.length = some parts

theorem resumable_iff : Resumable table ns through ↔
    NoneRaises (table.swept ns through) ∧ ReadableFirst (table.swept ns through) := by
  constructor
  · intro h
    exact ⟨noneRaises_of_visitsOnce table ns through h.pages,
      readableFirst_of_visitsOnce table ns through h.pages⟩
  · rintro ⟨hraises, h⟩
    refine ⟨fun source => visitsOnce_ordered source, ?_, fun _ _ => decodeToken_encodeToken⟩
    rw [listEntriesById_eq_fetch table ns through hraises h]
    exact visitsOnce_ordered (table.source ns through)

/-- Two rows, of which the first cannot be read. -/
def hiddenRow : KeyedRows Nat where
  rows := [⟨"team", "a", .error .invalid, by decide⟩, ⟨"team", "b", .ok 7, by decide⟩]
  distinct := by decide

/-- The sweep reports completion with the other one unvisited. -/
theorem hiddenRow_not_resumable : ¬Resumable hiddenRow "team" none := by
  intro h
  have hfirst := readableFirst_of_visitsOnce hiddenRow "team" none h.pages
  revert hfirst
  decide

end TrwMemory.Storage

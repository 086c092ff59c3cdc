import TrwMemory.Library.RowLogParse

/-!
The live rows of a log are the last writes of its lines: by name, after an append, and with
the number of dead lines that an append leaves.

A log as the map of its last writes, where a writer may leave an unfinished line that the next
bytes carry on: what appended rows, removals and foreign bytes make of the map, and that it is
what the text of the log says.
-/
namespace Library.RowLog

open Library.Keyed

universe u

namespace Format

variable {β α ι τ ε : Type u} [DecidableEq ι] [DecidableEq τ] [DecidableEq β]
variable (fmt : Format β α ι τ ε)

section Names

omit [DecidableEq τ] [DecidableEq β]

/-- No two rows have a name in common. -/
def Distinct (rows : List α) : Prop := (rows.filterMap fmt.name).Nodup

/-- The rows that none of the others replaces, and these. -/
def merged (m rows : List α) : List α :=
  m.filter (fun b => (fmt.name b).all fun i => !(rows.filterMap fmt.name).contains i) ++ rows

/-- The rows of other names. -/
def without (m : List α) (i : ι) : List α := m.filter fun b => fmt.name b != some i

variable {fmt}

omit [DecidableEq ι] in
theorem mem_names {rows : List α} {i : ι} :
    i ∈ rows.filterMap fmt.name ↔ ∃ a ∈ rows, fmt.name a = some i := List.mem_filterMap

/-- Writes of different names are a merge. -/
theorem lastWrites_eq_merged {rows : List α} (h : fmt.Distinct rows) (m : List α) :
    fmt.lastWrites m rows = fmt.merged m rows := by
  induction rows generalizing m with
  | nil => simp [lastWrites, merged]
  | cons a rows ih =>
      have hrows : fmt.Distinct rows :=
        h.sublist ((List.sublist_cons_self a rows).filterMap fmt.name)
      rw [lastWrites, List.foldl_cons]
      refine (ih hrows (fmt.lastWrite m a)).trans ?_
      rw [merged, merged, lastWrite, List.filter_append, List.filter_filter, List.append_assoc]
      have hkept : [a].filter (fun b => (fmt.name b).all fun i =>
          !(rows.filterMap fmt.name).contains i) = [a] := by
        rw [List.filter_singleton]
        cases hname : fmt.name a with
        | none => rfl
        | some i =>
            have hnot : i ∉ rows.filterMap fmt.name := by
              rw [Distinct, List.filterMap_cons_some hname] at h
              exact (List.nodup_cons.mp h).1
            rw [mem_names] at hnot
            simp [hnot]
      rw [hkept, List.singleton_append]
      congr 1
      apply List.filter_congr
      intro b _
      cases hb : fmt.name b with
      | none => rfl
      | some j =>
          cases ha : fmt.name a with
          | none => simp [List.filterMap_cons_none ha]
          | some i =>
              rw [List.filterMap_cons_some ha]
              by_cases hij : j = i <;> simp [hij, Bool.and_comm]

theorem merged_nil (rows : List α) : fmt.merged [] rows = rows := rfl

/-- Rows of different names are their own last writes. -/
theorem lastWrites_distinct {rows : List α} (h : fmt.Distinct rows) :
    fmt.lastWrites [] rows = rows := (lastWrites_eq_merged h []).trans (merged_nil rows)

theorem Distinct.merged {m rows : List α} (hm : fmt.Distinct m) (h : fmt.Distinct rows) :
    fmt.Distinct (fmt.merged m rows) := by
  rw [Distinct, Format.merged, List.filterMap_append, List.nodup_append]
  refine ⟨hm.sublist (List.filter_sublist.filterMap _), h, ?_⟩
  intro i hi j hj hij
  subst hij
  obtain ⟨b, hb, hname⟩ := mem_names.mp hi
  have hkept := (List.mem_filter.mp hb).2
  rw [hname] at hkept
  rw [Option.all_some, Bool.not_eq_true', List.contains_eq_mem, decide_eq_false_iff_not] at hkept
  exact hkept hj

theorem Distinct.without {m : List α} (hm : fmt.Distinct m) (i : ι) :
    fmt.Distinct (fmt.without m i) := hm.sublist (List.filter_sublist.filterMap _)

omit [DecidableEq ι] in
/-- The rows of an index have different names. -/
theorem Indexed.distinct {index : Table (Key ι) (Nat × α)} {n : Nat} (h : fmt.Indexed index n) :
    fmt.Distinct (index.rows.map fun row => row.2.2) := by
  have hnames : (index.rows.map fun row => row.2.2).filterMap fmt.name =
      (index.rows.map Prod.fst).filterMap fun
        | .named i => some i
        | .line _ => none := by
    rw [List.filterMap_map, List.filterMap_map]
    apply List.filterMap_congr
    intro row hrow
    rw [Function.comp_apply, Function.comp_apply, h.keyed row hrow, key]
    cases hname : fmt.name row.2.2 <;> rfl
  rw [Distinct, hnames]
  refine index.nodup.filterMap ?_
  intro k k' i hk hk'
  cases k <;> cases k' <;> simp_all

end Names

section Live

variable {fmt}

theorem parse_indexed (hlaw : fmt.Lawful) {text : List β} {p : Parsed α ι τ}
    (hp : fmt.parse text = .ok p) : fmt.Indexed p.index p.nextLine := by
  obtain ⟨full, s, hscan, rfl, -⟩ := parse_lines hlaw hp
  have hs := (scan_scanned scanned_empty hscan).indexed
  rwa [Nat.add_comm] at hs

omit [DecidableEq ι] [DecidableEq τ] in
theorem live_eq (p : Parsed α ι τ) : p.live = p.index.rows.map fun row => row.2.2 := by
  rw [Parsed.live, Parsed.rows, List.map_map]
  rfl

/-- The live rows of a text. -/
theorem live_parse (hlaw : fmt.Lawful) {text : List β} {p : Parsed α ι τ}
    (hp : fmt.parse text = .ok p) :
    p.live = (text.splitOn fmt.separator).foldl fmt.readInto [] := by
  obtain ⟨full, s, hscan, rfl, -, hsplit⟩ := parse_lines hlaw hp
  rw [live_eq, hsplit, List.foldl_append]
  refine (scan_live indexed_empty hscan).trans ?_
  split
  · rfl
  · rw [List.foldl_cons, List.foldl_nil, readInto, hlaw.read_nil]
    rfl

omit [DecidableEq β] in
theorem foldl_extendRow_live {p : Parsed α ι τ} (h : fmt.Indexed p.index p.nextLine)
    (rows : List α) :
    (rows.foldl fmt.extendRow p).live = fmt.lastWrites p.live rows ∧
      fmt.Indexed (rows.foldl fmt.extendRow p).index (rows.foldl fmt.extendRow p).nextLine := by
  induction rows generalizing p with
  | nil => exact ⟨rfl, h⟩
  | cons a rows ih =>
      obtain ⟨hlive, hindexed⟩ := ih (p := fmt.extendRow p a) (h.put a)
      refine ⟨hlive.trans ?_, hindexed⟩
      rw [live_eq, live_eq]
      exact congrArg (fmt.lastWrites · rows) (h.live_put a)

omit [DecidableEq β] in
theorem live_extend {p : Parsed α ι τ} (h : fmt.Indexed p.index p.nextLine) (rows : List α) :
    (fmt.extend p rows).live = fmt.lastWrites p.live rows := (foldl_extendRow_live h rows).1

/-- Every live row is read off a line, so it can be written again. -/
theorem live_rereads (hlaw : fmt.Lawful) {text : List β} {p : Parsed α ι τ}
    (hp : fmt.parse text = .ok p) : ∀ a ∈ p.live, fmt.Rereads a := by
  obtain ⟨full, s, hscan, rfl, -⟩ := parse_lines hlaw hp
  intro a ha
  rw [live_eq] at ha
  obtain ⟨row, hrow, rfl⟩ := List.mem_map.mp ha
  obtain ⟨line, -, hread⟩ := scan_read hscan row hrow
  exact (hlaw.rewrite line _ hread).1

theorem live_distinct (hlaw : fmt.Lawful) {text : List β} {p : Parsed α ι τ}
    (hp : fmt.parse text = .ok p) : fmt.Distinct p.live := by
  rw [live_eq]
  exact (parse_indexed hlaw hp).distinct

omit [DecidableEq τ] [DecidableEq β] in
/-- A name that is written is live. -/
theorem named_foldl (lines : List (List β)) (m : List α) (i : ι) :
    (∃ a ∈ lines.foldl fmt.readInto m, fmt.name a = some i) ↔
      (∃ a ∈ m, fmt.name a = some i) ∨
        ∃ line ∈ lines, ∃ a, fmt.read line = .ok (.row a) ∧ fmt.name a = some i := by
  induction lines generalizing m with
  | nil => simp
  | cons line lines ih =>
      rw [List.foldl_cons, ih, List.exists_mem_cons_iff, ← or_assoc]
      refine or_congr_left ?_
      unfold readInto
      split
      · rename_i a hread
        constructor
        · rintro ⟨b, hb, hname⟩
          rw [lastWrite, List.mem_append, List.mem_singleton] at hb
          rcases hb with hb | rfl
          · exact .inl ⟨b, List.mem_of_mem_filter hb, hname⟩
          · exact .inr ⟨b, hread, hname⟩
        · intro h
          by_cases ha : fmt.name a = some i
          · exact ⟨a, List.mem_append_right _ List.mem_cons_self, ha⟩
          · rcases h with ⟨b, hb, hname⟩ | ⟨b, hb, hname⟩
            · refine ⟨b, List.mem_append_left _ (List.mem_filter.mpr ⟨hb, ?_⟩), hname⟩
              rw [hname]
              simpa using fun h => ha h.symm
            · rw [hread] at hb
              cases hb
              exact absurd hname ha
      · rename_i hread
        refine ⟨.inl, fun h => h.elim id ?_⟩
        rintro ⟨a, ha, -⟩
        exact absurd ha (hread a)

/-- A name is found in the index exactly where a line of the log has it. -/
theorem find_named_iff (hlaw : fmt.Lawful) {text : List β} {p : Parsed α ι τ}
    (hp : fmt.parse text = .ok p) (i : ι) :
    (p.index.find (.named i)).isSome = true ↔ ∃ line ∈ text.splitOn fmt.separator,
      ∃ a, fmt.read line = .ok (.row a) ∧ fmt.name a = some i := by
  rw [(parse_indexed hlaw hp).find_named, ← live_eq, live_parse hlaw hp, named_foldl]
  simp

end Live

/-- How many of the rows supersede a live one. -/
def superseded (p : Parsed α ι τ) (rows : List α) : Nat :=
  rows.countP fun a => (fmt.name a).any fun i => (p.index.find (.named i)).isSome

section Dead

variable {fmt}

omit [DecidableEq β] in
/-- What an append of rows of different names leaves. -/
theorem foldl_extendRow_counts {p : Parsed α ι τ} (h : fmt.Indexed p.index p.nextLine)
    {rows : List α} (hrows : fmt.Distinct rows) :
    (rows.foldl fmt.extendRow p).dead = p.dead + fmt.superseded p rows ∧
      (rows.foldl fmt.extendRow p).size + fmt.superseded p rows = p.size + rows.length := by
  induction rows generalizing p with
  | nil => exact ⟨rfl, rfl⟩
  | cons a rows ih =>
      have htail : fmt.Distinct rows :=
        hrows.sublist ((List.sublist_cons_self a rows).filterMap fmt.name)
      obtain ⟨hdead, hsize⟩ := ih (p := fmt.extendRow p a) (h.put a) htail
      have hrest : fmt.superseded (fmt.extendRow p a) rows = fmt.superseded p rows := by
        apply List.countP_congr
        intro b hb
        cases hname : fmt.name b with
        | none => rfl
        | some i =>
            have hne : Key.named i ≠ fmt.key p.nextLine a := by
              rw [key]
              cases ha : fmt.name a with
              | none => simp
              | some j =>
                  rw [Distinct, List.filterMap_cons_some ha] at hrows
                  rintro heq
                  obtain rfl : i = j := by simpa using heq
                  exact (List.nodup_cons.mp hrows).1 (mem_names.mpr ⟨b, hb, hname⟩)
            have hfind : (fmt.extendRow p a).index.find (.named i) = p.index.find (.named i) :=
              Table.find_put_of_ne _ _ hne
            rw [Option.any_some, Option.any_some, hfind]
      have hfirst : ((fmt.name a).any fun i => (p.index.find (.named i)).isSome) =
          (p.index.find (fmt.key p.nextLine a)).isSome := by
        cases ha : fmt.name a with
        | some i => rw [key, ha]; rfl
        | none =>
            -- the line of an append is not taken
            rw [key, ha, Option.any_none]
            symm
            rw [Option.isSome_eq_false_iff, Option.isNone_iff_eq_none, Option.elim_none,
              Table.find_eq_none]
            intro hmem
            obtain ⟨row, hrow, hkey⟩ := List.mem_map.mp hmem
            have hline := h.keyed row hrow
            rw [hkey, key] at hline
            cases hname : fmt.name row.2.2 with
            | none =>
                rw [hname] at hline
                have hlt := h.below row hrow
                simp only [Option.elim_none, Key.line.injEq] at hline
                omega
            | some i => rw [hname] at hline; cases hline
      have hlength := p.index.length_put (fmt.key p.nextLine a) (p.nextLine, a)
      have hdead' : (fmt.extendRow p a).dead = p.dead +
          if (p.index.find (fmt.key p.nextLine a)).isSome then 1 else 0 := by
        rw [extendRow]
        dsimp only
        split <;> rfl
      have hsize' : (fmt.extendRow p a).size +
          (if (p.index.find (fmt.key p.nextLine a)).isSome then 1 else 0) = p.size + 1 := hlength
      rw [List.foldl_cons, hdead, hdead', hrest, superseded, superseded, List.countP_cons, hfirst,
        List.length_cons]
      rw [hrest, superseded] at hsize
      constructor
      · omega
      · omega

end Dead

end Format

/-- The rows of the lines that are closed, and an unfinished line. -/
@[ext]
structure LastWrites (α β : Type u) where
  closed : List α
  tail : List β

namespace LastWrites

variable {β α ι τ ε : Type u} [DecidableEq ι] [DecidableEq β] (fmt : Format β α ι τ ε)

def empty : LastWrites α β := ⟨[], []⟩

/-- The rows, that of the unfinished line last. -/
def live (m : LastWrites α β) : List α := fmt.readInto m.closed m.tail

/-- Bytes from anywhere. -/
def receive (m : LastWrites α β) (bytes : List β) : LastWrites α β :=
  let segments := (m.tail ++ bytes).splitOn fmt.separator
  ⟨segments.dropLast.foldl fmt.readInto m.closed, segments.getLast (List.splitOn_ne_nil _ _)⟩

/-- Rows in their order. -/
def record (m : LastWrites α β) (rows : List α) : LastWrites α β :=
  ⟨fmt.lastWrites (m.live fmt) rows, []⟩

/-- Nothing is left of a name that is there. -/
def remove (m : LastWrites α β) (i : ι) : LastWrites α β :=
  if (m.live fmt).any (fun a => fmt.name a == some i) then ⟨fmt.without (m.live fmt) i, []⟩ else m

/-- The map of a text. -/
def ofText (text : List β) : LastWrites α β := empty.receive fmt text

variable {fmt}

/-- The last part of a split is what follows the last separator. -/
theorem splitOn_append (text more : List β) (sep : β) :
    (text ++ more).splitOn sep = (text.splitOn sep).dropLast ++
      ((text.splitOn sep).getLast (List.splitOn_ne_nil _ _) ++ more).splitOn sep := by
  by_cases hsep : sep ∈ text
  · obtain ⟨rest, init, hreverse, hrest⟩ :=
      List.eq_append_cons_of_mem (List.mem_reverse.mpr hsep)
    have htext : text = init.reverse ++ sep :: rest.reverse := by
      rw [← List.reverse_reverse text, hreverse]
      simp
    have hlast : sep ∉ rest.reverse := by simpa using hrest
    have hsplit : text.splitOn sep = init.reverse.splitOn sep ++ [rest.reverse] := by
      rw [htext, List.splitOn_append_cons_self, List.splitOn_eq_singleton hlast]
    simp only [hsplit, List.dropLast_concat, List.getLast_concat]
    rw [htext, List.append_assoc]
    exact List.splitOn_append_cons_self _ _
  · simp [List.splitOn_eq_singleton hsep]

theorem receive_ofText (text more : List β) :
    (ofText fmt text).receive fmt more = ofText fmt (text ++ more) := by
  have hsplit := splitOn_append text more fmt.separator
  have htail : (ofText fmt text).tail =
      (text.splitOn fmt.separator).getLast (List.splitOn_ne_nil _ _) := rfl
  have hclosed : (ofText fmt text).closed =
      (text.splitOn fmt.separator).dropLast.foldl fmt.readInto [] := rfl
  simp only [receive, htail, hclosed]
  have hne := List.splitOn_ne_nil fmt.separator
    ((text.splitOn fmt.separator).getLast (List.splitOn_ne_nil _ _) ++ more)
  apply LastWrites.ext
  · change _ = ((text ++ more).splitOn fmt.separator).dropLast.foldl fmt.readInto []
    rw [hsplit, List.dropLast_append_of_ne_nil hne, List.foldl_append]
  · change _ = ((text ++ more).splitOn fmt.separator).getLast _
    simp only [hsplit]
    rw [List.getLast_append_of_ne_nil _ hne]

theorem live_ofText (text : List β) :
    (ofText fmt text).live fmt = (text.splitOn fmt.separator).foldl fmt.readInto [] := by
  have hne := List.splitOn_ne_nil fmt.separator text
  conv_rhs => rw [← List.dropLast_append_getLast hne, List.foldl_append]
  rfl

variable [DecidableEq τ]

/-- The map of a text is what its parse says. -/
theorem live_parsed (hlaw : fmt.Lawful) {text : List β} {p : Parsed α ι τ}
    (hp : fmt.parse text = .ok p) : (ofText fmt text).live fmt = p.live := by
  rw [live_ofText, Format.live_parse hlaw hp]

theorem ofText_untorn (hlaw : fmt.Lawful) {text : List β} {p : Parsed α ι τ}
    (hp : fmt.parse text = .ok p) (htorn : p.torn = false) : ofText fmt text = ⟨p.live, []⟩ := by
  obtain ⟨full, s, -, rfl, -, hsplit⟩ := Format.parse_lines hlaw hp
  have htext : fmt.torn text = false := htorn
  rw [htext] at hsplit
  have htail : (ofText fmt text).tail = [] := by
    change (text.splitOn fmt.separator).getLast _ = []
    simp [hsplit]
  have hlive := live_parsed hlaw hp
  apply LastWrites.ext
  · rw [live, htail, Format.readInto, hlaw.read_nil] at hlive
    exact hlive
  · exact htail

/-- Appended rows are recorded. -/
theorem ofText_appended (hlaw : fmt.Lawful) {text : List β} {p : Parsed α ι τ}
    (hp : fmt.parse text = .ok p) {rows : List α} (hrows : ∀ a ∈ rows, fmt.Rereads a) :
    ofText fmt (text ++ fmt.terminator p ++ fmt.lines rows) =
      (ofText fmt text).record fmt rows := by
  rw [ofText_untorn hlaw (Format.parse_appended hlaw hp hrows) rfl, record, live_parsed hlaw hp,
    Format.live_extend (Format.parse_indexed hlaw hp)]

/-- A log that is written anew with rows of different names holds these. -/
theorem ofText_rewritten (hlaw : fmt.Lawful) {rows : List α}
    (hrows : ∀ a ∈ rows, fmt.Rereads a) (hdistinct : fmt.Distinct rows) :
    ofText fmt (fmt.lines rows) = ⟨rows, []⟩ := by
  rw [ofText_untorn hlaw (Format.parse_rewritten hlaw hrows) rfl,
    Format.live_extend Format.indexed_empty]
  exact congrArg (fun closed => LastWrites.mk closed []) (Format.lastWrites_distinct hdistinct)

end LastWrites

end Library.RowLog

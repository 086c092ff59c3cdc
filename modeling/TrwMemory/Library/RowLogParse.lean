import TrwMemory.Library.RowLog

/-!
The parse of a log after an append is the extended parse of the log before it, and the live
rows of a log are the last writes of its lines.
-/
namespace Library.RowLog.Format

open Library.Keyed

universe u

variable {β α ι τ ε : Type u} [DecidableEq ι] [DecidableEq τ] [DecidableEq β]
    (fmt : Format β α ι τ ε)

section Scan

omit [DecidableEq τ] [DecidableEq β]

/-- Nothing is blank, and a row that was read can be written on a line of its own. -/
structure Lawful : Prop where
  read_nil : fmt.read [] = .ok .blank
  rewrite : ∀ line a, fmt.read line = .ok (.row a) →
    fmt.read (fmt.write a) = .ok (.row a) ∧ fmt.separator ∉ fmt.write a

/-- The row can be written and read back. -/
def Rereads (a : α) : Prop := fmt.read (fmt.write a) = .ok (.row a)

/-- A line is a write where it reads as a row. -/
def readInto (m : List α) (line : List β) : List α :=
  match fmt.read line with
  | .ok (.row a) => fmt.lastWrite m a
  | _ => m

variable {fmt}

theorem scan_append (n : Nat) (s : Scan α ι) (xs ys : List (List β)) :
    fmt.scan n s (xs ++ ys) =
      (fmt.scan n s xs).bind fun t => fmt.scan (n + xs.length) t ys := by
  induction xs generalizing n s with
  | nil => rfl
  | cons line xs ih =>
      rw [List.cons_append, scan, scan]
      cases fmt.scanLine n s line with
      | error raised => rfl
      | ok t =>
          change fmt.scan (n + 1) t (xs ++ ys) = (fmt.scan (n + 1) t xs).bind _
          rw [ih, List.length_cons, Nat.add_right_comm]
          rfl

/-- What every line of a scan keeps. -/
theorem scan_induct {P : Nat → Scan α ι → Prop} {lines : List (List β)}
    (hline : ∀ n s t, ∀ line ∈ lines, P n s → fmt.scanLine n s line = .ok t → P (n + 1) t)
    {n : Nat} {s t : Scan α ι} (hs : P n s) (h : fmt.scan n s lines = .ok t) :
    P (n + lines.length) t := by
  induction lines generalizing n s with
  | nil =>
      cases h
      exact hs
  | cons line lines ih =>
      rw [scan] at h
      cases hfirst : fmt.scanLine n s line with
      | error raised =>
          rw [hfirst] at h
          cases h
      | ok mid =>
          rw [hfirst] at h
          have hrest := ih (fun n s t l hl => hline n s t l (List.mem_cons_of_mem line hl))
            (hline n s mid line List.mem_cons_self hs hfirst) h
          rwa [Nat.add_assoc, Nat.add_comm 1] at hrest

theorem scanLine_cases {n : Nat} {s t : Scan α ι} {line : List β}
    (h : fmt.scanLine n s line = .ok t) :
    (fmt.read line = .ok .blank ∧ t = s) ∨
      (fmt.read line = .ok .ignored ∧ t = { s with nonBlank := s.nonBlank + 1 }) ∨
      ∃ a, fmt.read line = .ok (.row a) ∧
        t = ⟨s.index.put (fmt.key n a) (n, a), s.nonBlank + 1⟩ := by
  rw [scanLine] at h
  cases hread : fmt.read line with
  | error raised =>
      rw [hread] at h
      cases h
  | ok reading =>
      rw [hread] at h
      cases reading with
      | blank =>
          cases h
          exact .inl ⟨rfl, rfl⟩
      | ignored =>
          cases h
          exact .inr (.inl ⟨rfl, rfl⟩)
      | row a =>
          cases h
          exact .inr (.inr ⟨a, rfl, rfl⟩)

/-- The rows of a scan are indexed, and no more than its lines. -/
structure Scanned (n : Nat) (s : Scan α ι) : Prop where
  indexed : fmt.Indexed s.index n
  counted : s.index.rows.length ≤ s.nonBlank

theorem Scanned.put {n : Nat} {s : Scan α ι} (hs : fmt.Scanned n s) (a : α) :
    fmt.Scanned (n + 1) ⟨s.index.put (fmt.key n a) (n, a), s.nonBlank + 1⟩ := by
  refine ⟨hs.indexed.put a, ?_⟩
  have hlength := s.index.length_put (fmt.key n a) (n, a)
  have hcounted := hs.counted
  dsimp only
  omega

theorem scan_scanned {n : Nat} {s t : Scan α ι} {lines : List (List β)}
    (hs : fmt.Scanned n s) (h : fmt.scan n s lines = .ok t) :
    fmt.Scanned (n + lines.length) t := by
  refine scan_induct (P := fmt.Scanned) ?_ hs h
  intro n s t line _ hs hline
  rcases scanLine_cases hline with ⟨-, rfl⟩ | ⟨-, rfl⟩ | ⟨a, -, rfl⟩
  · exact ⟨hs.indexed.mono (Nat.le_succ n), hs.counted⟩
  · exact ⟨hs.indexed.mono (Nat.le_succ n), Nat.le_succ_of_le hs.counted⟩
  · exact hs.put a

/-- Every row of a scan was read off a line. -/
theorem scan_read {n : Nat} {t : Scan α ι} {lines : List (List β)}
    (h : fmt.scan n ⟨Table.empty, 0⟩ lines = .ok t) :
    ∀ row ∈ t.index.rows, ∃ line ∈ lines, fmt.read line = .ok (.row row.2.2) := by
  refine scan_induct (P := fun _ s => ∀ row ∈ s.index.rows, ∃ line ∈ lines,
    fmt.read line = .ok (.row row.2.2)) ?_ (fun row hrow => (by cases hrow)) h
  intro n s t line hmem hs hline
  rcases scanLine_cases hline with ⟨-, rfl⟩ | ⟨-, rfl⟩ | ⟨a, hread, rfl⟩
  · exact hs
  · exact hs
  · intro row hrow
    change row ∈ s.index.rows.filter _ ++ [(fmt.key n a, n, a)] at hrow
    rw [List.mem_append, List.mem_singleton] at hrow
    rcases hrow with hold | rfl
    · exact hs row (List.mem_of_mem_filter hold)
    · exact ⟨line, hmem, hread⟩

/-- The live rows of a scan are the last writes of what its lines read as. -/
theorem scan_live {n : Nat} {s t : Scan α ι} {lines : List (List β)}
    (hs : fmt.Indexed s.index n) (h : fmt.scan n s lines = .ok t) :
    t.index.rows.map (fun row => row.2.2) =
      lines.foldl fmt.readInto (s.index.rows.map fun row => row.2.2) := by
  induction lines generalizing n s with
  | nil =>
      cases h
      rfl
  | cons line lines ih =>
      rw [scan] at h
      cases hfirst : fmt.scanLine n s line with
      | error raised =>
          rw [hfirst] at h
          cases h
      | ok mid =>
          rw [hfirst] at h
          rw [List.foldl_cons, readInto]
          rcases scanLine_cases hfirst with ⟨hread, rfl⟩ | ⟨hread, rfl⟩ | ⟨a, hread, rfl⟩
          · rw [hread]
            exact ih (hs.mono (Nat.le_succ n)) h
          · rw [hread]
            exact ih (s := { s with nonBlank := s.nonBlank + 1 }) (hs.mono (Nat.le_succ n)) h
          · rw [hread]
            dsimp only
            rw [← hs.live_put a]
            exact ih (hs.put a) h

/-- The scan of written rows. -/
def written (fmt : Format β α ι τ ε) : Nat → Scan α ι → List α → Scan α ι
  | _, s, [] => s
  | n, s, a :: rows =>
      written fmt (n + 1) ⟨s.index.put (fmt.key n a) (n, a), s.nonBlank + 1⟩ rows

/-- A written row is scanned as itself. -/
theorem scan_written {rows : List α} (hrows : ∀ a ∈ rows, fmt.Rereads a) (n : Nat)
    (s : Scan α ι) : fmt.scan n s (rows.map fmt.write) = .ok (fmt.written n s rows) := by
  induction rows generalizing n s with
  | nil => rfl
  | cons a rows ih =>
      rw [List.forall_mem_cons] at hrows
      rw [List.map_cons, scan, scanLine, hrows.1]
      exact ih hrows.2 (n + 1) _

theorem scan_isOk {lines : List (List β)}
    (h : ∀ line ∈ lines, ∃ reading, fmt.read line = .ok reading)
    (n : Nat) (s : Scan α ι) : ∃ t, fmt.scan n s lines = .ok t := by
  induction lines generalizing n s with
  | nil => exact ⟨s, rfl⟩
  | cons line lines ih =>
      rw [List.forall_mem_cons] at h
      obtain ⟨reading, hread⟩ := h.1
      obtain ⟨t, ht⟩ : ∃ t, fmt.scanLine n s line = .ok t := by
        rw [scanLine, hread]
        exact ⟨_, rfl⟩
      rw [scan, ht]
      exact ih h.2 (n + 1) t

end Scan

section Segments

omit [DecidableEq ι] [DecidableEq τ]

variable {fmt}

theorem torn_eq_false {text : List β} :
    fmt.torn text = false ↔ text = [] ∨ ∃ init, text = init ++ [fmt.separator] := by
  rcases List.eq_nil_or_concat' text with rfl | ⟨init, last, rfl⟩
  · exact iff_of_true rfl (.inl rfl)
  · rw [torn, List.getLast?_concat]
    have hne : init ++ [last] ≠ [] := by simp
    simp [hne]

/-- A text that is not torn is its lines, and nothing after them. -/
theorem splitOn_untorn {text : List β} (h : fmt.torn text = false) :
    ∃ full, text.splitOn fmt.separator = full ++ [[]] ∧
      ∀ more, (text ++ more).splitOn fmt.separator = full ++ more.splitOn fmt.separator := by
  rcases torn_eq_false.mp h with rfl | ⟨init, rfl⟩
  · exact ⟨[], List.splitOn_nil _, fun more => rfl⟩
  · refine ⟨init.splitOn fmt.separator, ?_, fun more => ?_⟩
    · rw [List.splitOn_append_cons_self, List.splitOn_nil]
    · rw [List.append_assoc]
      exact List.splitOn_append_cons_self _ _

theorem splitOn_terminated (fmt : Format β α ι τ ε) (text : List β) :
    ∃ full, (text ++ if fmt.torn text then [fmt.separator] else []).splitOn fmt.separator =
        full ++ [[]] ∧
      text.splitOn fmt.separator = full ++ (if fmt.torn text then [] else [[]]) := by
  cases htorn : fmt.torn text with
  | true => exact ⟨_, List.splitOn_append_cons_self text [], (List.append_nil _).symm⟩
  | false =>
      obtain ⟨full, hsplit, -⟩ := splitOn_untorn htorn
      exact ⟨full, by simpa using hsplit, hsplit⟩

theorem splitOn_lines {rows : List α} (h : ∀ a ∈ rows, fmt.separator ∉ fmt.write a) :
    (fmt.lines rows).splitOn fmt.separator = rows.map fmt.write ++ [[]] := by
  induction rows with
  | nil => exact List.splitOn_nil _
  | cons a rows ih =>
      rw [List.forall_mem_cons] at h
      rw [lines, List.flatMap_cons, List.append_assoc]
      refine (List.splitOn_append_cons_self _ _).trans ?_
      rw [List.splitOn_eq_singleton h.1]
      exact congrArg _ (ih h.2)

theorem torn_lines {text : List β} (rows : List α) (h : fmt.torn text = false) :
    fmt.torn (text ++ fmt.lines rows) = false := by
  rcases List.eq_nil_or_concat' rows with rfl | ⟨init, last, rfl⟩
  · rwa [lines, List.flatMap_nil, List.append_nil]
  · rw [torn_eq_false]
    refine .inr ⟨text ++ fmt.lines init ++ fmt.write last, ?_⟩
    simp [lines]

theorem torn_terminated (text : List β) :
    fmt.torn (text ++ if fmt.torn text then [fmt.separator] else []) = false := by
  cases htorn : fmt.torn text with
  | true => exact torn_eq_false.mpr (.inr ⟨text, rfl⟩)
  | false => simpa using htorn

end Segments

section Appends

variable {fmt}

omit [DecidableEq β] in
/-- A row that is appended is scanned. -/
theorem extendRow_ofScan {n : Nat} {s : Scan α ι} (hs : fmt.Scanned n s) (torn : Bool) (a : α) :
    fmt.extendRow (fmt.ofScan n torn s) a =
      fmt.ofScan (n + 1) torn ⟨s.index.put (fmt.key n a) (n, a), s.nonBlank + 1⟩ := by
  have hlength := s.index.length_put (fmt.key n a) (n, a)
  have hcounted := hs.counted
  have hdead : (if (s.index.find (fmt.key n a)).isSome then
        s.nonBlank - s.index.rows.length + 1 else s.nonBlank - s.index.rows.length) =
      s.nonBlank + 1 - (s.index.put (fmt.key n a) (n, a)).rows.length := by
    split at hlength <;> rename_i hfind
    · rw [if_pos hfind]
      omega
    · rw [if_neg hfind]
      omega
  have htags : ∀ t, fmt.tagCount s.index t -
        (if ((s.index.find (fmt.key n a)).bind fun old => fmt.tag old.2) = some t then 1 else 0) +
        (if fmt.tag a = some t then 1 else 0) =
      fmt.tagCount (s.index.put (fmt.key n a) (n, a)) t := by
    intro t
    have hcount := s.index.countP_put (fmt.key n a) (n, a) fun row => fmt.tag row.2.2 == some t
    rw [tagCount, tagCount]
    cases hfind : s.index.find (fmt.key n a) with
    | none =>
        simp only [hfind, Option.map_none, Option.toList_none, List.countP_nil,
          List.countP_singleton, beq_iff_eq] at hcount
        simp only [Option.bind_none, reduceCtorEq, if_false]
        by_cases hnew : fmt.tag a = some t <;> simp only [hnew, if_true, if_false] at hcount ⊢ <;>
          omega
    | some old =>
        simp only [hfind, Option.map_some, Option.toList_some, List.countP_singleton,
          beq_iff_eq] at hcount
        simp only [Option.bind_some]
        by_cases hnew : fmt.tag a = some t <;> by_cases hold : fmt.tag old.2 = some t <;>
          simp only [hnew, hold, if_true, if_false] at hcount ⊢ <;> omega
  rw [extendRow, ofScan, ofScan]
  simp only [Parsed.mk.injEq, true_and]
  exact ⟨hdead, funext htags⟩

omit [DecidableEq β] in
theorem foldl_extendRow {n : Nat} {s : Scan α ι} (hs : fmt.Scanned n s) (torn : Bool)
    (rows : List α) :
    rows.foldl fmt.extendRow (fmt.ofScan n torn s) =
      fmt.ofScan (n + rows.length) torn (fmt.written n s rows) := by
  induction rows generalizing n s with
  | nil => rfl
  | cons a rows ih =>
      rw [List.foldl_cons, extendRow_ofScan hs, ih (hs.put a), List.length_cons, written,
        Nat.add_right_comm]
      rfl

omit [DecidableEq τ] [DecidableEq β] in
theorem scanned_empty : fmt.Scanned 1 ⟨Table.empty, 0⟩ := ⟨indexed_empty, Nat.le_refl 0⟩

/-- The lines of a log, and what their scan gives. -/
theorem parse_lines (hlaw : fmt.Lawful) {text : List β} {p : Parsed α ι τ}
    (hp : fmt.parse text = .ok p) :
    ∃ full s, fmt.scan 1 ⟨Table.empty, 0⟩ full = .ok s ∧
      p = fmt.ofScan (full.length + 1) (fmt.torn text) s ∧
      (text ++ fmt.terminator p).splitOn fmt.separator = full ++ [[]] ∧
      text.splitOn fmt.separator = full ++ (if fmt.torn text then [] else [[]]) := by
  obtain ⟨full, hterminated, hsplit⟩ := splitOn_terminated fmt text
  have hscanned : fmt.scan 1 ⟨Table.empty, 0⟩ (text.splitOn fmt.separator) =
      fmt.scan 1 ⟨Table.empty, 0⟩ full := by
    rw [hsplit, scan_append]
    cases fmt.scan 1 ⟨Table.empty, 0⟩ full with
    | error raised => rfl
    | ok s =>
        split
        · rfl
        · -- the empty end of a text is blank
          change fmt.scan _ s [[]] = .ok s
          rw [scan, scanLine, hlaw.read_nil]
          rfl
  have hnext : (if fmt.torn text then (text.splitOn fmt.separator).length + 1
      else (text.splitOn fmt.separator).length) = full.length + 1 := by
    rw [hsplit]
    split <;> simp
  rw [parse, hscanned, hnext] at hp
  cases hscan : fmt.scan 1 ⟨Table.empty, 0⟩ full with
  | error raised =>
      rw [hscan] at hp
      cases hp
  | ok s =>
      rw [hscan] at hp
      cases hp
      exact ⟨full, s, hscan, rfl, hterminated, hsplit⟩

/-- The parse of a text that is not torn, from its lines. -/
theorem parse_untorn (hlaw : fmt.Lawful) {text : List β} {full : List (List β)} {s : Scan α ι}
    (htorn : fmt.torn text = false) (hsplit : text.splitOn fmt.separator = full ++ [[]])
    (hscan : fmt.scan 1 ⟨Table.empty, 0⟩ full = .ok s) :
    fmt.parse text = .ok (fmt.ofScan (full.length + 1) false s) := by
  have hblank : fmt.scan (1 + full.length) s [[]] = .ok s := by
    rw [scan, scanLine, hlaw.read_nil]
    rfl
  rw [parse, hsplit, scan_append, hscan, htorn, List.length_append]
  change (fmt.scan (1 + full.length) s [[]]).map _ = _
  rw [hblank]
  rfl

/-- The parse after an append is the extended parse. -/
theorem parse_appended (hlaw : fmt.Lawful) {text : List β} {p : Parsed α ι τ}
    (hp : fmt.parse text = .ok p) {rows : List α} (hrows : ∀ a ∈ rows, fmt.Rereads a) :
    fmt.parse (text ++ fmt.terminator p ++ fmt.lines rows) = .ok (fmt.extend p rows) := by
  obtain ⟨full, s, hscan, rfl, hterminated, -⟩ := parse_lines hlaw hp
  have hterminator : fmt.terminator (fmt.ofScan (full.length + 1) (fmt.torn text) s) =
      if fmt.torn text then [fmt.separator] else [] := rfl
  have htorn : fmt.torn (text ++ fmt.terminator
      (fmt.ofScan (full.length + 1) (fmt.torn text) s)) = false := by
    rw [hterminator]
    exact torn_terminated text
  have hsplit : (text ++ fmt.terminator (fmt.ofScan (full.length + 1) (fmt.torn text) s) ++
      fmt.lines rows).splitOn fmt.separator = (full ++ rows.map fmt.write) ++ [[]] := by
    obtain ⟨full', hfull', hmore⟩ := splitOn_untorn htorn
    obtain rfl : full' = full := List.append_cancel_right (hfull'.symm.trans hterminated)
    rw [hmore, splitOn_lines fun a ha => (hlaw.rewrite _ a (hrows a ha)).2, List.append_assoc]
  have hscan' : fmt.scan 1 ⟨Table.empty, 0⟩ (full ++ rows.map fmt.write) =
      .ok (fmt.written (1 + full.length) s rows) := by
    rw [scan_append, hscan]
    exact scan_written hrows _ s
  have hs : fmt.Scanned (full.length + 1) s := by
    rw [Nat.add_comm]
    exact scan_scanned scanned_empty hscan
  rw [parse_untorn hlaw (torn_lines rows htorn) hsplit hscan', extend,
    foldl_extendRow hs, Nat.add_comm 1, List.length_append, List.length_map,
    Nat.add_right_comm]
  rfl

theorem parse_isOk {text : List β}
    (h : ∀ line ∈ text.splitOn fmt.separator, ∃ reading, fmt.read line = .ok reading) :
    ∃ p : Parsed α ι τ, fmt.parse text = .ok p := by
  obtain ⟨s, hs⟩ := scan_isOk h 1 ⟨Table.empty, 0⟩
  rw [parse, hs]
  exact ⟨_, rfl⟩

/-- The parse of a log that is written anew. -/
theorem parse_rewritten (hlaw : fmt.Lawful) {rows : List α} (hrows : ∀ a ∈ rows, fmt.Rereads a) :
    fmt.parse (fmt.lines rows) = .ok (fmt.extend Parsed.empty rows) := by
  have hsplit : ([] : List β).splitOn fmt.separator = [] ++ [[]] := List.splitOn_nil _
  have hempty : fmt.parse [] = .ok Parsed.empty := parse_untorn hlaw rfl hsplit rfl
  exact parse_appended hlaw hempty hrows

end Appends

end Library.RowLog.Format

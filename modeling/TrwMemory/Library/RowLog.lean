import TrwMemory.Library.Table

/-!
Logs of rows, one a line: a later row supersedes an earlier one of the same name. The parse of
a log is an index of its live rows that can be carried on when rows are appended.

A line is blank, a row, or counted and otherwise ignored; reading it may also raise. Nothing
is assumed of the texts of rows beyond `Lawful`.
-/
namespace Library.RowLog

open Library.Keyed

universe u

inductive Reading (α : Type u) where
  | blank
  | ignored
  | row (a : α)

/-- How the lines of a log are read and written, and what a row names. -/
structure Format (β α ι τ ε : Type u) where
  separator : β
  read : List β → Except ε (Reading α)
  write : α → List β
  name : α → Option ι
  tag : α → Option τ

/-- A row without a name goes by its line. -/
inductive Key (ι : Type u) where
  | named (i : ι)
  | line (n : Nat)
  deriving DecidableEq

/-- The live rows of a log with their lines, and what an append needs to know. `dead` are the
lines that are neither blank nor live rows. -/
structure Parsed (α ι τ : Type u) where
  index : Table (Key ι) (Nat × α)
  nextLine : Nat
  torn : Bool
  dead : Nat
  tags : τ → Int

variable {β α ι τ ε : Type u}

namespace Parsed

def empty : Parsed α ι τ := ⟨Table.empty, 1, false, 0, fun _ => 0⟩

/-- The live rows with their lines. -/
def rows (p : Parsed α ι τ) : List (Nat × α) := p.index.rows.map Prod.snd

def live (p : Parsed α ι τ) : List α := p.rows.map Prod.snd

def size (p : Parsed α ι τ) : Nat := p.index.rows.length

end Parsed

namespace Format

variable [DecidableEq ι] [DecidableEq τ] (fmt : Format β α ι τ ε)

def key (n : Nat) (a : α) : Key ι := (fmt.name a).elim (.line n) .named

/-- The rows of an index that have a tag. -/
def tagCount (index : Table (Key ι) (Nat × α)) (t : τ) : Int :=
  index.rows.countP fun row => fmt.tag row.2.2 == some t

structure Scan (α ι : Type u) where
  index : Table (Key ι) (Nat × α)
  nonBlank : Nat

def scanLine (n : Nat) (s : Scan α ι) (line : List β) : Except ε (Scan α ι) :=
  (fmt.read line).map fun
    | .blank => s
    | .ignored => { s with nonBlank := s.nonBlank + 1 }
    | .row a => ⟨s.index.put (fmt.key n a) (n, a), s.nonBlank + 1⟩

def scan : Nat → Scan α ι → List (List β) → Except ε (Scan α ι)
  | _, s, [] => .ok s
  | n, s, line :: lines => (fmt.scanLine n s line).bind fun s => scan (n + 1) s lines

variable [DecidableEq β]

/-- The text does not end where a line does. -/
def torn (text : List β) : Bool := text != [] && text.getLast? != some fmt.separator

def ofScan (nextLine : Nat) (torn : Bool) (s : Scan α ι) : Parsed α ι τ where
  index := s.index
  nextLine := nextLine
  torn := torn
  dead := s.nonBlank - s.index.rows.length
  tags := fmt.tagCount s.index

def parse (text : List β) : Except ε (Parsed α ι τ) :=
  let segments := text.splitOn fmt.separator
  let nextLine := if fmt.torn text then segments.length + 1 else segments.length
  (fmt.scan 1 ⟨Table.empty, 0⟩ segments).map (fmt.ofScan nextLine (fmt.torn text))

def extendRow (p : Parsed α ι τ) (a : α) : Parsed α ι τ :=
  let superseded := p.index.find (fmt.key p.nextLine a)
  { p with
    index := p.index.put (fmt.key p.nextLine a) (p.nextLine, a)
    nextLine := p.nextLine + 1
    dead := if superseded.isSome then p.dead + 1 else p.dead
    tags := fun t =>
      p.tags t - (if (superseded.bind fun old => fmt.tag old.2) = some t then 1 else 0)
      + if fmt.tag a = some t then 1 else 0 }

/-- The parse after the rows are appended. -/
def extend (p : Parsed α ι τ) (added : List α) : Parsed α ι τ :=
  { added.foldl fmt.extendRow p with torn := false }

/-- What ends a torn last line. -/
def terminator (p : Parsed α ι τ) : List β := if p.torn then [fmt.separator] else []

/-- The lines of rows. -/
def lines (added : List α) : List β := added.flatMap fun a => fmt.write a ++ [fmt.separator]

/-- A row takes the place of the one of its name, at the end. -/
def lastWrite (m : List α) (a : α) : List α :=
  m.filter (fun b => (fmt.name b).isNone || fmt.name b != fmt.name a) ++ [a]

def lastWrites (m : List α) (added : List α) : List α := added.foldl fmt.lastWrite m

section Index

omit [DecidableEq τ] [DecidableEq β]

/-- Rows under their keys, from lines before `n`. -/
structure Indexed (index : Table (Key ι) (Nat × α)) (n : Nat) : Prop where
  keyed : ∀ row ∈ index.rows, row.1 = fmt.key row.2.1 row.2.2
  below : ∀ row ∈ index.rows, row.2.1 < n

variable {fmt} {index : Table (Key ι) (Nat × α)} {n : Nat}

omit [DecidableEq ι] in
theorem indexed_empty : fmt.Indexed Table.empty n := ⟨nofun, nofun⟩

omit [DecidableEq ι] in
theorem Indexed.mono (h : fmt.Indexed index n) {m : Nat} (hle : n ≤ m) : fmt.Indexed index m :=
  ⟨h.keyed, fun row hrow => Nat.lt_of_lt_of_le (h.below row hrow) hle⟩

theorem Indexed.put (h : fmt.Indexed index n) (a : α) :
    fmt.Indexed (index.put (fmt.key n a) (n, a)) (n + 1) := by
  have hrows : ∀ row ∈ (index.put (fmt.key n a) (n, a)).rows,
      row ∈ index.rows ∨ row = (fmt.key n a, (n, a)) := by
    intro row hrow
    rw [Table.put, List.mem_append, List.mem_singleton] at hrow
    exact hrow.imp_left List.mem_of_mem_filter
  constructor
  · intro row hrow
    rcases hrows row hrow with hold | rfl
    · exact h.keyed row hold
    · rfl
  · intro row hrow
    rcases hrows row hrow with hold | rfl
    · exact Nat.lt_succ_of_lt (h.below row hold)
    · exact Nat.lt_succ_self n

omit [DecidableEq ι] in
/-- A row of the index goes by the key of a new row exactly where it has the name of that. -/
theorem Indexed.key_eq (h : fmt.Indexed index n) {row : Key ι × Nat × α} (hrow : row ∈ index.rows)
    (a : α) : row.1 = fmt.key n a ↔ fmt.name row.2.2 = fmt.name a ∧ (fmt.name a).isSome := by
  rw [h.keyed row hrow, key, key]
  have hline : row.2.1 ≠ n := Nat.ne_of_lt (h.below row hrow)
  cases hb : fmt.name row.2.2 <;> cases ha : fmt.name a <;> simp [hline]

/-- An appended row is the last write of its name. -/
theorem Indexed.live_put (h : fmt.Indexed index n) (a : α) :
    (index.put (fmt.key n a) (n, a)).rows.map (fun row => row.2.2) =
      fmt.lastWrite (index.rows.map fun row => row.2.2) a := by
  change (index.rows.filter _ ++ [(fmt.key n a, n, a)]).map _ = _
  rw [List.map_append, lastWrite, List.filter_map]
  congr 2
  apply List.filter_congr
  intro row hrow
  have hkey := h.key_eq hrow a
  rw [Bool.eq_iff_iff]
  cases hb : fmt.name row.2.2 <;> cases ha : fmt.name a <;> simp_all [Function.comp_apply]

/-- A row found under a name is live. -/
theorem Indexed.find_named (h : fmt.Indexed index n) (i : ι) :
    (index.find (.named i)).isSome = true ↔
      ∃ a ∈ index.rows.map (fun row => row.2.2), fmt.name a = some i := by
  rw [← Table.mem_keys, Table.keys, List.mem_map]
  constructor
  · rintro ⟨row, hrow, hkey⟩
    refine ⟨row.2.2, List.mem_map_of_mem hrow, ?_⟩
    rw [h.keyed row hrow, key] at hkey
    cases hname : fmt.name row.2.2 with
    | none => simp [hname] at hkey
    | some j => simpa [hname] using hkey
  · rintro ⟨a, ha, hname⟩
    obtain ⟨row, hrow, rfl⟩ := List.mem_map.mp ha
    refine ⟨row, hrow, ?_⟩
    rw [h.keyed row hrow, key, hname]
    rfl

end Index

end Format

end Library.RowLog

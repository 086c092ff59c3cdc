import TrwMemory.Library.Regex

/-!
Glob patterns. `fnmatch` compares one name with one component of a pattern, as Python's
`fnmatch.translate` reads it (POSIX names: no case folding). A pattern of several components
fits a path along which each component fits one name; `**` stands for any number of
directories, and alone at the end for all that lies below.
-/
namespace Library.Glob

open Library

/-- The characters between the brackets; a hyphen between two characters makes a range. -/
def inSet : List Char → Char → Bool
  | low :: '-' :: high :: rest, c => (decide (low ≤ c) && decide (c ≤ high)) || inSet rest c
  | a :: rest, c => a == c || inSet rest c
  | [], _ => false

/-- The text in brackets and what follows them; a bracket that comes first does not close. -/
def closing (pattern : List Char) : Option (List Char × List Char) :=
  let lead := match pattern with
    | '!' :: ']' :: _ => 2
    | '!' :: _ => 1
    | ']' :: _ => 1
    | _ => 0
  match (pattern.drop lead).dropWhile (· != ']') with
  | [] => none
  | _ :: rest => some (pattern.take lead ++ (pattern.drop lead).takeWhile (· != ']'), rest)

def bracket : List Char → Char → Bool
  | '!' :: stuff => fun c => !inSet stuff c
  | stuff => inSet stuff

/-- `fnmatch.translate`. The fuel is the length of the pattern. -/
def translate : Nat → List Char → Regex Char
  | 0, _ | _, [] => .empty
  | fuel + 1, '*' :: rest => .seq (.rep (.one fun _ => true) 0 none) (translate fuel rest)
  | fuel + 1, '?' :: rest => .seq (.one fun _ => true) (translate fuel rest)
  | fuel + 1, '[' :: rest =>
      match closing rest with
      | none => .seq (.one (· == '[')) (translate fuel rest)
      | some (stuff, behind) => .seq (.one (bracket stuff)) (translate fuel behind)
  | fuel + 1, c :: rest => .seq (.one (· == c)) (translate fuel rest)

def fnmatch (name pattern : String) : Bool :=
  ((translate pattern.toList.length pattern.toList).ends (Cursor.atStart name.toList)).any
    fun c => c.after.isEmpty

/-- A run of `**` is one `**`. -/
def collapse : List String → List String
  | "**" :: "**" :: parts => collapse ("**" :: parts)
  | part :: parts => part :: collapse parts
  | [] => []

/-- The pattern names the path with one of its components, and `rest` of it is left over:
nothing at its end, something on the way. -/
inductive Fits : List String → List String → List String → Prop where
  | head {part name : String} {rest : List String} (hpart : part ≠ "**")
      (hname : fnmatch name part = true) : Fits (part :: rest) [name] rest
  | step {part name : String} {parts path rest : List String} (hpart : part ≠ "**")
      (hname : fnmatch name part = true) (hpath : Fits parts path rest) :
      Fits (part :: parts) (name :: path) rest
  | deeper {name : String} {parts path rest : List String}
      (hpath : Fits ("**" :: parts) path rest) : Fits ("**" :: parts) (name :: path) rest
  | here {parts path rest : List String} (hpath : Fits parts path rest) :
      Fits ("**" :: parts) path rest
  | all {path rest : List String} (hpath : Fits ["*"] path rest) : Fits ["**"] path rest

/-- No component follows that repeats a `**`. -/
def Collapsed (parts : List String) : Prop :=
  parts.IsChain fun part next => ¬ (part = "**" ∧ next = "**")

theorem not_fits_nil {path rest : List String} : ¬ Fits [] path rest := by
  intro h
  cases h

theorem fits_path_ne_nil {parts path rest : List String} (h : Fits parts path rest) :
    path ≠ [] := by
  induction h with
  | head => exact List.cons_ne_nil _ _
  | step => exact List.cons_ne_nil _ _
  | deeper => exact List.cons_ne_nil _ _
  | here _ ih => exact ih
  | all _ ih => exact ih

theorem collapse_deep (parts : List String) :
    collapse ("**" :: "**" :: parts) = collapse ("**" :: parts) := by
  rw [collapse]

theorem collapse_cons {part : String} {parts : List String}
    (h : ¬ (part = "**" ∧ parts.head? = some "**")) :
    collapse (part :: parts) = part :: collapse parts := by
  rw [collapse]
  rintro rest rfl rfl
  exact h ⟨rfl, rfl⟩

theorem collapse_plain {part : String} (h : part ≠ "**") (parts : List String) :
    collapse (part :: parts) = part :: collapse parts := collapse_cons fun hboth => h hboth.1

theorem collapse_head (part : String) (parts : List String) :
    ∃ rest, collapse (part :: parts) = part :: rest := by
  induction parts generalizing part with
  | nil => exact ⟨[], collapse_cons (by simp)⟩
  | cons next parts ih =>
      by_cases h : part = "**" ∧ next = "**"
      · obtain ⟨rfl, rfl⟩ := h
        rw [collapse_deep]
        exact ih "**"
      · exact ⟨_, collapse_cons (by simpa using h)⟩

theorem collapse_collapsed (parts : List String) : Collapsed (collapse parts) := by
  induction parts with
  | nil => exact .nil
  | cons part parts ih =>
      by_cases h : part = "**" ∧ parts.head? = some "**"
      · obtain ⟨rfl, hhead⟩ := h
        obtain ⟨rest, rfl⟩ := List.head?_eq_some_iff.mp hhead
        rw [collapse_deep]
        exact ih
      · rw [collapse_cons h]
        cases parts with
        | nil => exact .singleton _
        | cons next parts =>
            obtain ⟨rest, hrest⟩ := collapse_head next parts
            rw [hrest] at ih ⊢
            exact .cons_cons (by simpa using h) ih

/-- A path that the pattern names is named by the pattern without repeated `**`. -/
theorem fits_collapse {parts path rest : List String} (h : Fits parts path rest) :
    Fits (collapse parts) path (collapse rest) := by
  induction h with
  | head hpart hname =>
      rw [collapse_plain hpart]
      exact .head hpart hname
  | step hpart hname _ ih =>
      rw [collapse_plain hpart]
      exact .step hpart hname ih
  | @deeper _ parts _ _ _ ih =>
      obtain ⟨tail, htail⟩ := collapse_head "**" parts
      rw [htail] at ih ⊢
      exact .deeper ih
  | @here parts _ _ _ ih =>
      by_cases hhead : parts.head? = some "**"
      · obtain ⟨tail, rfl⟩ := List.head?_eq_some_iff.mp hhead
        rwa [collapse_deep]
      · rw [collapse_cons fun hboth => hhead hboth.2]
        exact .here ih
  | all _ ih => exact .all ih

end Library.Glob

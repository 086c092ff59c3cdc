import Mathlib.Data.List.Basic
import Mathlib.Data.List.Induction
import Mathlib.Logic.Function.Basic

/-!
Lists of values joined to one text by a separator, and split again. The split drops
empty parts, so what comes back is what was joined exactly when no value is empty and
none contains the separator.

The latest record of each key, for records that are filed under several keys. A log is
read in order and a later record replaces an earlier one under every key it names.
-/
namespace Library.Lines

universe u

variable {α : Type u} [DecidableEq α]

/-- The parts of a text between separators, without the empty ones. -/
def parts (separator : α) (text : List α) : List (List α) :=
  (text.splitOn separator).filter fun part => part ≠ []

theorem not_mem_of_mem_splitOn {separator : α} {text part : List α}
    (h : part ∈ text.splitOn separator) : separator ∉ part := by
  induction text generalizing part with
  | nil =>
      rw [List.splitOn_nil, List.mem_singleton] at h
      exact h ▸ List.not_mem_nil
  | cons a text ih =>
      rw [List.splitOn_cons_eq_if_modifyHead] at h
      split at h
      · rcases List.mem_cons.mp h with rfl | h
        · exact List.not_mem_nil
        · exact ih h
      · rename_i hne
        cases hsplit : text.splitOn separator with
        | nil => exact absurd hsplit (List.splitOn_ne_nil separator text)
        | cons first rest =>
            rw [hsplit] at h ih
            rcases List.mem_cons.mp h with rfl | h
            · rw [List.mem_cons, not_or]
              exact ⟨fun heq => hne (by simp [heq]), ih List.mem_cons_self⟩
            · exact ih (List.mem_cons_of_mem first h)

theorem parts_intercalate {separator : α} {values : List (List α)}
    (h : ∀ v ∈ values, separator ∉ v) :
    parts separator ([separator].intercalate values) = values.filter fun v => v ≠ [] := by
  by_cases hnil : values = []
  · subst hnil
    rfl
  · rw [parts, List.splitOn_intercalate separator h hnil]

/-- Joining and splitting gives the values back exactly when none of them contains the
separator. -/
theorem parts_intercalate_iff (separator : α) {values : List (List α)}
    (hne : ∀ v ∈ values, v ≠ []) :
    parts separator ([separator].intercalate values) = values ↔ ∀ v ∈ values, separator ∉ v := by
  constructor
  · intro h v hv
    rw [← h] at hv
    exact not_mem_of_mem_splitOn (List.mem_filter.mp hv).1
  · intro h
    rw [parts_intercalate h, List.filter_eq_self]
    intro v hv
    simpa using hne v hv

end Library.Lines

namespace Library.LatestIndex

universe u v

variable {κ : Type u} {ρ : Type v} [DecidableEq κ]

/-- Files one record. -/
def enter (keys : ρ → List κ) (index : κ → Option ρ) (record : ρ) : κ → Option ρ :=
  (keys record).foldl (fun index key => Function.update index key (some record)) index

def build (keys : ρ → List κ) (log : List ρ) : κ → Option ρ :=
  log.foldl (enter keys) fun _ => none

theorem foldl_update (record : ρ) (index : κ → Option ρ) (names : List κ) (key : κ) :
    names.foldl (fun index key => Function.update index key (some record)) index key =
      if key ∈ names then some record else index key := by
  induction names generalizing index with
  | nil => simp
  | cons name names ih =>
      rw [List.foldl_cons, ih, Function.update_apply]
      by_cases hkey : key = name <;> simp [hkey]

theorem build_concat (keys : ρ → List κ) (log : List ρ) (record : ρ) (key : κ) :
    build keys (log ++ [record]) key =
      if key ∈ keys record then some record else build keys log key := by
  rw [build, List.foldl_append, List.foldl_cons, List.foldl_nil, enter, foldl_update]
  rfl

/-- What holds of a record under its key holds of the latest one there, when it holds of
every later record of that key. -/
theorem build_any {keys : ρ → List κ} {P : ρ → Bool} {record : ρ} {key : κ}
    (before after : List ρ) (hkey : key ∈ keys record) (hrecord : P record = true)
    (hafter : ∀ later ∈ after, key ∈ keys later → P later = true) :
    (build keys (before ++ record :: after) key).any P = true := by
  induction after using List.reverseRecOn with
  | nil => rw [build_concat, if_pos hkey, Option.any_some, hrecord]
  | append_singleton after later ih =>
      rw [← List.cons_append, ← List.append_assoc, build_concat]
      split
      · rename_i hlater
        exact hafter later (by simp) hlater
      · apply ih
        intro other hother
        exact hafter other (List.mem_append_left _ hother)

end Library.LatestIndex

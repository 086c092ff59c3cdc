import TrwMemory.Library.RedactedText
import Mathlib.Data.List.Sort
import Mathlib.Data.List.Lex
import Mathlib.Data.Prod.Lex
import Mathlib.Data.Char

/-!
Masking across invisible characters (`security/_scan_normalize.py`): the mask runs on the text
and on the text without its invisible characters, and what either run replaced is masked. The
Unicode category of a character is a parameter. The variant for detectors
(`spans_with_invisible_splits`) is not modelled.
-/
namespace TrwMemory.Security.ScanNormalize

open Library Library.Redaction

abbrev Range := Span Char

/-- The kinds of `<kind>` in `_PLACEHOLDER_RE`. -/
def placeholderKinds : List String :=
  ["email", "api_key", "phone", "ssn", "credit_card", "ip", "project"]

/-- `[a-z_]`. -/
def isSlugChar (c : Char) : Bool := c.isLower || c == '_'

/-- `<REDACTED:[a-z_]+>`. -/
def isRedacted (h : List Char) : Bool :=
  let body := (h.drop 10).dropLast
  h == "<REDACTED:".toList ++ body ++ ['>'] && !body.isEmpty && body.all isSlugChar

/-- `<(?:email|api_key|phone|ssn|credit_card|ip|project)>`. -/
def isKind (h : List Char) : Bool :=
  placeholderKinds.any fun kind => h == '<' :: kind.toList ++ ['>']

/-- A full match of `_PLACEHOLDER_RE`. -/
def isPlaceholder (h : List Char) : Bool := isRedacted h || isKind h || h == "$HOME".toList

theorem isSlugChar_not_bracket {c : Char} (h : isSlugChar c = true) :
    c ≠ '<' ∧ c ≠ '>' ∧ c ≠ '$' := by
  refine ⟨?_, ?_, ?_⟩ <;> · rintro rfl; exact absurd h (by decide)

theorem isPlaceholder_shape {h : List Char} (hm : isPlaceholder h = true) :
    h = "$HOME".toList ∨ ∃ body, h = '<' :: body ++ ['>'] ∧
      ∀ c ∈ body, c ≠ '<' ∧ c ≠ '>' ∧ c ≠ '$' := by
  rw [isPlaceholder, Bool.or_eq_true, Bool.or_eq_true] at hm
  rcases hm with (hredacted | hkind) | hhome
  · right
    rw [isRedacted, Bool.and_eq_true, Bool.and_eq_true, beq_iff_eq, List.all_eq_true] at hredacted
    obtain ⟨⟨hshape, -⟩, hbody⟩ := hredacted
    refine ⟨"REDACTED:".toList ++ (h.drop 10).dropLast, hshape, ?_⟩
    intro c hc
    rcases List.mem_append.mp hc with hlabel | hslug
    · exact (by simp : ∀ c ∈ "REDACTED:".toList, c ≠ '<' ∧ c ≠ '>' ∧ c ≠ '$') c hlabel
    · exact isSlugChar_not_bracket (hbody c hslug)
  · right
    rw [isKind, List.any_eq_true] at hkind
    obtain ⟨kind, hkind, hshape⟩ := hkind
    refine ⟨kind.toList, beq_iff_eq.mp hshape, ?_⟩
    exact (by simp [placeholderKinds] : ∀ kind ∈ placeholderKinds, ∀ c ∈ kind.toList,
      c ≠ '<' ∧ c ≠ '>' ∧ c ≠ '$') kind hkind
  · exact .inl (beq_iff_eq.mp hhome)

/-- The placeholders of the maskers (`_PLACEHOLDER_RE`). -/
def placeholder : Markers Char where
  isMarker := isPlaceholder
  opens := fun c => c == '<' || c == '$'
  shape := by
    intro h hm
    rcases isPlaceholder_shape hm with rfl | ⟨body, rfl, hbody⟩
    · exact ⟨'$', "HOME".toList, by decide +kernel, by decide +kernel, by simp⟩
    · refine ⟨'<', body ++ ['>'], rfl, by decide, ?_⟩
      intro c hc
      rcases List.mem_append.mp hc with hin | hlast
      · simp [(hbody c hin).1, (hbody c hin).2.2]
      · rw [List.mem_singleton.mp hlast]
        decide
  whole := by
    intro h rest hm hlong
    rcases isPlaceholder_shape hm with rfl | ⟨body, rfl, hbody⟩
    · rcases isPlaceholder_shape hlong with hhome | ⟨body, hshape, -⟩
      · simpa using hhome
      · have hhead : some '$' = some '<' := congrArg List.head? hshape
        exact absurd hhead (by decide)
    · rcases isPlaceholder_shape hlong with hhome | ⟨body', hshape, hinner⟩
      · have hhead : some '<' = some '$' := congrArg List.head? hhome
        exact absurd hhead (by decide)
      · -- the bracket that closes the one closes the other
        by_contra hrest
        have htail : body ++ '>' :: rest = body' ++ ['>'] := by simpa using hshape
        have hlast := congrArg List.dropLast htail
        rw [List.dropLast_concat, List.dropLast_append_cons, List.dropLast_cons_of_ne_nil hrest]
          at hlast
        exact (hinner '>' (by simp [← hlast])).2.1 rfl

/-- `_EXTRA_INVISIBLE`. -/
def extraInvisible : List Char :=
  ['\u034f', '\u115f', '\u1160', '\u17b4', '\u17b5', '\u180b', '\u180c', '\u180d', '\u180f',
    '\u3164', '\uffa0'] ++ (List.range 16).map fun i => Char.ofNat (0xFE00 + i)

section Views

-- `unicodedata.category`
variable (category : Char → String)

/-- `_is_format`. -/
def isFormat (ch : Char) : Bool := extraInvisible.contains ch || category ch == "Cf"

/-- `_without_invisible_splits`: the kept characters and their places. -/
def withoutInvisibleSplits (text : List Char) : List Char × List Nat :=
  let kept := text.zipIdx.filter fun (ch, _) => !isFormat category ch
  (kept.map Prod.fst, kept.map Prod.snd)

end Views

/-- A candidate alignment that gives the masked text back. -/
def rebuilds (source masked : List Char) (candidate : List Range) : Bool :=
  !(candidate.any fun r => decide (r.stop < r.start)) && rebuild source candidate == masked

/-- `_masked_ranges`: the ranges of the source that were replaced, each from the first place it
can begin to the last one where it can end. -/
def maskedRanges (source masked : List Char) : List Range :=
  let pieces := placeholder.pieces 0 masked
  let parts := pieces.2.map Prod.snd
  let holders := pieces.2.map Prod.fst
  match holders with
  | [] => []
  | holder :: _ =>
      let full : List Range := [⟨0, source.length, holder⟩]
      if !pieces.1.isPrefixOf source || !(parts.getLastD []).isSuffixOf source then full
      else
        match Redaction.earliest source pieces.1.length parts, Redaction.latest source parts with
        | some early, some late =>
            let earliest := spans pieces.1.length parts early holders
            let latest := spans pieces.1.length parts late holders
            if late.headD source.length < pieces.1.length then full
            else if !rebuilds source masked earliest || !rebuilds source masked latest then full
            else (hull earliest latest).filter fun r => decide (r.start < r.stop)
        | _, _ => full

/-- The order of the triples `(start, end, placeholder)`. -/
def rangeKey (r : Range) : ℕ ×ₗ ℕ ×ₗ List Char := toLex (r.start, toLex (r.stop, r.holder))

/-- The loop of `_merge` behind its first range: `last` is the range under work. -/
def mergeFrom (last : Range) : List Range → List Range
  | [] => [last]
  | r :: rest =>
      if r.start ≤ last.stop then
        mergeFrom { last with stop := max last.stop r.stop } rest
      else last :: mergeFrom r rest

/-- `_merge`. -/
def mergeRanges (ranges : List Range) : List Range :=
  match ranges.insertionSort fun a b => rangeKey a ≤ rangeKey b with
  | [] => []
  | first :: rest => mergeFrom first rest

section Mask

-- `unicodedata.category`, and the masking function
variable (category : Char → String) (mask : List Char → List Char)

/-- A range of the joined text as one of the text; `none` where an index is out of range. -/
def originalRange (kept : List Nat) (r : Range) : Option Range := do
  let start ← kept[r.start]?
  let last ← kept[r.stop - 1]?
  return ⟨start, last + 1, r.holder⟩

/-- `_union_ranges`. -/
def unionRanges (text : List Char) : Option (List Range) := do
  let (joined, kept) := withoutInvisibleSplits category text
  let found ← (maskedRanges joined (mask joined)).mapM (originalRange kept)
  return mergeRanges (maskedRanges text (mask text) ++ found)

/-- `mask_with_invisible_splits`. -/
def maskWithInvisibleSplits (text : List Char) : Option (List Char) :=
  if text.isEmpty || !text.any (isFormat category) then some (mask text)
  else (unionRanges category mask text).map (rebuild text)

end Mask

end TrwMemory.Security.ScanNormalize

import TrwMemory.Library.Splice
import TrwMemory.Security.PiiDetectors

/-!
Redaction of detected matches (`security/pii.py`): `redact_text` cuts every match, from the
right, at the offsets of the text; the detector pass of `strip_pii_as_written` leaves out a
match that reaches past the start of the last one cut. Both run on any characters, so on
positions too, and that shows what of the text is left.

The three credential substitutions of `strip_pii_as_written` are one parameter.
-/
namespace TrwMemory.Security

open Library Library.Redaction

/-- `sorted(matches, key=lambda m: m.start, reverse=True)`. -/
def fromRight (found : List PIIMatch) : List PIIMatch :=
  found.insertionSort fun a b => b.start ≤ a.start

def redactionMarker (m : PIIMatch) : List Char :=
  "[REDACTED:".toList ++ m.piiType.value.toList ++ "]".toList

/-- `_EGRESS_MARKERS`. -/
def egressMarker : PIIType → Option String
  | .phone => some "<phone>"
  | .ssn => some "<ssn>"
  | .creditCard => some "<credit_card>"
  | .ipAddress => some "<ip>"
  | _ => none

section Characters

variable {β : Type} (mark : Char → β)

/-- `redact_text`, with its markers written in any characters. -/
def redactText (text : List β) (found : List PIIMatch) : List β :=
  if found.isEmpty then text
  else (fromRight found).foldl (fun result m =>
    result.take m.start ++ (redactionMarker m).map mark ++ result.drop m.stop) text

/-- The loop of `strip_pii_as_written` over the sorted matches. -/
def maskApart : Nat → List β → List PIIMatch → List β
  | _, text, [] => text
  | appliedStart, text, m :: rest =>
      if m.stop > appliedStart then maskApart appliedStart text rest
      else
        let marker := ((egressMarker m.piiType).getD "").toList.map mark
        maskApart m.start (text.take m.start ++ marker ++ text.drop m.stop) rest

/-- The detector pass of `strip_pii_as_written`. -/
def maskDetected (text : List β) (found : List PIIMatch) : List β :=
  maskApart mark text.length text (fromRight found)

end Characters

/-- The matches that the detector pass masks. -/
def egressMatches (d : Detection) (text : List Char) : List PIIMatch :=
  (detectPii d text).filter fun m => (egressMarker m.piiType).isSome

/-- The text that the detector pass is given; the credential substitutions are a parameter. -/
def credentialsMasked (maskCredentials : List Char → List Char) (text : List Char) : List Char :=
  maskCredentials (maskEmails text)

def stripPiiAsWritten (maskCredentials : List Char → List Char) (d : Detection)
    (text : List Char) : List Char :=
  let masked := credentialsMasked maskCredentials text
  maskDetected id masked (egressMatches d masked)

/-- The position lies in a match. -/
def Matched (found : List PIIMatch) (p : Nat) : Prop := ∃ m ∈ found, m.start ≤ p ∧ p < m.stop

instance (found : List PIIMatch) (p : Nat) : Decidable (Matched found p) :=
  inferInstanceAs (Decidable (∃ m ∈ found, m.start ≤ p ∧ p < m.stop))

/-- The origins are those of the redacted text, and the positions among them are the ones
outside all matches, in order. -/
def KeepsUnmatched (found : List PIIMatch) (text redacted : List Char)
    (left : List (Nat ⊕ Char)) : Prop :=
  left.map (readOrigin text) = redacted.map some ∧
    survivors left = (List.range text.length).filter fun p => ¬ Matched found p

instance (found : List PIIMatch) (text redacted : List Char) (left : List (Nat ⊕ Char)) :
    Decidable (KeepsUnmatched found text redacted left) :=
  inferInstanceAs (Decidable (left.map (readOrigin text) = redacted.map some ∧
    survivors left = (List.range text.length).filter fun p => ¬ Matched found p))

/-- What `redact_text` keeps of a text with these matches is what lies outside them. -/
def RedactsExactly (text : List Char) (found : List PIIMatch) : Prop :=
  KeepsUnmatched found text (redactText id text found)
    (redactText .inr (positions text.length) found)

instance (text : List Char) (found : List PIIMatch) : Decidable (RedactsExactly text found) :=
  inferInstanceAs (Decidable (KeepsUnmatched ..))

/-- What `strip_pii_as_written` keeps of the text that its detectors are given is what lies
outside their matches. -/
def StripsExactly (maskCredentials : List Char → List Char) (d : Detection) (text : List Char) :
    Prop :=
  let masked := credentialsMasked maskCredentials text
  let found := egressMatches d masked
  KeepsUnmatched found masked (stripPiiAsWritten maskCredentials d text)
    (maskDetected .inr (positions masked.length) found)

instance (maskCredentials : List Char → List Char) (d : Detection) (text : List Char) :
    Decidable (StripsExactly maskCredentials d text) :=
  inferInstanceAs (Decidable (KeepsUnmatched ..))

/-- The stretches that `redact_text` replaces, in its order. -/
def redactionSpans (found : List PIIMatch) : List (Span Char) :=
  (fromRight found).map fun m => ⟨m.start, m.stop, redactionMarker m⟩

/-- The stretches that the detector pass considers, in its order. -/
def egressSpans (found : List PIIMatch) : List (Span Char) :=
  (fromRight found).map fun m => ⟨m.start, m.stop, ((egressMarker m.piiType).getD "").toList⟩

theorem mem_fromRight {found : List PIIMatch} {m : PIIMatch} : m ∈ fromRight found ↔ m ∈ found :=
  List.mem_insertionSort _

section Spans

variable {marker : PIIMatch → List Char} {found : List PIIMatch}

theorem covers_spans (p : Nat) :
    Covers ((fromRight found).map fun m => ⟨m.start, m.stop, marker m⟩) p ↔ Matched found p := by
  constructor
  · rintro ⟨s, hs, hin⟩
    obtain ⟨m, hm, rfl⟩ := List.mem_map.mp hs
    exact ⟨m, mem_fromRight.mp hm, hin⟩
  · rintro ⟨m, hm, hin⟩
    exact ⟨_, List.mem_map.mpr ⟨m, mem_fromRight.mpr hm, rfl⟩, hin⟩

theorem fromRight_sorted :
    FromRight ((fromRight found).map fun m => (⟨m.start, m.stop, marker m⟩ : Span Char)) := by
  have htotal : Std.Total fun a b : PIIMatch => b.start ≤ a.start :=
    ⟨fun a b => Nat.le_total b.start a.start⟩
  have htrans : IsTrans PIIMatch fun a b => b.start ≤ a.start :=
    ⟨fun _ _ _ hab hbc => Nat.le_trans hbc hab⟩
  exact List.pairwise_map.mpr (List.pairwise_insertionSort _ found)

theorem spans_wellPlaced {text : List Char} (hfound : ∀ m ∈ found, m.FoundIn text) :
    ∀ s ∈ (fromRight found).map fun m => (⟨m.start, m.stop, marker m⟩ : Span Char),
      WellPlaced text.length s := by
  intro s hs
  obtain ⟨m, hm, rfl⟩ := List.mem_map.mp hs
  exact hfound m (mem_fromRight.mp hm)

end Spans

theorem covers_redactionSpans {found : List PIIMatch} (p : Nat) :
    Covers (redactionSpans found) p ↔ Matched found p := covers_spans p

theorem covers_egressSpans {found : List PIIMatch} (p : Nat) :
    Covers (egressSpans found) p ↔ Matched found p := covers_spans p

theorem redactText_eq {β : Type} (mark : Char → β) (text : List β) (found : List PIIMatch) :
    redactText mark text found = spliceAll ((redactionSpans found).map (Span.map mark)) text := by
  rw [redactText, redactionSpans, spliceAll, List.map_map, List.foldl_map]
  split
  · rename_i hempty
    rw [List.isEmpty_iff.mp hempty]
    rfl
  · rfl

theorem maskApart_eq {β : Type} (mark : Char → β) (bound : Nat) (text : List β)
    (found : List PIIMatch) :
    maskApart mark bound text found = spliceAll ((apart bound (found.map fun m =>
      ⟨m.start, m.stop, ((egressMarker m.piiType).getD "").toList⟩)).map (Span.map mark)) text := by
  induction found generalizing bound text with
  | nil => rfl
  | cons m found ih =>
      rw [maskApart, List.map_cons, apart]
      split
      · exact ih bound text
      · exact ih m.start _

theorem maskDetected_eq {β : Type} (mark : Char → β) (text : List β) (found : List PIIMatch) :
    maskDetected mark text found =
      spliceAll ((apart text.length (egressSpans found)).map (Span.map mark)) text :=
  maskApart_eq mark text.length text (fromRight found)

theorem span_map_id (ranges : List (Span Char)) : ranges.map (Span.map id) = ranges := by
  have hid : (Span.map id : Span Char → Span Char) = id := by
    funext s
    simp [Span.map]
  rw [hid, List.map_id]

theorem length_positions (n : Nat) : (positions n : List (Nat ⊕ Char)).length = n := by
  rw [positions, List.length_map, List.length_range]

/-- Spans that cover what the matches do are cut out exactly if the unmatched text is kept. -/
theorem exact_iff {ranges : List (Span Char)} {found : List PIIMatch}
    (hcovers : ∀ p, Covers ranges p ↔ Matched found p) (length : Nat) (left : List (Nat ⊕ Char)) :
    Exact ranges length left ↔
      survivors left = (List.range length).filter fun p => ¬ Matched found p := by
  have hfilter : ((List.range length).filter fun p => ¬ Covers ranges p) =
      (List.range length).filter fun p => ¬ Matched found p :=
    List.filter_congr fun p _ => decide_eq_decide.mpr (not_congr (hcovers p))
  rw [Exact, hfilter]

theorem redactsExactly_iff (text : List Char) (found : List PIIMatch) :
    RedactsExactly text found ↔
      Exact (redactionSpans found) text.length (origins (redactionSpans found) text.length) := by
  rw [RedactsExactly, KeepsUnmatched, redactText_eq, redactText_eq, span_map_id,
    exact_iff covers_redactionSpans]
  exact and_iff_right (map_readOrigin _ text)

theorem keepsUnmatched_iff (text : List Char) (found : List PIIMatch) :
    KeepsUnmatched found text (maskDetected id text found)
        (maskDetected .inr (positions text.length) found) ↔
      Exact (egressSpans found) text.length
        (origins (apart text.length (egressSpans found)) text.length) := by
  rw [KeepsUnmatched, maskDetected_eq, maskDetected_eq, length_positions, span_map_id,
    exact_iff covers_egressSpans]
  exact and_iff_right (map_readOrigin _ text)

/-- Matches apart from each other are redacted exactly. -/
theorem redactsExactly_of_apart {text : List Char} {found : List PIIMatch}
    (hfound : ∀ m ∈ found, m.FoundIn text) (h : Apart (redactionSpans found)) :
    RedactsExactly text found :=
  (redactsExactly_iff text found).mpr (exact_of_apart h (spans_wellPlaced hfound))

/-- `redact_text` removes exactly the matches if the positions in a match are those that a
match reaches, behind the markers set before; `strip_pii_as_written` if the matches that end
before the last one taken cover all of them. -/
theorem redaction_exact_iff (d : Detection) (maskCredentials : List Char → List Char)
    (hspans : ∀ text, ∀ s ∈ d.credentialSpans text, s.1 ≤ s.2 ∧ s.2 ≤ text.length) :
    (∀ text found, (∀ m ∈ found, PIIMatch.FoundIn text m) →
      (RedactsExactly text found ↔
        ∀ p < text.length, (Matched found p ↔ Reached (redactionSpans found) p))) ∧
    ∀ text masked found, masked = credentialsMasked maskCredentials text →
      found = egressMatches d masked →
      (StripsExactly maskCredentials d text ↔
        ∀ p, Matched found p → Covers (apart masked.length (egressSpans found)) p) := by
  constructor
  · intro text found hfound
    have hexact : Exact (redactionSpans found) text.length _ ↔ _ :=
      exact_origins_iff fromRight_sorted (spans_wellPlaced hfound)
    rw [redactsExactly_iff, hexact]
    simp only [covers_redactionSpans]
  · rintro text masked found rfl rfl
    have hfound : ∀ m ∈ egressMatches d (credentialsMasked maskCredentials text),
        m.FoundIn (credentialsMasked maskCredentials text) := fun m hm =>
      detectPii_foundIn d (hspans _) m (List.mem_of_mem_filter hm)
    refine (keepsUnmatched_iff _ _).trans ((exact_apart_iff (spans_wellPlaced hfound)).trans ?_)
    exact forall_congr' fun p => imp_congr_left (covers_egressSpans p)

section Samples

/-- Detectors for ASCII texts without credentials. -/
def asciiDetection : Detection where
  isDigit := Char.isDigit
  isSpace := fun c => c == ' ' || c == '\t' || c == '\n' || c == '\r'
  isWord := fun c => c.isAlphanum || c == '_'
  credentialSpans := fun _ => []
  customPatterns := []
  highEntropy := fun _ => false

/-- A path with an address in it. -/
def nestedText : List Char := "/home/jo@ex.com/notes".toList

/-- A number of the form `ssn` that shares its end with one of the form `credit_card`. -/
def overlappingText : List Char := "123-45-6789-1234-5678-9012".toList

theorem redaction_exact_nested :
    ¬ ∀ p < nestedText.length, (Matched (detectPii asciiDetection nestedText) p ↔
      Reached (redactionSpans (detectPii asciiDetection nestedText)) p) := by
  have hexact := (redaction_exact_iff asciiDetection id (by simp [asciiDetection])).1 nestedText
    (detectPii asciiDetection nestedText) (by decide +kernel)
  have hleaks : ¬ RedactsExactly nestedText (detectPii asciiDetection nestedText) := by
    decide +kernel
  exact mt hexact.mpr hleaks

/-- The end of the path is left, and so is the beginning of the first number. -/
theorem overlapping_matches_leak :
    redactText id nestedText (detectPii asciiDetection nestedText) =
        "[REDACTED:file_path]]/notes".toList ∧
      ¬ RedactsExactly nestedText (detectPii asciiDetection nestedText) ∧
      stripPiiAsWritten id asciiDetection overlappingText = "123-45-<credit_card>".toList ∧
      ¬ StripsExactly id asciiDetection overlappingText := by
  decide +kernel

end Samples

end TrwMemory.Security

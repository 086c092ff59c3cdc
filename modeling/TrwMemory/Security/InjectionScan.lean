import TrwMemory.Library.RegexJoin
import TrwMemory.Models.Entry
import TrwMemory.Security.PiiDetectors

/-!
The injection scan of `security/poisoning.py`: every free text of an entry, one below the other,
searched for patterns. The patterns stay within lines, so the scan finds exactly what a scan of
each text alone would.

What counts as a letter, and which letters are one letter in two cases, is a parameter beyond
ASCII. Lazy repetitions are written as greedy ones: which match is found does not matter. The
shadow screen and the text of the refusal, which quotes the pattern, are left out.
-/
namespace TrwMemory.Security

open Library Pattern

/-- `\w`, and the letters that `IGNORECASE` takes for a letter of a pattern. -/
structure UnicodeLetters where
  isWord : Char → Bool
  folds : Char → Char → Bool
  isWord_ascii : ∀ c, c.toNat < 128 → isWord c = (c.isAlphanum || c == '_')
  folds_ascii : ∀ p c, p.toNat < 128 → c.toNat < 128 → folds p c = (p.toLower == c.toLower)

/-- Letters and cases of ASCII alone. -/
def asciiLetters : UnicodeLetters where
  isWord c := c.isAlphanum || c == '_'
  folds p c := p.toLower == c.toLower
  isWord_ascii _ _ := rfl
  folds_ascii _ _ _ _ := rfl

namespace Injection

variable (u : UnicodeLetters)

def literal (text : String) : Regex Char := all (text.toList.map fun p => .one (u.folds p))

/-- `(?:...|...)`. -/
def anyOf (rs : List (Regex Char)) : Regex Char := rs.foldr .alt (.one fun _ => false)

def star (r : Regex Char) : Regex Char := .rep r 0 none

/-- `\b`. -/
def boundary : Regex Char :=
  .look fun before after => (before.head?.any u.isWord) != (after.head?.any u.isWord)

/-- `^` of several lines. -/
def lineStart : Regex Char := .look fun before _ => before.head?.all (· == '\n')

/-- `(?=[...])`. -/
def before (chars : List Char) : Regex Char := .look fun _ after => after.head?.any chars.contains

/-- `[ \t]`. -/
def blank : Regex Char := oneOf [' ', '\t']

/-- `[ \t._-]*`. -/
def separators : Regex Char := star (oneOf [' ', '\t', '.', '_', '-'])

/-- `ignore[ \t._-]*(?:all[ \t._-]*)?previous[ \t._-]*instructions`. -/
def ignorePrevious : Regex Char :=
  all [literal u "ignore", separators, opt (all [literal u "all", separators]),
    literal u "previous", separators, literal u "instructions"]

def disclosureVerbs : List String :=
  ["reveal", "show", "print", "output", "repeat", "recite", "disclose", "leak", "dump", "expose",
    "ignore", "disregard", "override", "forget", "bypass", "replace", "tell", "give", "describe",
    "divulge", "reproduce", "echo", "regurgitate", "paraphrase", "translate", "exfiltrate"]

/-- `\b(?:...)\b[^.\n]{0,60}?\bsystem[ \t._-]*prompt`. -/
def systemPrompt : Regex Char :=
  all [boundary u, anyOf (disclosureVerbs.map (literal u)), boundary u,
    .rep (.one fun c => !(c == '.' || c == '\n')) 0 (some 60), boundary u, literal u "system",
    separators, literal u "prompt"]

/-- `<script\b`. -/
def script : Regex Char := all [literal u "<script", boundary u]

/-- `javascript[ \t]*:`. -/
def javascript : Regex Char := all [literal u "javascript", star blank, char ':']

def executionWords : List String :=
  ["run", "execute", "exec", "call", "invoke", "then", "first", "always", "now", "just", "please",
    "must", "should", "to"]

def modalWords : List String :=
  ["should", "must", "shall", "need", "needs", "you", "always", "please"]

/-- Where a command may start; `spaces` is what a sentence break has behind it. -/
def commandStarts (spaces : List Char) : List (Regex Char) :=
  [lineStart, oneOf [';', ':', '|', '&'], all [oneOf ['.', '!', '?'], before spaces],
    all [boundary u, anyOf (executionWords.map (literal u)), boundary u],
    all [boundary u, anyOf (modalWords.map (literal u)), boundary u,
      .rep (all [plus blank, plus (.one fun c => u.isWord c || c == '-')]) 0 (some 2)]]

/-- ``[ \t,"'`(]*(?:[\w$]+\.)*eval[ \t]*\(``. -/
def evalCall : Regex Char :=
  all [star (oneOf [' ', '\t', ',', '"', '\'', '`', '(']),
    star (all [plus (.one fun c => u.isWord c || c == '$'), char '.']), literal u "eval",
    star blank, char '(']

/-- The pattern of `eval`. -/
def evalCommand (spaces : List Char) : Regex Char :=
  .seq (anyOf (commandStarts u spaces)) (evalCall u)

/-- `rm[ \t]+-rf[ \t]+/`. -/
def rmRf : Regex Char := all [literal u "rm", plus blank, literal u "-rf", plus blank, char '/']

end Injection

inductive InjectionPattern where
  | ignorePrevious | systemPrompt | script | javascript | evalCommand | rmRf
  deriving DecidableEq, Repr

def InjectionPattern.regex (u : UnicodeLetters) : InjectionPattern → Regex Char
  | ignorePrevious => Injection.ignorePrevious u
  | systemPrompt => Injection.systemPrompt u
  | script => Injection.script u
  | javascript => Injection.javascript u
  | evalCommand => Injection.evalCommand u [' ', '\t', '\n']
  | rmRf => Injection.rmRf u

/-- `_ALWAYS_ENFORCED_PATTERNS`. -/
def ALWAYS_ENFORCED_PATTERNS : List InjectionPattern := [.ignorePrevious, .systemPrompt]

/-- `_CODE_EXEMPT_PATTERNS`. -/
def CODE_EXEMPT_PATTERNS : List InjectionPattern := [.script, .javascript, .evalCommand, .rmRf]

/-- `_INJECTION_PATTERNS`. -/
def INJECTION_PATTERNS : List InjectionPattern := ALWAYS_ENFORCED_PATTERNS ++ CODE_EXEMPT_PATTERNS

def SYSTEM_CODE_FLAG_KEY : String := "_sys_code_flagged"

/-- The texts of an entry that are scanned. -/
def scannedFields (entry : MemoryEntry) : List String :=
  [entry.content, entry.detail, entry.nudgeLine] ++ entry.tags ++ entry.evidence ++
    entry.assertions.map fun assertion => assertion.lastEvidence

def scannableText (entry : MemoryEntry) : List Char :=
  ['\n'].intercalate (((scannedFields entry).filter fun part => part ≠ "").map String.toList)

def InjectionPattern.search (u : UnicodeLetters) (pattern : InjectionPattern)
    (text : List Char) : Bool := (pattern.regex u).found text

/-- The patterns for which an entry is searched. -/
def patternsFor (entry : MemoryEntry) : List InjectionPattern :=
  if entry.metadata.lookup SYSTEM_CODE_FLAG_KEY = some "true" then ALWAYS_ENFORCED_PATTERNS
  else INJECTION_PATTERNS

/-- `reject_injection`: the pattern for which an entry is refused. -/
def rejectInjection (u : UnicodeLetters) (entry : MemoryEntry) : Except InjectionPattern Unit :=
  match (patternsFor entry).find? fun pattern => pattern.search u (scannableText entry) with
  | some pattern => .error pattern
  | none => .ok ()

namespace Injection

variable {u : UnicodeLetters}

theorem isWord_newline : u.isWord '\n' = false := u.isWord_ascii '\n' (by decide)

/-- What a literal may be made of. -/
def onLine (text : String) : Bool :=
  text.toList.all fun p => decide (p.toNat < 128) && p.toLower != '\n'

theorem within_all {rs : List (Regex Char)} (h : ∀ r ∈ rs, r.Within '\n') :
    (all rs).Within '\n' := by
  induction rs with
  | nil => trivial
  | cons r rs ih =>
      obtain ⟨hr, hrs⟩ := List.forall_mem_cons.mp h
      exact ⟨hr, ih hrs⟩

theorem within_anyOf {rs : List (Regex Char)} (h : ∀ r ∈ rs, r.Within '\n') :
    (anyOf rs).Within '\n' := by
  induction rs with
  | nil => rfl
  | cons r rs ih =>
      obtain ⟨hr, hrs⟩ := List.forall_mem_cons.mp h
      exact ⟨hr, ih hrs⟩

theorem folds_newline {p : Char} (h : p.toNat < 128 ∧ p.toLower ≠ '\n') :
    u.folds p '\n' = false := by
  rw [u.folds_ascii p '\n' h.1 (by decide)]
  exact beq_eq_false_iff_ne.mpr h.2

theorem within_literal {text : String} (h : onLine text = true) :
    (literal u text).Within '\n' := by
  refine within_all fun r hr => ?_
  obtain ⟨p, hp, rfl⟩ := List.mem_map.mp hr
  have hletter := List.all_eq_true.mp h p hp
  rw [Bool.and_eq_true, decide_eq_true_eq, bne_iff_ne] at hletter
  exact folds_newline hletter

theorem within_words {words : List String} (h : words.all onLine = true) :
    (anyOf (words.map (literal u))).Within '\n' := by
  refine within_anyOf fun r hr => ?_
  obtain ⟨text, htext, rfl⟩ := List.mem_map.mp hr
  exact within_literal (List.all_eq_true.mp h text htext)

/-- A condition on the nearest characters takes the end of a line for that of the text. -/
theorem head_any_edge {p : Char → Bool} (hp : p '\n' = false) {outer : List Char}
    (h : Edge '\n' outer) (inner : List Char) :
    (inner ++ outer).head?.any p = inner.head?.any p := by
  cases inner with
  | cons a inner => rfl
  | nil =>
      cases outer with
      | nil => rfl
      | cons a outer =>
          obtain rfl : a = '\n' := h a rfl
          exact hp

theorem within_boundary : (boundary u).Within '\n' := fun before after pre post hpre hpost => by
  dsimp only
  rw [head_any_edge isWord_newline hpre, head_any_edge isWord_newline hpost]

theorem within_lineStart : lineStart.Within '\n' := fun before _ pre _ hpre _ => by
  cases before with
  | cons a before => rfl
  | nil =>
      cases pre with
      | nil => rfl
      | cons a pre =>
          obtain rfl : a = '\n' := hpre a rfl
          rfl

theorem within_before {chars : List Char} (h : chars.contains '\n' = false) :
    (before chars).Within '\n' := fun _ after _ _ _ hpost => head_any_edge h hpost after

theorem within_evalCall : (evalCall u).Within '\n' := by
  have hname : (star (all [plus (.one fun c => u.isWord c || c == '$'), char '.'])).Within '\n' :=
    ⟨Bool.or_eq_false_iff.mpr ⟨isWord_newline, rfl⟩, rfl, trivial⟩
  exact ⟨rfl, hname, within_literal rfl, rfl, rfl, trivial⟩

theorem within_evalCommand : (evalCommand u [' ', '\t']).Within '\n' := by
  have hmore : Regex.Within '\n' (.rep (all [plus blank,
      plus (.one fun c => u.isWord c || c == '-')]) 0 (some 2)) :=
    ⟨rfl, Bool.or_eq_false_iff.mpr ⟨isWord_newline, rfl⟩, trivial⟩
  refine ⟨within_anyOf ?_, within_evalCall⟩
  simp only [commandStarts, List.forall_mem_cons]
  exact ⟨within_lineStart, rfl, ⟨rfl, within_before rfl, trivial⟩,
    ⟨within_boundary, within_words rfl, within_boundary, trivial⟩,
    ⟨within_boundary, within_words rfl, within_boundary, hmore, trivial⟩,
    fun _ h => nomatch h⟩

theorem ends_star_stuck {r : Regex Char} {c : Cursor Char} (h : r.ends c = []) :
    (star r).ends c = [c] := by
  change Regex.further (fun d => r.ends d) c.after.length c = [c]
  cases c.after.length with
  | zero => rfl
  | succ n => rw [Regex.further, h, List.filter_nil, List.flatMap_nil, List.nil_append]

/-- No call begins with a line feed. -/
theorem ends_evalCall_newline (before after : List Char) :
    (evalCall u).ends ⟨before, '\n' :: after⟩ = [] := by
  have hname : (all [plus (.one fun c => u.isWord c || c == '$'), char '.']).ends
      ⟨before, '\n' :: after⟩ = [] :=
    Regex.ends_run_neg _ (by simp [isWord_newline]) before after
  have heval : (literal u "eval").ends ⟨before, '\n' :: after⟩ = [] := by
    have hfirst : literal u "eval" = .seq (.one (u.folds 'e'))
        (all (['v', 'a', 'l'].map fun p => .one (u.folds p))) := rfl
    rw [hfirst, Regex.ends, Regex.ends_one_neg (by rw [folds_newline (by decide)]; simp),
      List.flatMap_nil]
  have hopen : (oneOf [' ', '\t', ',', '"', '\'', '`', '(']).ends ⟨before, '\n' :: after⟩ =
      [] := Regex.ends_one_neg (by decide) before after
  change ((star (oneOf [' ', '\t', ',', '"', '\'', '`', '('])).ends _).flatMap _ = []
  rw [ends_star_stuck hopen, List.flatMap_singleton]
  change ((star (all [plus (.one fun c => u.isWord c || c == '$'), char '.'])).ends _).flatMap _ =
    []
  rw [ends_star_stuck hname, List.flatMap_singleton]
  change ((literal u "eval").ends _).flatMap _ = []
  rw [heval, List.flatMap_nil]

theorem ends_anyOf (rs : List (Regex Char)) (c : Cursor Char) :
    (anyOf rs).ends c = rs.flatMap fun r => r.ends c := by
  induction rs with
  | nil =>
      change (Regex.one fun _ => false).ends c = []
      obtain ⟨before, after⟩ := c
      cases after with
      | nil => rfl
      | cons a after => exact Regex.ends_one_neg (by decide) before after
  | cons r rs ih =>
      change r.ends c ++ (anyOf rs).ends c = _
      rw [ih, List.flatMap_cons]

/-- A sentence break at the end of a line starts no command. -/
theorem ends_evalCommand (c : Cursor Char) :
    (evalCommand u [' ', '\t', '\n']).ends c = (evalCommand u [' ', '\t']).ends c := by
  have hbreak : ∀ d : Cursor Char, ((before [' ', '\t', '\n']).ends d).flatMap
      (fun e => (evalCall u).ends e) = ((before [' ', '\t']).ends d).flatMap
      fun e => (evalCall u).ends e := by
    intro d
    obtain ⟨front, after⟩ := d
    cases after with
    | nil => rfl
    | cons a after =>
        by_cases ha : a = '\n'
        · subst ha
          change [_].flatMap _ = []
          rw [List.flatMap_singleton, ends_evalCall_newline]
        · have hsame : [' ', '\t', '\n'].contains a = [' ', '\t'].contains a := by simp [ha]
          cases hblank : [' ', '\t'].contains a <;> simp only [before, Regex.ends, List.head?_cons,
            Option.any_some, hsame, hblank]
  have hthird : ∀ spaces : List Char, ((all [oneOf ['.', '!', '?'], before spaces]).ends c).flatMap
      (fun e => (evalCall u).ends e) = ((oneOf ['.', '!', '?']).ends c).flatMap fun d =>
        ((before spaces).ends d).flatMap fun e => (evalCall u).ends e := by
    intro spaces
    change (((oneOf ['.', '!', '?']).ends c).flatMap fun d =>
      ((before spaces).ends d).flatMap fun e => [e]).flatMap _ = _
    rw [List.flatMap_assoc]
    refine List.flatMap_congr fun d _ => ?_
    rw [List.flatMap_singleton']
  change ((anyOf _).ends c).flatMap _ = ((anyOf _).ends c).flatMap _
  rw [ends_anyOf, ends_anyOf, List.flatMap_assoc, List.flatMap_assoc]
  simp only [commandStarts, List.flatMap_cons, List.flatMap_nil, hthird, hbreak]

end Injection

variable {u : UnicodeLetters}

/-- Every pattern finds what some expression within lines finds. -/
theorem InjectionPattern.exists_within (u : UnicodeLetters) (pattern : InjectionPattern) :
    ∃ r : Regex Char, r.Within '\n' ∧ ∀ text, pattern.search u text = r.found text := by
  have hblank : (plus Injection.blank).Within '\n' := rfl
  cases pattern with
  | ignorePrevious =>
      refine ⟨Injection.ignorePrevious u, ?_, fun _ => rfl⟩
      exact ⟨Injection.within_literal rfl, rfl,
        ⟨Injection.within_literal rfl, rfl, trivial⟩,
        Injection.within_literal rfl, rfl,
        Injection.within_literal rfl, trivial⟩
  | systemPrompt =>
      refine ⟨Injection.systemPrompt u, ?_, fun _ => rfl⟩
      exact ⟨Injection.within_boundary, Injection.within_words rfl,
        Injection.within_boundary, rfl, Injection.within_boundary,
        Injection.within_literal rfl, rfl,
        Injection.within_literal rfl, trivial⟩
  | script =>
      exact ⟨Injection.script u, ⟨Injection.within_literal rfl,
        Injection.within_boundary, trivial⟩, fun _ => rfl⟩
  | javascript =>
      exact ⟨Injection.javascript u, ⟨Injection.within_literal rfl, rfl, rfl,
        trivial⟩, fun _ => rfl⟩
  | evalCommand =>
      exact ⟨Injection.evalCommand u [' ', '\t'], Injection.within_evalCommand,
        Regex.found_congr Injection.ends_evalCommand⟩
  | rmRf =>
      exact ⟨Injection.rmRf u, ⟨Injection.within_literal rfl, hblank,
        Injection.within_literal rfl, hblank, rfl, trivial⟩, fun _ => rfl⟩

theorem InjectionPattern.search_nil (pattern : InjectionPattern) :
    pattern.search u [] = false := by
  cases pattern <;> rfl

/-- A pattern matches the joined text exactly where it matches one of the texts on its own. -/
theorem search_scannableText (pattern : InjectionPattern) (entry : MemoryEntry) :
    pattern.search u (scannableText entry) =
      (scannedFields entry).any fun field => pattern.search u field.toList := by
  obtain ⟨r, hwithin, hsearch⟩ := pattern.exists_within u
  have hempty : r.found [] = false := (hsearch []).symm.trans pattern.search_nil
  have hjoin : ∀ parts : List (List Char),
      r.found (['\n'].intercalate parts) = parts.any r.found := by
    intro parts
    cases parts with
    | nil => exact hempty
    | cons part parts => exact Regex.found_intercalate hwithin (List.cons_ne_nil part parts)
  simp only [hsearch]
  rw [scannableText, hjoin, List.any_map, List.any_filter]
  refine congrArg (scannedFields entry).any (funext fun field => ?_)
  by_cases hfield : field = ""
  · subst hfield
    exact hempty.symm
  · rw [decide_eq_true hfield]
    rfl

/-- Every pattern is found by the scan exactly if one of the fields has it on its own, and an entry
is refused exactly if one of its fields has a pattern that it is searched for. -/
theorem scan_iff_fields (u : UnicodeLetters) (entry : MemoryEntry) :
    (∀ pattern : InjectionPattern, pattern.search u (scannableText entry) = true ↔
      ∃ field ∈ scannedFields entry, pattern.search u field.toList = true) ∧
    (rejectInjection u entry ≠ .ok () ↔ ∃ pattern ∈ patternsFor entry,
      ∃ field ∈ scannedFields entry, pattern.search u field.toList = true) := by
  have hscan : ∀ pattern : InjectionPattern, pattern.search u (scannableText entry) = true ↔
      ∃ field ∈ scannedFields entry, pattern.search u field.toList = true := fun pattern => by
    rw [search_scannableText, List.any_eq_true]
  refine ⟨hscan, ?_⟩
  simp only [← hscan]
  rw [rejectInjection]
  cases hfind : (patternsFor entry).find? fun pattern =>
      pattern.search u (scannableText entry) with
  | none => simpa using List.find?_eq_none.mp hfind
  | some pattern =>
      have hmem := List.mem_of_find?_eq_some hfind
      have hfound := @List.find?_some InjectionPattern
        (fun pattern => pattern.search u (scannableText entry)) _ _ hfind
      exact iff_of_true nofun ⟨pattern, hmem, hfound⟩

/-- A pattern with a line break in it, and one that is split over two fields. -/
def splitEntry : MemoryEntry :=
  { MemoryEntry.ofDefaults "a" "ignore\nprevious instructions" "default" ⟨0, some 0⟩ a_ne_empty with
    detail := "rm -rf\nIgnore"
    nudgeLine := "previous instructions" }

/-- The same with the pattern whole, behind a line break. -/
def wholeEntry : MemoryEntry :=
  { splitEntry with detail := "rm -rf\nIgnore previous instructions" }

theorem scan_split_and_whole :
    InjectionPattern.ignorePrevious.search asciiLetters (scannableText splitEntry) = false ∧
      rejectInjection asciiLetters splitEntry = .ok () ∧
      rejectInjection asciiLetters wholeEntry ≠ .ok () := by
  have hsplit := scan_iff_fields asciiLetters splitEntry
  refine ⟨?_, ?_, ?_⟩
  · rw [Bool.eq_false_iff, ne_eq, hsplit.1 .ignorePrevious]
    decide +kernel
  · by_contra hrefused
    have hfound := hsplit.2.mp hrefused
    revert hfound
    decide +kernel
  · rw [(scan_iff_fields asciiLetters wholeEntry).2]
    decide +kernel

end TrwMemory.Security

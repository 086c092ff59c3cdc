import TrwMemory.Library.Regex

/-!
The e-mail pattern of `security/pii.py` and the scanner that stands for it. The scanner tries
a match where the last one ended and otherwise searches for one that starts a run of
local-part characters; it finds what the pattern finds, since `@` is no local-part character
and a match inside a run could as well start at the character before it.

The detectors of `security/pii.py`: the patterns, the suppression of version numbers, and the
token pass. The tables behind `\d`, `\s` and `\w`, the credential spans, the compiled custom
patterns and the entropy test are parameters; what refuses a custom pattern, and the
confidence of a match, are not modelled.
-/
namespace TrwMemory.Security

open Library

/-- `[a-zA-Z0-9._%+-]`. -/
def isLocalChar (c : Char) : Bool :=
  c.isAlphanum || c == '.' || c == '_' || c == '%' || c == '+' || c == '-'

/-- `[a-zA-Z0-9.-]`. -/
def isDomainChar (c : Char) : Bool := c.isAlphanum || c == '.' || c == '-'

/-- What follows the local part: `@[a-zA-Z0-9.-]+\.[a-zA-Z]{2,}`. -/
def emailDomain : Regex Char :=
  (Regex.rep (.one isDomainChar) 1 none).seq
    ((Regex.one (· == '.')).seq (.rep (.one Char.isAlpha) 2 none))

def emailPattern : Regex Char :=
  (Regex.rep (.one isLocalChar) 1 none).seq ((Regex.one (· == '@')).seq emailDomain)

/-- The character before the place is no local-part character. -/
def atRunStart : List Char → Bool
  | [] => true
  | c :: _ => !isLocalChar c

def emailAtRunStart : Regex Char := (Regex.look fun before _ => atRunStart before).seq emailPattern

/-- One round of the scanner: the match at the place, or else the next one at a run start. -/
def nextEmail (c : Cursor Char) : Option (Hit Char) :=
  match emailPattern.hitAt false c with
  | some stop => some ⟨c, stop⟩
  | none => emailAtRunStart.search false c.before c.after

/-- The matches that the scanner yields. -/
def emailMatches (text : List Char) : List (Hit Char) :=
  Regex.hits (fun _ c => nextEmail c) (Regex.hitsFuel (.atStart text)) false (.atStart text)

def maskEmails (text : List Char) : List Char :=
  Regex.replaceHits "<email>".toList text 0 (emailMatches text)

theorem at_not_local {c : Char} (h : isLocalChar c = true) : (c == '@') = false := by
  rw [beq_eq_false_iff_ne]
  rintro rfl
  exact absurd h (by decide)

theorem email_ends_nil (before : List Char) : emailPattern.ends ⟨before, []⟩ = [] :=
  Regex.ends_run_nil _ before

theorem email_ends_neg {a : Char} (h : ¬ isLocalChar a = true) (before after : List Char) :
    emailPattern.ends ⟨before, a :: after⟩ = [] :=
  Regex.ends_run_neg _ h before after

theorem email_ends {a : Char} (h : isLocalChar a = true) (before after : List Char) :
    emailPattern.ends ⟨before, a :: after⟩ =
      ((Regex.one (· == '@')).seq emailDomain).ends
        (Cursor.skip isLocalChar ⟨a :: before, after⟩) :=
  Regex.ends_run (q := (· == '@')) (fun _ hlocal => at_not_local hlocal) emailDomain h before after

/-- A match inside a run of local-part characters has the ends of one that starts a character
earlier. -/
theorem email_ends_earlier {a : Char} (h : isLocalChar a = true) (before after : List Char)
    (hends : emailPattern.ends ⟨a :: before, after⟩ ≠ []) :
    emailPattern.ends ⟨before, a :: after⟩ = emailPattern.ends ⟨a :: before, after⟩ := by
  cases after with
  | nil => exact absurd (email_ends_nil _) hends
  | cons b after =>
      have hb : isLocalChar b = true := by
        by_contra hb
        exact hends (email_ends_neg hb _ _)
      rw [email_ends h, email_ends hb, Cursor.skip_of_pos hb]

theorem leads_skip (p : Char → Bool) (c : Cursor Char) : c.Leads (c.skip p) :=
  ⟨c.after.takeWhile p, (List.takeWhile_append_dropWhile ..).symm, rfl⟩

/-- A match of the pattern is not empty. -/
theorem email_advances (c : Cursor Char) :
    ∀ d ∈ emailPattern.ends c, d.after.length < c.after.length := by
  obtain ⟨before, after⟩ := c
  intro d hd
  cases after with
  | nil =>
      rw [email_ends_nil] at hd
      cases hd
  | cons a after =>
      by_cases ha : isLocalChar a = true
      · rw [email_ends ha] at hd
        have hskip := leads_skip isLocalChar ⟨a :: before, after⟩
        have hlead := hskip.trans (Regex.ends_leads _ _ d hd)
        exact Nat.lt_succ_of_le hlead.length_le
      · rw [email_ends_neg ha] at hd
        cases hd

theorem email_hitAt (advance : Bool) (c : Cursor Char) :
    emailPattern.hitAt advance c = (emailPattern.ends c).head? := by
  rw [Regex.hitAt]
  cases hends : emailPattern.ends c with
  | nil => rfl
  | cons d ds =>
      have hlt := email_advances c d (by rw [hends]; exact List.mem_cons_self)
      rw [List.find?_cons_of_pos (by simp [hlt])]
      rfl

/-- At a run start, and where no match of the pattern starts, the guard changes nothing. -/
theorem guarded_ends {before after : List Char}
    (h : atRunStart before = true ∨ emailPattern.ends ⟨before, after⟩ = []) :
    emailAtRunStart.ends ⟨before, after⟩ = emailPattern.ends ⟨before, after⟩ := by
  have hguard : emailAtRunStart.ends ⟨before, after⟩ =
      if atRunStart before then emailPattern.ends ⟨before, after⟩ else [] := by
    rw [emailAtRunStart, Regex.ends, Regex.ends]
    split <;> simp
  rw [hguard]
  rcases h with hstart | hnone
  · exact if_pos hstart
  · rw [hnone]
    exact ite_self _

/-- From such a place on the search for run starts finds what the search for the pattern does. -/
theorem search_guarded (before after : List Char)
    (h : atRunStart before = true ∨ emailPattern.ends ⟨before, after⟩ = []) :
    emailAtRunStart.search false before after = emailPattern.search false before after := by
  induction after generalizing before with
  | nil => rw [Regex.search, Regex.search, Regex.hitAt_false, Regex.hitAt_false, guarded_ends h]
  | cons a after ih =>
      rw [Regex.search, Regex.search, Regex.hitAt_false, Regex.hitAt_false, guarded_ends h]
      cases hhead : (emailPattern.ends ⟨before, a :: after⟩).head? with
      | some stop => rfl
      | none =>
          have hnone := List.head?_eq_none_iff.mp hhead
          have hnext : atRunStart (a :: before) = true ∨
              emailPattern.ends ⟨a :: before, after⟩ = [] := by
            cases ha : isLocalChar a with
            | false => exact .inl (by rw [atRunStart, ha]; rfl)
            | true =>
                right
                by_contra hsome
                rw [← email_ends_earlier ha before after hsome] at hsome
                exact hsome hnone
          exact ih (a :: before) hnext

/-- One round of the scanner finds the next match of the pattern. -/
theorem nextEmail_eq (advance : Bool) (c : Cursor Char) :
    nextEmail c = emailPattern.search advance c.before c.after := by
  obtain ⟨before, after⟩ := c
  rw [nextEmail, email_hitAt]
  cases hhead : (emailPattern.ends ⟨before, after⟩).head? with
  | some stop =>
      cases after with
      | nil =>
          rw [email_ends_nil] at hhead
          cases hhead
      | cons a after =>
          dsimp only
          conv_rhs => rw [Regex.search, email_hitAt, hhead]
  | none =>
      have hnone : emailPattern.ends ⟨before, after⟩ = [] := List.head?_eq_none_iff.mp hhead
      dsimp only
      rw [search_guarded before after (.inr hnone)]
      cases after with
      | nil => rw [Regex.search, Regex.search, email_hitAt, email_hitAt]
      | cons a after => rw [Regex.search, Regex.search, email_hitAt, email_hitAt, hhead]

/-- The scanner yields the matches of the pattern, one for one. -/
theorem emailMatches_eq_finditer (text : List Char) :
    emailMatches text = emailPattern.finditer text := by
  have hnext : (fun (_ : Bool) c => nextEmail c) =
      fun advance c => emailPattern.search advance c.before c.after := by
    funext advance c
    exact nextEmail_eq advance c
  rw [emailMatches, Regex.finditer, hnext]

/-- The second match starts inside a run, where the first one ended. -/
example : (emailMatches "a@b.com.x@c.org".toList).map Hit.span = [(0, 7), (7, 15)] := by
  decide +kernel

theorem maskEmails_eq_sub (text : List Char) :
    maskEmails text = emailPattern.sub "<email>".toList text := by
  rw [maskEmails, Regex.sub, emailMatches_eq_finditer]

inductive PIIType where
  | email | phone | ssn | creditCard | apiKey | ipAddress | filePath | custom | highEntropy
  deriving DecidableEq

def PIIType.value : PIIType → String
  | .email => "email"
  | .phone => "phone"
  | .ssn => "ssn"
  | .creditCard => "credit_card"
  | .apiKey => "api_key"
  | .ipAddress => "ip_address"
  | .filePath => "file_path"
  | .custom => "custom"
  | .highEntropy => "high_entropy"

/-- A match with its place; `stop` is the source's `end`. -/
structure PIIMatch where
  piiType : PIIType
  value : List Char
  start : Nat
  stop : Nat
  deriving DecidableEq

/-- The match is a stretch of the text. -/
def PIIMatch.FoundIn (text : List Char) (m : PIIMatch) : Prop :=
  m.start ≤ m.stop ∧ m.stop ≤ text.length

instance (text : List Char) (m : PIIMatch) : Decidable (m.FoundIn text) :=
  inferInstanceAs (Decidable (_ ∧ _))

/-- What the detectors take from elsewhere. -/
structure Detection where
  isDigit : Char → Bool
  isSpace : Char → Bool
  isWord : Char → Bool
  credentialSpans : List Char → List (Nat × Nat)
  customPatterns : List (Regex Char)
  highEntropy : List Char → Bool

namespace Pattern

def char (c : Char) : Regex Char := .one (· == c)

def oneOf (chars : List Char) : Regex Char := .one fun c => chars.contains c

def opt (r : Regex Char) : Regex Char := .rep r 0 (some 1)

def times (n : Nat) (r : Regex Char) : Regex Char := .rep r n (some n)

def plus (r : Regex Char) : Regex Char := .rep r 1 none

def all (rs : List (Regex Char)) : Regex Char := rs.foldr .seq .empty

variable (d : Detection)

/-- `\b`. -/
def wordEnd : Regex Char :=
  .look fun before after => (before.head?.any d.isWord) != (after.head?.any d.isWord)

/-- `(?<![...])`. -/
def notAfter (p : Char → Bool) : Regex Char := .look fun before _ => !before.head?.any p

/-- `(?![...])`. -/
def notBefore (p : Char → Bool) : Regex Char := .look fun _ after => !after.head?.any p

def digit : Regex Char := .one d.isDigit

/-- `[-.\s]?`, or `[-\s]?` without the dot. -/
def gap (dot : Bool) : Regex Char :=
  opt (.one fun c => c == '-' || (dot && c == '.') || d.isSpace c)

/-- `\b(?:\+?1[-.\s]?)?\(?\d{3}\)?[-.\s]?\d{3}[-.\s]?\d{4}\b`. -/
def phone : Regex Char :=
  all [wordEnd d, opt (all [opt (char '+'), char '1', gap d true]), opt (char '('),
    times 3 (digit d), opt (char ')'), gap d true, times 3 (digit d), gap d true,
    times 4 (digit d), wordEnd d]

/-- `\b\d{3}[-\s]?\d{2}[-\s]?\d{4}\b`. -/
def ssn : Regex Char :=
  all [wordEnd d, times 3 (digit d), gap d false, times 2 (digit d), gap d false,
    times 4 (digit d), wordEnd d]

/-- `\b(?:\d{4}[-\s]?){3}\d{4}\b`. -/
def creditCard : Regex Char :=
  all [wordEnd d, times 3 (all [times 4 (digit d), gap d false]), times 4 (digit d), wordEnd d]

/-- `25[0-5]|2[0-4]\d|1\d\d|[1-9]?\d`. -/
def octet : Regex Char :=
  .alt (all [char '2', char '5', .one fun c => decide ('0' ≤ c ∧ c ≤ '5')])
    (.alt (all [char '2', .one fun c => decide ('0' ≤ c ∧ c ≤ '4'), digit d])
      (.alt (all [char '1', digit d, digit d])
        (all [opt (.one fun c => decide ('1' ≤ c ∧ c ≤ '9')), digit d])))

/-- Four octets with dots between them, and no digit or dot around them. -/
def ipAddress : Regex Char :=
  all [notAfter fun c => d.isDigit c || c == '.', times 3 (all [octet d, char '.']), octet d,
    notBefore fun c => d.isDigit c || c == '.']

/-- `[A-Za-z]:\\[^\s]+|(?<![\w:/.])/(?:[^/\s]+/)+[^/\s]+`. -/
def filePath : Regex Char :=
  let part := plus (.one fun c => !(c == '/' || d.isSpace c))
  .alt (all [.one Char.isAlpha, char ':', char '\\', plus (.one fun c => !d.isSpace c)])
    (all [notAfter fun c => d.isWord c || c == ':' || c == '/' || c == '.', char '/',
      plus (all [part, char '/']), part])

/-- The part of `_VERSION_PREFIX_RE` behind its group: `\s*v?$`. -/
def versionTail : Regex Char :=
  all [.rep (.one d.isSpace) 0 none, opt (char 'v'),
    .look fun _ after => after.isEmpty || after == ['\n']]

/-- The group of `_VERSION_PREFIX_RE`: `[A-Za-z]+`. -/
def versionWord : Regex Char := plus (.one Char.isAlpha)

end Pattern

def versionContextWords : List String :=
  ["v", "version", "ver", "release", "rel", "build", "python", "py", "node", "nodejs", "ruby",
    "go", "rust", "java", "php", "perl", "gcc", "clang", "kernel", "linux", "ubuntu", "debian",
    "package", "pkg", "upgraded", "downgraded", "bumped", "tag", "mysql", "postgres",
    "postgresql", "redis", "nginx", "apache", "openssl", "docker", "kubernetes", "k8s", "npm",
    "pip", "cargo", "gradle", "maven", "django", "flask", "react", "vue", "angular",
    "typescript", "deno", "dotnet", "kotlin", "swift", "scala", "elixir", "erlang"]

section Detectors

variable (d : Detection)

/-- The dotted run at the place is introduced by a version word. -/
def isVersionContext (text : List Char) (ipStart : Nat) : Bool :=
  let pattern := Pattern.versionWord.seq (Pattern.versionTail d)
  match pattern.search false [] (text.take ipStart) with
  | none => false
  | some hit =>
      -- the group ends where the first way to match the whole pattern ends it
      match (Pattern.versionWord.ends hit.start).find? fun stop =>
          !((Pattern.versionTail d).ends stop).isEmpty with
      | none => false
      | some stop =>
          versionContextWords.contains
            (String.ofList ((Hit.group ⟨hit.start, stop⟩).map Char.toLower))

def matchOf (kind : PIIType) (hit : Hit Char) : PIIMatch :=
  ⟨kind, hit.group, hit.start.pos, hit.stop.pos⟩

/-- `_PII_PATTERNS`, each with what it finds. -/
def patternMatches (text : List Char) : List PIIMatch :=
  (emailMatches text).map (matchOf .email) ++
    ((Pattern.phone d).finditer text).map (matchOf .phone) ++
    ((Pattern.ssn d).finditer text).map (matchOf .ssn) ++
    ((Pattern.creditCard d).finditer text).map (matchOf .creditCard) ++
    (((Pattern.ipAddress d).finditer text).filter fun hit =>
      !isVersionContext d text hit.start.pos).map (matchOf .ipAddress) ++
    ((Pattern.filePath d).finditer text).map (matchOf .filePath)

def credentialMatches (text : List Char) : List PIIMatch :=
  (d.credentialSpans text).map fun (start, stop) =>
    ⟨.apiKey, (text.take stop).drop start, start, stop⟩

def customMatches (text : List Char) : List PIIMatch :=
  d.customPatterns.flatMap fun pattern => (pattern.finditer text).map (matchOf .custom)

def isCaseUniform (segment : List Char) : Bool :=
  !(segment.any Char.isLower && segment.any Char.isUpper)

def isStructuredTechnicalToken (token : List Char) : Bool :=
  let segments := (token.splitOnP fun c => !c.isAlphanum).filter fun segment => !segment.isEmpty
  decide (2 ≤ segments.length) && segments.all isCaseUniform

/-- The token pass over the tokens, given the matches so far. -/
def entropyMatches : List PIIMatch → List (Hit Char) → List PIIMatch
  | found, [] => found
  | found, m :: tokens =>
      let covered := found.any fun pm =>
        decide (pm.start ≤ m.start.pos) && decide (m.stop.pos ≤ pm.stop)
      if m.group.length < 20 || isStructuredTechnicalToken m.group || covered ||
          !d.highEntropy m.group then
        entropyMatches found tokens
      else entropyMatches (found ++ [matchOf .highEntropy m]) tokens

def detectPii (text : List Char) : List PIIMatch :=
  entropyMatches d (patternMatches d text ++ credentialMatches d text ++ customMatches d text)
    ((Pattern.plus (.one fun c => !d.isSpace c)).finditer text)

theorem matchOf_foundIn {r : Regex Char} {text : List Char} {hit : Hit Char}
    (h : hit ∈ r.finditer text) (kind : PIIType) : (matchOf kind hit).FoundIn text :=
  r.finditer_stretch text hit h

theorem patternMatches_foundIn (text : List Char) :
    ∀ m ∈ patternMatches d text, m.FoundIn text := by
  intro m hm
  simp only [patternMatches, emailMatches_eq_finditer, List.mem_append, List.mem_map] at hm
  obtain ((((⟨hit, hhit, rfl⟩ | ⟨hit, hhit, rfl⟩) | ⟨hit, hhit, rfl⟩) | ⟨hit, hhit, rfl⟩) |
    ⟨hit, hhit, rfl⟩) | ⟨hit, hhit, rfl⟩ := hm
  case inl.inr => exact matchOf_foundIn (List.mem_of_mem_filter hhit) _
  all_goals exact matchOf_foundIn hhit _

theorem entropyMatches_foundIn {text : List Char} {found : List PIIMatch}
    (hfound : ∀ m ∈ found, m.FoundIn text) {tokens : List (Hit Char)}
    (htokens : ∀ hit ∈ tokens, (matchOf .highEntropy hit).FoundIn text) :
    ∀ m ∈ entropyMatches d found tokens, m.FoundIn text := by
  induction tokens generalizing found with
  | nil => exact hfound
  | cons token tokens ih =>
      have hrest : ∀ hit ∈ tokens, (matchOf .highEntropy hit).FoundIn text :=
        fun hit hhit => htokens hit (List.mem_cons_of_mem _ hhit)
      rw [entropyMatches]
      split
      · exact ih hfound hrest
      · refine ih (fun m hm => ?_) hrest
        rcases List.mem_append.mp hm with hold | hnew
        · exact hfound m hold
        · rw [List.mem_singleton.mp hnew]
          exact htokens token List.mem_cons_self

/-- Every match that is reported is a stretch of the text, as the credential spans are. -/
theorem detectPii_foundIn {text : List Char}
    (hspans : ∀ s ∈ d.credentialSpans text, s.1 ≤ s.2 ∧ s.2 ≤ text.length) :
    ∀ m ∈ detectPii d text, m.FoundIn text := by
  apply entropyMatches_foundIn
  · intro m hm
    rcases List.mem_append.mp hm with hm | hcustom
    · rcases List.mem_append.mp hm with hpattern | hcredential
      · exact patternMatches_foundIn d text m hpattern
      · obtain ⟨s, hs, rfl⟩ := List.mem_map.mp hcredential
        exact hspans s hs
    · obtain ⟨pattern, -, hm⟩ := List.mem_flatMap.mp hcustom
      obtain ⟨hit, hhit, rfl⟩ := List.mem_map.mp hm
      exact matchOf_foundIn hhit _
  · exact fun hit hhit => matchOf_foundIn hhit _

end Detectors

end TrwMemory.Security

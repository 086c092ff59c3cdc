import TrwMemory.Library.Regex
import TrwMemory.Library.Encodings
import TrwMemory.Lifecycle.Checkout

/-!
Assertions checked against a checkout (`lifecycle/verification.py`). The `regex` package is a
parameter: what a pattern compiles to, and whether the compiled pattern is found in a text in
the time that is left. Decimal digits are a parameter too. Logging is not part of the model.
-/
namespace TrwMemory.Lifecycle.Verification

open Library

inductive AssertionType where
  | grepPresent
  | grepAbsent
  | globExists
  | globAbsent
  deriving DecidableEq

/-- What the verification reads of an assertion. -/
structure Assertion where
  type : AssertionType
  pattern : String
  target : String
  deriving DecidableEq

structure AssertionResult where
  type : AssertionType
  pattern : String
  target : String
  /-- True for passed, false for failed, none where it could not be verified. -/
  passed : Option Bool
  evidence : String

/-- The `regex` package: `compile`, and `search` with a timeout on what it returns. -/
structure RegexPackage where
  compile : String → Except String (List Char → Nat → Except Fault Bool)

def MAX_FILE_SIZE_BYTES : Nat := 1048576
def BINARY_CHECK_BYTES : Nat := 512
/-- `GREP_MATCH_DEADLINE_SECONDS`, in nanoseconds. -/
def GREP_MATCH_DEADLINE : Nat := 5000000000
def MAX_WALK_WORK : Int := 1000000
def MAX_PATTERN_COST : Nat := 100000
def MAX_PATTERN_LEN : Nat := 1024

def DEFAULT_EXCLUDES : List String :=
  [".git", "__pycache__", "node_modules", ".egg-info", "dist", ".mypy_cache", ".pytest_cache",
    ".ruff_cache"]

/-- `\(\?[^()<:'=!>]*x`. -/
def verboseFlag : Regex Char :=
  .seq (.one (· == '(')) (.seq (.one (· == '?'))
    (.seq (.rep (.one fun c => !"()<:'=!>".toList.contains c) 0 none) (.one (· == 'x'))))

/-- `\{[^{}]*\}`. -/
def braces : Regex Char :=
  .seq (.one (· == '\x7b'))
    (.seq (.rep (.one fun c => c != '\x7b' && c != '\x7d') 0 none) (.one (· == '\x7d')))

section Cost

variable (digit : Char → Option Nat)

/-- `\d+`. -/
def digits : Regex Char := .rep (.one fun c => (digit c).isSome) 1 none

/-- `int(run.lstrip("0")[:10] or 0)`. -/
def countOf (run : List Char) : Nat :=
  ((run.dropWhile (· == '0')).take 10).foldl (fun n c => n * 10 + (digit c).getD 0) 0

/-- The largest number in a brace group, at least 1. -/
def largest (group : List Char) : Nat :=
  (((digits digit).finditer group).map fun hit => countOf digit hit.group).foldl max 1

/-- The groups multiply the cost until it exceeds the budget. -/
def multiply (cost : Nat) : List (List Char) → Nat
  | [] => cost
  | group :: groups =>
      if MAX_PATTERN_COST < cost * largest digit group then cost * largest digit group
      else multiply (cost * largest digit group) groups

def patternCost (pattern : String) : Nat :=
  if MAX_PATTERN_LEN < pattern.length then MAX_PATTERN_COST + 1
  else
    let cost := if (verboseFlag.search false [] pattern.toList).isSome then MAX_PATTERN_COST + 1
      else pattern.length
    multiply digit cost ((braces.finditer pattern.toList).map Hit.group)

end Cost

def result (assertion : Assertion) (passed : Option Bool) (evidence : String) : AssertionResult :=
  ⟨assertion.type, assertion.pattern, assertion.target, passed, evidence⟩

def overlong (assertion : Assertion) : Bool :=
  decide (MAX_PATTERN_LEN < max assertion.pattern.length assertion.target.length)

/-- `str(rel_path)`. -/
def pathText (path : RelPath) : String := "/".intercalate path

/-- `", ".join(names[:5])`. -/
def firstFive (names : List String) : String := ", ".intercalate (names.take 5)

/-- What the loop over the candidates has gathered. -/
structure Scan where
  matching : List String
  oversized : List String
  unsearched : List String
  scanned : Nat

/-- `b"\x00" in data[:BINARY_CHECK_BYTES]`. -/
def isBinary (data : List UInt8) : Bool := (data.take BINARY_CHECK_BYTES).contains 0

def unenumerated (assertion : Assertion) : AssertionResult :=
  result assertion none
    s!"could not enumerate files matching '{assertion.target}'; assertion unverified"

section Single

variable (clock : Clock) (c : Checkout) (excludes : List String) (depth : Nat)

/-- `max(budget.deadline - time.monotonic(), 0.0)`. -/
def timeLeft : Program Budget Fault Nat := fun budget =>
  (.ok (budget.deadline - clock.now budget.readings),
    { budget with readings := budget.readings + 1 })

/-- The search in one candidate that was read, is no larger than the limit and is not binary. -/
def searchText (search : List Char → Nat → Except Fault Bool) (path : RelPath)
    (data : List UInt8) (scan : Scan) : Program Budget Fault Scan := do
  let left ← timeLeft clock
  match search (Utf8.decodeReplace data) left with
  | .error fault => Program.fail fault
  | .ok true =>
      pure { scan with
        scanned := scan.scanned + 1
        matching := scan.matching ++ [pathText path] }
  | .ok false => pure { scan with scanned := scan.scanned + 1 }

def scanData (search : List Char → Nat → Except Fault Bool) (path : RelPath) (scan : Scan) :
    Option (List UInt8) → Program Budget Fault Scan
  | none =>
      pure { scan with unsearched := scan.unsearched ++ ["unreadable: " ++ path.getLastD ""] }
  | some data =>
      if MAX_FILE_SIZE_BYTES < data.length then
        pure { scan with
          oversized := scan.oversized ++ [s!"file exceeds 1MB limit: {pathText path}"] }
      else if isBinary data then pure scan
      else searchText clock search path data scan

def scanFiles (search : List Char → Nat → Except Fault Bool) :
    List RelPath → Scan → Program Budget Fault Scan
  | [], scan => pure scan
  | path :: paths, scan => do
      if ← isLate clock then Program.fail .timeout
      else
        let scan ← scanData clock search path scan (c.readBytes MAX_FILE_SIZE_BYTES path)
        scanFiles search paths scan

end Single

/-- The verdict of `grep_present`. -/
def presentVerdict (target : String) (walked : WalkResult) (scan : Scan) :
    Option Bool × String :=
  if scan.matching ≠ [] then
    (some true, s!"pattern found in {scan.matching.length} file(s): {firstFive scan.matching}")
  else if walked.refused ≠ [] then
    (none, "target resolves outside the checkout, so it was never read: " ++
      firstFive (walked.refused.map pathText))
  else if walked.incomplete ≠ [] then
    (none, s!"could not fully enumerate matches for '{target}': " ++
      firstFive (walked.incomplete.map pathText))
  else
    let evidence := s!"pattern not found in {scan.scanned} file(s) matching '{target}'"
    (some false, if scan.oversized ≠ [] then s!"{evidence}; skipped {firstFive scan.oversized}"
      else evidence)

/-- The candidates that a `grep_absent` counts as skipped. -/
def skippedOf (walked : WalkResult) (scan : Scan) : List String :=
  scan.oversized ++ (scan.unsearched ++
    walked.refused.map (fun path => "outside the checkout: " ++ pathText path) ++
    walked.incomplete.map fun path => "could not classify: " ++ pathText path)

/-- The verdict of `grep_absent`. -/
def absentVerdict (target : String) (walked : WalkResult) (scan : Scan) : Option Bool × String :=
  let skipped := skippedOf walked scan
  if scan.matching ≠ [] then
    (some false, s!"pattern unexpectedly found in {scan.matching.length} file(s): " ++
      firstFive scan.matching)
  else if skipped ≠ [] then
    (none, s!"pattern absent from the {scan.scanned} file(s) searched, but " ++
      s!"{skipped.length} could not be read, so absence is unverified: {firstFive skipped}")
  else
    (some true, s!"pattern correctly absent from {scan.scanned} file(s) matching '{target}'")

def grepVerdict (expectPresent : Bool) (assertion : Assertion) (walked : WalkResult)
    (scan : Scan) : AssertionResult :=
  let verdict := if expectPresent then presentVerdict assertion.target walked scan
    else absentVerdict assertion.target walked scan
  result assertion verdict.1 verdict.2

/-- The verdict of `glob_exists` and `glob_absent`. -/
def globVerdict (expectExists : Bool) (target : String) (walked : WalkResult) :
    Option Bool × String :=
  let inside := walked.files ++ walked.globOnly
  let excluded := walked.refused.map (fun path => "outside the checkout: " ++ pathText path) ++
    walked.incomplete.map fun path => "could not classify: " ++ pathText path
  if expectExists then
    if inside ≠ [] then (some true, s!"{inside.length} file(s) found matching '{target}'")
    else if excluded ≠ [] then
      (none, s!"only match(es) outside the checkout or unreadable: {firstFive excluded}")
    else (some false, s!"no files found matching '{target}'")
  else
    if inside ≠ [] then
      (some false, s!"{inside.length} file(s) unexpectedly found matching '{target}'")
    else if excluded ≠ [] then
      (none, s!"no matches confirmed inside the checkout, but {excluded.length} could not be " ++
        s!"verified: {firstFive excluded}")
    else (some true, s!"correctly no files matching '{target}'")

section Verify

variable (package : RegexPackage) (digit : Char → Option Nat) (clock : Clock) (c : Checkout)
  (excludes : List String) (depth : Nat)

/-- The compiled pattern, or why it was refused. -/
def compilePattern (pattern : String) : Except String (List Char → Nat → Except Fault Bool) :=
  if MAX_PATTERN_COST < patternCost digit pattern then
    .error s!"refused before compiling: its cost exceeds MAX_PATTERN_COST ({MAX_PATTERN_COST})"
  else package.compile pattern

/-- The candidates are read and searched; a deadline that passes leaves no verdict. -/
def grepWalked (expectPresent : Bool) (assertion : Assertion)
    (search : List Char → Nat → Except Fault Bool) (walked : WalkResult) :
    Program Budget Fault AssertionResult := do
  match ← Program.attempt (scanFiles clock c search walked.files ⟨[], [], [], 0⟩) with
  | .error .timeout =>
      pure (result assertion none "verification exceeded its 5s budget; assertion unverified")
  | .error fault => Program.fail fault
  | .ok scan => pure (grepVerdict expectPresent assertion walked scan)

def verifyGrep (expectPresent : Bool) (assertion : Assertion) :
    Program Budget Fault AssertionResult :=
  match compilePattern package digit assertion.pattern with
  | .error e => pure (result assertion none s!"invalid regex: {e}")
  | .ok search => do
      match ← walkCheckout clock c excludes depth assertion.target with
      | none => pure (unenumerated assertion)
      | some walked => grepWalked clock c expectPresent assertion search walked

def verifyGlob (expectExists : Bool) (assertion : Assertion) :
    Program Budget Fault AssertionResult := do
  match ← walkCheckout clock c excludes depth assertion.target with
  | none => pure (unenumerated assertion)
  | some walked =>
      let verdict := globVerdict expectExists assertion.target walked
      pure (result assertion verdict.1 verdict.2)

def verifySingle (assertion : Assertion) : Program Budget Fault AssertionResult :=
  if overlong assertion then
    pure (result assertion none
      s!"pattern or target longer than {MAX_PATTERN_LEN} characters; refused unverified")
  else
    match assertion.type with
    | .grepPresent => verifyGrep package digit clock c excludes depth true assertion
    | .grepAbsent => verifyGrep package digit clock c excludes depth false assertion
    | .globExists => verifyGlob clock c excludes depth true assertion
    | .globAbsent => verifyGlob clock c excludes depth false assertion

/-- `str(exc)`. -/
def Fault.text : Fault → String
  | .timeout => ""
  | .os text | .other text => text

/-- One assertion of a call: nothing past the deadline, and no error is a verdict. -/
def verifyNext (assertion : Assertion) : Program Budget Fault AssertionResult := do
  if ← isLate clock then
    pure (result assertion none "the call's verification budget is spent; assertion unverified")
  else
    match ← Program.attempt (verifySingle package digit clock c excludes depth assertion) with
    | .ok verified => pure verified
    | .error fault => pure (result assertion none s!"verification error: {fault.text}")

def verifyAll : List Assertion → Program Budget Fault (List AssertionResult)
  | [] => pure []
  | assertion :: assertions => do
      let verified ← verifyNext package digit clock c excludes depth assertion
      let rest ← verifyAll assertions
      pure (verified :: rest)

end Verify

/-- `project_root`: not given or absent, refused, or open. -/
inductive ProjectRoot where
  | unavailable
  | refused (reason : String)
  | opened (c : Checkout)

/-- The budget of one call; the clock was read once before. -/
def callBudget (clock : Clock) : Budget := ⟨clock.now 1 + GREP_MATCH_DEADLINE, MAX_WALK_WORK, 2⟩

def verifyAssertions (package : RegexPackage) (digit : Char → Option Nat) (clock : Clock)
    (depth : Nat) (assertions : List Assertion) (root : ProjectRoot)
    (excludes : Option (List String)) : List AssertionResult :=
  match root with
  | .unavailable => assertions.map fun a => result a none "project_root unavailable"
  | .refused reason => assertions.map fun a => result a none reason
  | .opened c =>
      match (verifyAll package digit clock c (excludes.getD DEFAULT_EXCLUDES) depth
        assertions).run (callBudget clock) with
      | (.ok results, _) => results
      | (.error _, _) => []

end TrwMemory.Lifecycle.Verification

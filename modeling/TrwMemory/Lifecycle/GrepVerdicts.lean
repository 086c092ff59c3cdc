import Mathlib.Data.List.Forall2
import Mathlib.Data.List.Infix
import TrwMemory.Lifecycle.CheckoutCoverage
import TrwMemory.Lifecycle.Verification

/-!
What a verdict of absence rests on. A `grep_absent` that passes has read every file that its
target matches, and searched it in full unless it looks binary; a `grep_present` that fails
has searched every one that it could read, that is within the size limit and does not look
binary. No candidate of either was a symlink or could not be enumerated.
-/
namespace TrwMemory.Lifecycle.Verification

open Library Library.Glob Library.Program

/-- A regular file in the tree that the whole target names. -/
structure MatchesFile (c : Checkout) (excludes : List String) (target : String)
    (path : RelPath) : Prop where
  fits : Fits (targetParts target) path []
  holds : c.Holds excludes [] path
  regular : c.kind path = .regular
  file : directoriesOnly target = false

/-- A search through the whole text of the file has found nothing. -/
def SearchedInFull (search : List Char → Nat → Except Fault Bool) (c : Checkout)
    (path : RelPath) : Prop :=
  ∃ left, search (Utf8.decodeReplace (c.content path)) left = .ok false

/-- No candidate of the target, at its end or on the way, is a symlink. -/
def NoSymlink (c : Checkout) (excludes : List String) (target : String) : Prop :=
  ∀ path rest, Fits (targetParts target) path rest → c.Holds excludes [] path →
    c.kind path ≠ .symlink

section Verdicts

variable (search : List Char → Nat → Except Fault Bool) (c : Checkout) (excludes : List String)

/-- What a passing `grep_absent` has shown. -/
structure AbsenceShown (target : String) : Prop where
  read : ∀ path, MatchesFile c excludes target path →
    c.reads path = true ∧ (c.content path).length ≤ MAX_FILE_SIZE_BYTES
  searched : ∀ path, MatchesFile c excludes target path →
    isBinary (c.content path) = false → SearchedInFull search c path
  links : NoSymlink c excludes target

/-- What a failing `grep_present` has shown. -/
structure PresenceDenied (target : String) : Prop where
  searched : ∀ path, MatchesFile c excludes target path →
    (c.readBytes MAX_FILE_SIZE_BYTES path).isSome →
    (c.content path).length ≤ MAX_FILE_SIZE_BYTES →
    isBinary (c.content path) = false → SearchedInFull search c path
  links : NoSymlink c excludes target

/-- What the loop has gathered accounts for the candidates it has passed. -/
structure Accounts (paths : List RelPath) (scan : Scan) : Prop where
  searched : scan.matching = [] → ∀ path ∈ paths, ∀ data,
    c.readBytes MAX_FILE_SIZE_BYTES path = some data → data.length ≤ MAX_FILE_SIZE_BYTES →
    isBinary data = false → ∃ left, search (Utf8.decodeReplace data) left = .ok false
  read : scan.oversized = [] → scan.unsearched = [] → ∀ path ∈ paths,
    ∃ data, c.readBytes MAX_FILE_SIZE_BYTES path = some data ∧
      data.length ≤ MAX_FILE_SIZE_BYTES

end Verdicts

section

variable {clock : Clock} {search : List Char → Nat → Except Fault Bool} {c : Checkout}
  {excludes : List String}

theorem readBytes_eq {path : RelPath} {limit : Nat} {data : List UInt8}
    (h : c.readBytes limit path = some data) :
    c.reads path = true ∧ data = (c.content path).take (limit + 1) := by
  simp only [Checkout.readBytes] at h
  split at h
  · cases h
  · split at h
    · exact ⟨(Bool.and_eq_true_iff.mp ‹_›).2, (Option.some.inj h).symm⟩
    · cases h

/-- A read that stays within the limit is the whole file. -/
theorem readBytes_whole {path : RelPath} {limit : Nat} {data : List UInt8}
    (h : c.readBytes limit path = some data) (hlength : data.length ≤ limit) :
    c.reads path = true ∧ data = c.content path := by
  obtain ⟨hreads, rfl⟩ := readBytes_eq h
  refine ⟨hreads, List.take_of_length_le ?_⟩
  rw [List.length_take] at hlength
  omega

/-- A candidate that is passed is accounted for by what the loop adds for it. -/
theorem Accounts.next {paths : List RelPath} {path : RelPath} {scan scan' : Scan}
    (h : Accounts search c paths scan) (hmatching : scan'.matching = [] → scan.matching = [])
    (hoversized : scan'.oversized = [] → scan.oversized = [])
    (hunsearched : scan'.unsearched = [] → scan.unsearched = [])
    (hpath : Accounts search c [path] scan') : Accounts search c (paths ++ [path]) scan' := by
  refine ⟨fun hnone other hother => ?_, fun hsize hread other hother => ?_⟩
  · rcases List.mem_append.mp hother with hold | hnew
    · exact h.searched (hmatching hnone) other hold
    · exact hpath.searched hnone other hnew
  · rcases List.mem_append.mp hother with hold | hnew
    · exact h.read (hoversized hsize) (hunsearched hread) other hold
    · exact hpath.read hsize hread other hnew

theorem scanData_ensures {paths : List RelPath} {path : RelPath} {scan : Scan} (budget : Budget)
    (h : Accounts search c paths scan) :
    (scanData clock search path scan (c.readBytes MAX_FILE_SIZE_BYTES path)).Ensures budget
      fun scan' _ => Accounts search c (paths ++ [path]) scan' := by
  cases hread : c.readBytes MAX_FILE_SIZE_BYTES path with
  | none =>
      refine ensures_pure (h.next id id (fun hnil => (List.append_eq_nil_iff.mp hnil).1) ⟨?_, ?_⟩)
      · rintro - other hother data hdata
        rw [List.mem_singleton.mp hother, hread] at hdata
        cases hdata
      · exact fun _ hnil => nomatch (List.append_eq_nil_iff.mp hnil).2
  | some data =>
      have hone : ∀ {other data'}, other ∈ [path] →
          c.readBytes MAX_FILE_SIZE_BYTES other = some data' → data' = data := by
        intro other data' hother hdata
        rw [List.mem_singleton.mp hother, hread] at hdata
        exact (Option.some.inj hdata).symm
      refine ensures_ite (fun hsize => ensures_pure ?_) fun hsize => ?_
      · refine h.next id (fun hnil => (List.append_eq_nil_iff.mp hnil).1) id ⟨?_, ?_⟩
        · intro _ other hother data' hdata hlength
          rw [hone hother hdata] at hlength
          omega
        · exact fun hnil => nomatch (List.append_eq_nil_iff.mp hnil).2
      have hwithin : ∀ other ∈ [path], ∃ data,
          c.readBytes MAX_FILE_SIZE_BYTES other = some data ∧
            data.length ≤ MAX_FILE_SIZE_BYTES := by
        intro other hother
        rw [List.mem_singleton.mp hother]
        exact ⟨data, hread, Nat.not_lt.mp hsize⟩
      refine ensures_ite (fun hbinary => ensures_pure ?_) fun _ => ?_
      · refine h.next id id id ⟨?_, fun _ _ => hwithin⟩
        intro _ other hother data' hdata _ htext
        rw [hone hother hdata, hbinary] at htext
        cases htext
      · refine ensures_bind fun left after _ => ?_
        dsimp only
        split
        · exact ensures_fail _
        · refine ensures_pure (h.next ?_ id id ⟨?_, fun _ _ => hwithin⟩)
          · exact fun hnil => (List.append_eq_nil_iff.mp hnil).1
          · exact fun hnil => nomatch (List.append_eq_nil_iff.mp hnil).2
        · rename_i hsearch
          refine ensures_pure (h.next id id id ⟨?_, fun _ _ => hwithin⟩)
          intro _ other hother data' hdata _ _
          rw [hone hother hdata]
          exact ⟨left, hsearch⟩

theorem scanFiles_ensures (paths : List RelPath) {done : List RelPath} {scan : Scan}
    (budget : Budget) (h : Accounts search c done scan) :
    (scanFiles clock c search paths scan).Ensures budget fun scan' _ =>
      Accounts search c (done ++ paths) scan' := by
  induction paths generalizing done scan budget with
  | nil =>
      rw [List.append_nil]
      exact ensures_pure h
  | cons path paths ih =>
      refine ensures_bind fun late after _ => ensures_ite (fun _ => ensures_fail _) fun _ => ?_
      refine ensures_bind ((scanData_ensures after h).mono fun scan' later h' => ?_)
      have hrest := ih later h'
      rwa [List.append_assoc, List.singleton_append] at hrest

theorem matched_in_files {found : WalkResult} {target : String} (hgap : ¬ found.Gap)
    (hcovers : Covers c excludes (directoriesOnly target) found
      ([], collapse (targetParts target)))
    {path : RelPath} (hpath : MatchesFile c excludes target path) : path ∈ found.files := by
  have hhas := (hcovers.of_target hpath.fits hpath.holds).resolve_left hgap
  rw [collapse] at hhas
  simp only [WalkResult.Has, hpath.regular, hpath.file] at hhas
  exact hhas.resolve_left Bool.false_ne_true

theorem noSymlink_of_covers {found : WalkResult} {target : String} (hgap : ¬ found.Gap)
    (hcovers : Covers c excludes (directoriesOnly target) found
      ([], collapse (targetParts target))) : NoSymlink c excludes target := by
  intro path rest hfits hholds hlink
  have hhas := (hcovers.of_target hfits hholds).resolve_left hgap
  simp only [WalkResult.Has, hlink] at hhas

theorem absentVerdict_true {target : String} {walked : WalkResult} {scan : Scan}
    (h : (absentVerdict target walked scan).1 = some true) :
    scan.matching = [] ∧ scan.oversized = [] ∧ scan.unsearched = [] ∧ ¬ walked.Gap := by
  simp only [absentVerdict] at h
  split at h
  · cases h
  · split at h
    · cases h
    · rename_i hmatching hskipped
      have hnil := not_not.mp hskipped
      simp only [skippedOf, List.append_eq_nil_iff, List.map_eq_nil_iff] at hnil
      obtain ⟨hoversized, ⟨hunsearched, hrefused⟩, hincomplete⟩ := hnil
      exact ⟨not_not.mp hmatching, hoversized, hunsearched,
        fun hgap => hgap.elim (fun h => h hrefused) fun h => h hincomplete⟩

theorem presentVerdict_false {target : String} {walked : WalkResult} {scan : Scan}
    (h : (presentVerdict target walked scan).1 = some false) :
    scan.matching = [] ∧ ¬ walked.Gap := by
  simp only [presentVerdict] at h
  split at h
  · cases h
  · split at h
    · cases h
    · split at h
      · cases h
      · rename_i hmatching hrefused hincomplete
        exact ⟨not_not.mp hmatching, fun hgap => hgap.elim hrefused hincomplete⟩

variable {found : WalkResult} {target : String} {scan : Scan}

theorem absenceShown_of_scan
    (hcovers : Covers c excludes (directoriesOnly target) found
      ([], collapse (targetParts target)))
    (hscan : Accounts search c found.files scan)
    (h : (absentVerdict target found scan).1 = some true) :
    AbsenceShown search c excludes target := by
  obtain ⟨hmatching, hoversized, hunsearched, hgap⟩ := absentVerdict_true h
  have hread : ∀ path, MatchesFile c excludes target path →
      c.readBytes MAX_FILE_SIZE_BYTES path = some (c.content path) ∧ c.reads path = true ∧
        (c.content path).length ≤ MAX_FILE_SIZE_BYTES := by
    intro path hpath
    obtain ⟨data, hdata, hlength⟩ := hscan.read hoversized hunsearched path
      (matched_in_files hgap hcovers hpath)
    obtain ⟨hreads, rfl⟩ := readBytes_whole hdata hlength
    exact ⟨hdata, hreads, hlength⟩
  refine ⟨fun path hpath => (hread path hpath).2, fun path hpath htext => ?_,
    noSymlink_of_covers hgap hcovers⟩
  obtain ⟨hdata, -, hlength⟩ := hread path hpath
  exact hscan.searched hmatching path (matched_in_files hgap hcovers hpath) _ hdata hlength htext

theorem presenceDenied_of_scan
    (hcovers : Covers c excludes (directoriesOnly target) found
      ([], collapse (targetParts target)))
    (hscan : Accounts search c found.files scan)
    (h : (presentVerdict target found scan).1 = some false) :
    PresenceDenied search c excludes target := by
  obtain ⟨hmatching, hgap⟩ := presentVerdict_false h
  refine ⟨fun path hpath hread hlength htext => ?_, noSymlink_of_covers hgap hcovers⟩
  obtain ⟨data, hdata⟩ := Option.isSome_iff_exists.mp hread
  have hwhole : data = c.content path := by
    rw [(readBytes_eq hdata).2, List.take_of_length_le (Nat.le_succ_of_le hlength)]
  subst hwhole
  exact hscan.searched hmatching path (matched_in_files hgap hcovers hpath) _ hdata hlength htext

end

section Call

variable {package : RegexPackage} {digit : Char → Option Nat} {clock : Clock} {c : Checkout}
  {excludes : List String} {depth : Nat}

/-- What a definitive verdict of absence has shown, for the pattern as it was compiled. -/
structure Justified (package : RegexPackage) (digit : Char → Option Nat) (c : Checkout)
    (excludes : List String) (assertion : Assertion) (passed : Option Bool) : Prop where
  absent : assertion.type = .grepAbsent → passed = some true →
    ∃ search, compilePattern package digit assertion.pattern = .ok search ∧
      AbsenceShown search c excludes assertion.target
  present : assertion.type = .grepPresent → passed = some false →
    ∃ search, compilePattern package digit assertion.pattern = .ok search ∧
      PresenceDenied search c excludes assertion.target

theorem justified_unverified (assertion : Assertion) :
    Justified package digit c excludes assertion none :=
  ⟨fun _ h => (nomatch h), fun _ h => (nomatch h)⟩

theorem grepWalked_ensures {search : List Char → Nat → Except Fault Bool} {walked : WalkResult}
    (expectPresent : Bool) (assertion : Assertion) (budget : Budget) :
    (grepWalked clock c expectPresent assertion search walked).Ensures budget fun r _ =>
      r.passed = none ∨ ∃ scan, Accounts search c walked.files scan ∧
        r = grepVerdict expectPresent assertion walked scan := by
  have hstart : Accounts search c [] ⟨[], [], [], 0⟩ :=
    ⟨fun _ _ h => (List.not_mem_nil h).elim, fun _ _ _ h => (List.not_mem_nil h).elim⟩
  refine ensures_bind (ensures_attempt ?_ fun fault after _ => ?_)
  · exact (scanFiles_ensures walked.files budget hstart).mono fun scan after h =>
      ensures_pure (.inr ⟨scan, h, rfl⟩)
  · cases fault with
    | timeout => exact ensures_pure (.inl rfl)
    | os text => exact ensures_fail _
    | other text => exact ensures_fail _

theorem verifyGrep_ensures (expectPresent : Bool) (assertion : Assertion) (budget : Budget)
    (htype : assertion.type = if expectPresent then .grepPresent else .grepAbsent) :
    (verifyGrep package digit clock c excludes depth expectPresent assertion).Ensures budget
      fun r _ => Justified package digit c excludes assertion r.passed := by
  unfold verifyGrep
  split
  · exact ensures_pure (justified_unverified assertion)
  · rename_i search hcompile
    refine ensures_bind ((walkCheckout_ensures depth assertion.target budget).mono ?_)
    intro walked after hwalked
    cases walked with
    | none => exact ensures_pure (justified_unverified assertion)
    | some walked =>
        refine (grepWalked_ensures expectPresent assertion after).mono ?_
        rintro r _ (hnone | ⟨scan, hscan, rfl⟩)
        · exact hnone ▸ justified_unverified assertion
        · have hcovers := hwalked walked rfl
          cases expectPresent with
          | true =>
              refine ⟨fun habsent => ?_, fun _ h => ?_⟩
              · exact absurd (htype.symm.trans habsent) (by decide)
              · exact ⟨search, hcompile, presenceDenied_of_scan hcovers hscan h⟩
          | false =>
              refine ⟨fun _ h => ?_, fun hpresent => ?_⟩
              · exact ⟨search, hcompile, absenceShown_of_scan hcovers hscan h⟩
              · exact absurd (htype.symm.trans hpresent) (by decide)

theorem verifyGlob_ensures (expectExists : Bool) (assertion : Assertion) (budget : Budget)
    (habsent : assertion.type ≠ .grepAbsent) (hpresent : assertion.type ≠ .grepPresent) :
    (verifyGlob clock c excludes depth expectExists assertion).Ensures budget
      fun r _ => Justified package digit c excludes assertion r.passed :=
  fun _ _ _ => ⟨fun h => absurd h habsent, fun h => absurd h hpresent⟩

theorem verifySingle_ensures (assertion : Assertion) (budget : Budget) :
    (verifySingle package digit clock c excludes depth assertion).Ensures budget
      fun r _ => Justified package digit c excludes assertion r.passed := by
  refine ensures_ite (fun _ => ensures_pure (justified_unverified assertion)) fun _ => ?_
  cases htype : assertion.type with
  | grepPresent => exact verifyGrep_ensures true assertion budget htype
  | grepAbsent => exact verifyGrep_ensures false assertion budget htype
  | globExists =>
      exact verifyGlob_ensures true assertion budget (by rw [htype]; decide)
        (by rw [htype]; decide)
  | globAbsent =>
      exact verifyGlob_ensures false assertion budget (by rw [htype]; decide)
        (by rw [htype]; decide)

theorem verifyNext_ensures (assertion : Assertion) (budget : Budget) :
    (verifyNext package digit clock c excludes depth assertion).Ensures budget
      fun r _ => Justified package digit c excludes assertion r.passed := by
  refine ensures_bind fun late after _ => ensures_ite ?_ fun _ => ?_
  · exact fun _ => ensures_pure (justified_unverified assertion)
  · refine ensures_bind (ensures_attempt ?_ fun fault later _ => ?_)
    · exact (verifySingle_ensures assertion after).mono fun r later h => ensures_pure h
    · exact ensures_pure (justified_unverified assertion)

theorem verifyAll_ensures (assertions : List Assertion) (budget : Budget) :
    (verifyAll package digit clock c excludes depth assertions).Ensures budget fun results _ =>
      List.Forall₂ (fun assertion r => Justified package digit c excludes assertion r.passed)
        assertions results := by
  induction assertions generalizing budget with
  | nil => exact ensures_pure .nil
  | cons assertion assertions ih =>
      refine ensures_bind ((verifyNext_ensures assertion budget).mono fun r after hr => ?_)
      exact ensures_bind ((ih after).mono fun rest later hrest => ensures_pure (.cons hr hrest))

/-- No error of one assertion reaches the next. -/
theorem verifyAll_returns (package : RegexPackage) (digit : Char → Option Nat) (clock : Clock)
    (c : Checkout) (excludes : List String) (depth : Nat) (assertions : List Assertion) :
    (verifyAll package digit clock c excludes depth assertions).Returns := by
  induction assertions with
  | nil => exact returns_pure []
  | cons assertion assertions ih =>
      refine returns_bind (returns_bind (fun budget => ⟨_, _, rfl⟩) fun late => ?_) fun r =>
        returns_bind ih fun rest => returns_pure _
      refine returns_ite (returns_pure _) (returns_bind (returns_attempt _) fun verified => ?_)
      cases verified with
      | ok r => exact returns_pure r
      | error fault => exact returns_pure _

/-- One result for each assertion. -/
theorem verifyAssertions_length (package : RegexPackage) (digit : Char → Option Nat)
    (clock : Clock) (depth : Nat) (assertions : List Assertion) (root : ProjectRoot)
    (excludes : Option (List String)) :
    (verifyAssertions package digit clock depth assertions root excludes).length =
      assertions.length := by
  cases root with
  | unavailable => exact List.length_map _
  | refused reason => exact List.length_map _
  | opened c =>
      obtain ⟨results, after, hrun⟩ := verifyAll_returns package digit clock c
        (excludes.getD DEFAULT_EXCLUDES) depth assertions (callBudget clock)
      simp only [verifyAssertions, hrun]
      exact (verifyAll_ensures assertions _ results after hrun).length_eq.symm

end Call

/-- Whether the call has verified anything, and what a definitive absence has shown if so. -/
def VerdictJustified (package : RegexPackage) (digit : Char → Option Nat) (root : ProjectRoot)
    (excludes : Option (List String)) (assertion : Assertion) (r : AssertionResult) : Prop :=
  match root with
  | .opened c => Justified package digit c (excludes.getD DEFAULT_EXCLUDES) assertion r.passed
  | _ => r.passed = none

/-- Every assertion has its result, and a definitive verdict of absence in it rests on a
complete walk and on the search of every candidate that is not passed over by design. -/
theorem absence_rests_on_search (package : RegexPackage) (digit : Char → Option Nat)
    (clock : Clock) (depth : Nat) (assertions : List Assertion) (root : ProjectRoot)
    (excludes : Option (List String)) :
    List.Forall₂ (VerdictJustified package digit root excludes) assertions
      (verifyAssertions package digit clock depth assertions root excludes) := by
  cases root with
  | unavailable =>
      exact List.forall₂_map_right_iff.mpr (List.forall₂_same.mpr fun _ _ => rfl)
  | refused reason =>
      exact List.forall₂_map_right_iff.mpr (List.forall₂_same.mpr fun _ _ => rfl)
  | opened c =>
      obtain ⟨results, after, hrun⟩ := verifyAll_returns package digit clock c
        (excludes.getD DEFAULT_EXCLUDES) depth assertions (callBudget clock)
      have hall := verifyAll_ensures assertions (callBudget clock) results after hrun
      simp only [verifyAssertions, hrun]
      exact hall

/-- The `regex` package on patterns without special characters. -/
def literalSearch (pattern : String) (text : List Char) (left : Nat) : Except Fault Bool :=
  if left = 0 then .error .timeout else .ok (decide (pattern.toList <:+: text))

def literalPackage : RegexPackage := ⟨fun pattern => .ok (literalSearch pattern)⟩

def asciiDigit (c : Char) : Option Nat :=
  if '0' ≤ c ∧ c ≤ '9' then some (c.toNat - '0'.toNat) else none

def stoppedClock : Clock := ⟨fun _ => 0, monotone_const⟩

/-- A checkout that holds one file, `b`, with the bytes of `h` and a NUL. -/
def binaryCheckout : Checkout where
  entries path := if path = [] then ["b"] else []
  kind _ := .regular
  content _ := [104, 0]
  scans _ := true
  stats _ := true
  opens _ := true
  reads _ := true

/-- The pattern stands in the one file that the target names, which is not searched. -/
theorem binary_candidate_denied :
    (verifyAssertions literalPackage asciiDigit stoppedClock 3 [⟨.grepPresent, "h", "b"⟩]
        (.opened binaryCheckout) none).map AssertionResult.passed = [some false] ∧
      compilePattern literalPackage asciiDigit "h" = .ok (literalSearch "h") ∧
      MatchesFile binaryCheckout DEFAULT_EXCLUDES "b" ["b"] ∧
      ¬ SearchedInFull (literalSearch "h") binaryCheckout ["b"] := by
  refine ⟨?_, ?_, ?_, ?_⟩
  · decide
  · rfl
  · have hparts : targetParts "b" = ["b"] := by decide
    exact ⟨hparts ▸ .head (by decide) (by decide), .leaf (by decide) (by decide), rfl, by decide⟩
  · rintro ⟨left, hleft⟩
    have htext : decide ("h".toList <:+: Utf8.decodeReplace (binaryCheckout.content ["b"])) =
        true := by decide
    rw [literalSearch, htext] at hleft
    split at hleft <;> cases hleft

end TrwMemory.Lifecycle.Verification

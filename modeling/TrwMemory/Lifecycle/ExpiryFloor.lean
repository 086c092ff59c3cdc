import TrwMemory.Retrieval.ExpiryEligibility

/-!
The expiry floor of `entry_utility` (`lifecycle/scoring.py`) beside the expiry predicate of
retrieval. Scoring takes the day as it is written in the text, without a shift to UTC, and
floors from the next day on whatever time the text names. The other terms of the score are
given.
-/
namespace TrwMemory.Lifecycle

open Storage Retrieval

section

variable (py : Python) (dateFromisoformat : String → Option Int)

/-- `_parse_expires`. -/
def parseExpires (raw : String) : Option Int :=
  if raw = "" then none
  else
    match py.fromisoformat (replaceZulu raw) with
    | some parsed => some (dateOf parsed)
    | none => dateFromisoformat raw

/-- `expires_date is not None and reference_day > expires_date`. -/
def pastExpires (expires : Option String) (referenceDay : Int) : Bool :=
  match parseExpires py dateFromisoformat (expires.getD "") with
  | some expiresDate => expiresDate < referenceDay
  | none => false

/-- `entry_utility`; `scored` is what the terms behind the floor come to. -/
def entryUtility {β : Type} (expiredUtilityFloor scored : β) (expires : Option String)
    (referenceDay : Int) : β :=
  if pastExpires py dateFromisoformat expires referenceDay then expiredUtilityFloor else scored

/-- The floor is what the entry scores, whatever the other terms come to. -/
def FloorApplied (expires : Option String) (referenceDay : Int) : Prop :=
  ∀ floor scored : Rat,
    entryUtility py dateFromisoformat floor scored expires referenceDay = floor

/-- The end of the day that is written in the text. -/
def floorsFrom (parsed : Datetime) : Int := (dateOf parsed + 1) * Datetime.DAY

/-- The first moment at which retrieval lets the text pass: behind the instant of a text with
a time, at the end of the day in UTC of a bare date. -/
def passesFrom (expires : String) (parsed : Datetime) : Int :=
  if 10 < (pyStrip expires).toList.length then parsed.instant + 1
  else (parsed.instant / Datetime.DAY + 1) * Datetime.DAY

/-- Retrieval has no answer for the text: its shift to UTC leaves the years. -/
def Unshifted (expires : String) (parsed : Datetime) : Prop :=
  (10 < (pyStrip expires).toList.length ∨ parsed.offset.isSome = true) ∧ ¬Shifts parsed

/-- The instant lies between the moments at which the two let the text pass, or behind the
written day of a text without an instant in range. -/
def Separates (expires : String) (instant : Int) : Prop :=
  expires ≠ "" ∧ ∃ parsed, py.fromisoformat (replaceZulu expires) = some parsed ∧
    ((Unshifted expires parsed ∧ floorsFrom parsed ≤ instant) ∨
      (¬Unshifted expires parsed ∧
        ((passesFrom expires parsed ≤ instant ∧ instant < floorsFrom parsed) ∨
          (floorsFrom parsed ≤ instant ∧ instant < passesFrom expires parsed))))

variable {py dateFromisoformat}

theorem floorApplied_iff (expires : Option String) (referenceDay : Int) :
    FloorApplied py dateFromisoformat expires referenceDay ↔
      pastExpires py dateFromisoformat expires referenceDay = true := by
  rw [FloorApplied]
  simp only [entryUtility]
  cases pastExpires py dateFromisoformat expires referenceDay with
  | true => exact iff_of_true (fun _ _ => rfl) rfl
  | false => exact iff_of_false (fun h => absurd (h 0 1) (by decide)) Bool.false_ne_true

theorem floorsFrom_le (parsed : Datetime) (instant : Int) :
    floorsFrom parsed ≤ instant ↔ dateOf parsed < instant / Datetime.DAY :=
  (day_lt_iff _ _).symm

/-- The floor and the predicate on a text that names a datetime. -/
theorem agree_parsed_iff (dateFromisoformat : String → Option Int) {expires : String}
    {reference parsed : Datetime} (hne : expires ≠ "")
    (hparsed : py.fromisoformat (replaceZulu expires) = some parsed) (href : Shifts reference) :
    ((dateOf parsed < reference.instant / Datetime.DAY) ↔
        expiryHasPassed py dateFromisoformat expires reference = .ok true) ↔
      ¬Separates py expires reference.instant := by
  have hseparates : Separates py expires reference.instant ↔
      (Unshifted expires parsed ∧ floorsFrom parsed ≤ reference.instant) ∨
        (¬Unshifted expires parsed ∧
          ((passesFrom expires parsed ≤ reference.instant ∧
              reference.instant < floorsFrom parsed) ∨
            (floorsFrom parsed ≤ reference.instant ∧
              reference.instant < passesFrom expires parsed))) := by
    constructor
    · rintro ⟨-, other, hother, h⟩
      rwa [Option.some.inj (hparsed.symm.trans hother)]
    · exact fun h => ⟨hne, parsed, hparsed, h⟩
  rw [hseparates, ← floorsFrom_le]
  by_cases hunshifted : Unshifted expires parsed
  · have hnot : ¬Representable py expires reference := fun h =>
      hunshifted.2 (h.2 hne parsed hparsed hunshifted.1)
    rw [expiryHasPassed_of_not hnot]
    simp [hunshifted]
  · have hrepresentable : Representable py expires reference := by
      refine ⟨href, fun _ other hother hshifted => ?_⟩
      rw [← Option.some.inj (hparsed.symm.trans hother)] at hshifted ⊢
      by_contra hnot
      exact hunshifted ⟨hshifted, hnot⟩
    obtain ⟨passed, hpassed, hlapsed⟩ :=
      expiryHasPassed_of_representable dateFromisoformat hrepresentable
    have hpasses : Lapsed py dateFromisoformat expires reference ↔
        passesFrom expires parsed ≤ reference.instant := by
      rw [passesFrom]
      split
      · rw [lapsed_instant hne hparsed ‹_›]
        exact Iff.rfl
      · rw [lapsed_day hne hparsed ‹_›]
        exact day_lt_iff _ _
    rw [hpassed, Except.ok.injEq, hlapsed, hpasses]
    simp only [hunshifted, false_and, false_or, not_false_eq_true, true_and]
    omega

/-- Scoring floors an entry at a reference exactly when retrieval says that its expiry has
passed, as long as the reference does not lie between their two moments. -/
theorem floor_agrees_iff (py : Python) (dateFromisoformat : String → Option Int)
    (expires : Option String) {reference utc : Datetime} (hutc : reference.toUtc = some utc) :
    (FloorApplied py dateFromisoformat expires (dateOf utc) ↔
        expiryHasPassed py dateFromisoformat (expires.getD "") reference = .ok true) ↔
      ¬Separates py (expires.getD "") reference.instant := by
  have href : Shifts reference := by rw [Shifts, hutc]; rfl
  have hday : dateOf utc = reference.instant / Datetime.DAY := by
    rw [Datetime.toUtc_eq hutc, dateOf_parseDt]
  rw [floorApplied_iff, pastExpires, parseExpires, hday]
  generalize expires.getD "" = text
  by_cases hempty : text = ""
  · have hnot : ¬Separates py text reference.instant := fun h => h.1 hempty
    have hpasses : expiryHasPassed py dateFromisoformat text reference = .ok false := by
      simp only [expiryHasPassed, shiftToUtc_of_shifts href, bind, Except.bind,
        parseExpiresInstant, parseExpiresDate, if_pos hempty]
    rw [if_pos hempty, hpasses]
    simp [hnot]
  · rw [if_neg hempty]
    cases hparsed : py.fromisoformat (replaceZulu text) with
    | some parsed =>
        have hagree : _ ↔ ¬Separates py text reference.instant :=
          agree_parsed_iff dateFromisoformat hempty hparsed href
        rw [← hagree]
        simp
    | none =>
        have hnot : ¬Separates py text reference.instant := by
          rintro ⟨-, parsed, hsome, -⟩
          rw [hparsed] at hsome
          cases hsome
        have hpasses : expiryHasPassed py dateFromisoformat text reference =
            .ok (match dateFromisoformat text with
              | some day => decide (day < reference.instant / Datetime.DAY)
              | none => false) := by
          simp only [expiryHasPassed, shiftToUtc_of_shifts href, bind, Except.bind,
            parseExpiresInstant, parseExpiresDate, if_neg hempty, hparsed]
          cases dateFromisoformat text <;> rfl
        dsimp only
        rw [hpasses]
        cases dateFromisoformat text <;> simp [hnot]

end

/-- Noon of 1 July 2026. -/
def julyNoon : Datetime := ⟨63918504000000000, some 0⟩

/-- The two disagree about noon of the day, which the first instant of the day separates. -/
theorem floor_agrees_july :
    Separates isoPython "2026-07-01T00:00:00+00:00" julyNoon.instant := by
  have hagree := floor_agrees_iff isoPython (fun _ => none) (some "2026-07-01T00:00:00+00:00")
    (by decide : julyNoon.toUtc = some julyNoon)
  have hdisagree : ¬(FloorApplied isoPython (fun _ => none) (some "2026-07-01T00:00:00+00:00")
        (dateOf julyNoon) ↔
      expiryHasPassed isoPython (fun _ => none) "2026-07-01T00:00:00+00:00" julyNoon =
        .ok true) := by
    simp only [floorApplied_iff]
    decide +kernel
  exact not_not.mp (mt hagree.mpr hdisagree)

/-- At noon the first instant of the day has passed for retrieval, and scoring does not floor.
At four in the morning the last minute of June five hours west is still to come for retrieval,
and scoring floors. -/
theorem expiry_disagrees :
    (expiryHasPassed isoPython (fun _ => none) "2026-07-01T00:00:00+00:00" julyNoon = .ok true ∧
      ¬FloorApplied isoPython (fun _ => none) (some "2026-07-01T00:00:00+00:00")
        (dateOf julyNoon)) ∧
    expiryHasPassed isoPython (fun _ => none) "2026-06-30T23:59:00-05:00"
        ⟨julyNoon.wall - 28800000000, some 0⟩ = .ok false ∧
      FloorApplied isoPython (fun _ => none) (some "2026-06-30T23:59:00-05:00")
        (dateOf ⟨julyNoon.wall - 28800000000, some 0⟩) := by
  simp only [floorApplied_iff]
  decide +kernel

end TrwMemory.Lifecycle

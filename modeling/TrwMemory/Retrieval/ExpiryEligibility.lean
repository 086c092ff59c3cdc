import TrwMemory.Retrieval.ValidityPrior

/-!
Eligibility on top of the expiry predicate: `_is_open_at` of a window and
`RemoteCandidate.temporal_eligibility` of a remote result (`retrieval/recall_selection.py`),
whose bounds are texts too. The remote path makes a naive `as_of` aware before it compares;
`_is_open_at` does not.
-/
namespace TrwMemory.Retrieval

open Library Storage

section

variable (py : Python) (dateFromisoformat : String → Option Int)

/-- What of a remote result its eligibility reads; `none` where the key is missing. -/
structure RemoteResult where
  expires : Option Json
  validFrom : Option Json
  invalidFrom : Option Json

/-- `value if isinstance(value, str) else ...`. -/
def strField : Option Json → Option String
  | some (.str text) => some text
  | _ => none

/-- `d.replace(tzinfo=timezone.utc)` where it is naive. -/
def assumeUtc (d : Datetime) : Datetime := { d with offset := some (d.offset.getD 0) }

/-- `_instant`. -/
def instantField (value : Option Json) : Option Datetime :=
  (strField value).bind fun text => (py.fromisoformat (replaceZulu text)).map assumeUtc

def isNull : Option Json → Bool
  | some .null => true
  | _ => false

/-- `invalid_from is not None and (as_of is None or as_of >= invalid_from)`. -/
def closedBy (invalidFrom asOf : Option Datetime) : Except PyError Bool :=
  match invalidFrom, asOf with
  | none, _ => .ok false
  | some _, none => .ok true
  | some closes, some instant => (before instant closes).map (!·)

/-- `valid_from is not None and as_of is not None and as_of < valid_from`. -/
def opensAfter (validFrom asOf : Option Datetime) : Except PyError Bool :=
  match validFrom, asOf with
  | some opens, some instant => before instant opens
  | _, _ => .ok false

/-- `_RemoteWindow`. -/
def remoteWindow (result : RemoteResult) (validFrom : Datetime) : Window :=
  ⟨validFrom, instantField py result.invalidFrom, (strField result.expires).getD ""⟩

/-- The answer from the window, where the result has both bounds. -/
def wholeWindow (result : RemoteResult) (asOf : Option Datetime) (referenceTime : Datetime) :
    Except PyError (Option Bool) :=
  let invalidFrom := instantField py result.invalidFrom
  match instantField py result.validFrom with
  | none => .ok none
  | some validFrom =>
      if result.invalidFrom.isSome && (isNull result.invalidFrom || invalidFrom.isSome) then
        (isOpenAt py dateFromisoformat (remoteWindow py result validFrom) asOf referenceTime).map
          some
      else .ok none

/-- `RemoteCandidate.temporal_eligibility`. -/
def temporalEligibility (result : RemoteResult) (temporal : TemporalSelection) :
    Except PyError (Option Bool) := do
  match ← expiryHasPassed py dateFromisoformat ((strField result.expires).getD "")
      (temporal.asOf.getD temporal.referenceTime) with
  | true => .ok (some false)
  | false =>
      let asOf := temporal.asOf.map assumeUtc
      match ← closedBy (instantField py result.invalidFrom) asOf with
      | true => .ok (some false)
      | false =>
          match ← opensAfter (instantField py result.validFrom) asOf with
          | true => .ok (some false)
          | false => wholeWindow py dateFromisoformat result asOf temporal.referenceTime

/-- A given `as_of` is naive or aware as the bounds are that it is compared with. -/
def Comparable (window : Window) : Option Datetime → Prop
  | none => True
  | some asOf =>
      asOf.offset.isSome = window.validFrom.offset.isSome ∧
        (window.validFrom.instant ≤ asOf.instant → ∀ closes ∈ window.invalidFrom,
          asOf.offset.isSome = closes.offset.isSome)

/-- The window by its instants: open at the end, or around a given `as_of`. -/
def Inside (window : Window) : Option Datetime → Prop
  | none => window.invalidFrom = none
  | some asOf =>
      window.validFrom.instant ≤ asOf.instant ∧
        ∀ closes ∈ window.invalidFrom, asOf.instant < closes.instant

variable {py dateFromisoformat}

theorem before_of_eq {d d' : Datetime} (h : d.offset.isSome = d'.offset.isSome) :
    before d d' = .ok (d.instant < d'.instant) := if_pos h

theorem before_of_ne {d d' : Datetime} (h : d.offset.isSome ≠ d'.offset.isSome) :
    before d d' = .error .type := if_neg h

/-- The window half answers exactly where its comparisons are between like datetimes. -/
theorem containsInstant_spec (window : Window) (asOf : Option Datetime) :
    (Comparable window asOf → ∃ inside, containsInstant window asOf = .ok inside ∧
      (inside = true ↔ Inside window asOf)) ∧
    (¬Comparable window asOf → containsInstant window asOf = .error .type) := by
  cases asOf with
  | none =>
      refine ⟨fun _ => ⟨_, rfl, ?_⟩, fun h => absurd trivial h⟩
      rw [Option.isNone_iff_eq_none]
      rfl
  | some asOf =>
      rw [Comparable, containsInstant]
      by_cases hopens : asOf.offset.isSome = window.validFrom.offset.isSome
      · rw [before_of_eq hopens]
        by_cases hearly : asOf.instant < window.validFrom.instant
        · rw [decide_eq_true hearly]
          refine ⟨fun _ => ⟨false, rfl, ?_⟩, fun h => absurd ⟨hopens, fun hle => ?_⟩ h⟩
          · refine iff_of_false Bool.false_ne_true fun hinside => ?_
            exact absurd hinside.1 (Int.not_le.mpr hearly)
          · exact absurd hle (Int.not_le.mpr hearly)
        · have hle := Int.not_lt.mp hearly
          rw [decide_eq_false hearly]
          cases hcloses : window.invalidFrom with
          | none =>
              refine ⟨fun _ => ⟨true, rfl, iff_of_true rfl ⟨hle, ?_⟩⟩, fun h => absurd ?_ h⟩
              · rw [hcloses]
                simp
              · exact ⟨hopens, by simp⟩
          | some closes =>
              simp only [bind, Except.bind]
              by_cases hend : asOf.offset.isSome = closes.offset.isSome
              · rw [before_of_eq hend]
                refine ⟨fun _ => ⟨_, rfl, ?_⟩, fun h => absurd ?_ h⟩
                · rw [decide_eq_true_eq, Inside, hcloses]
                  exact ⟨fun hlt => ⟨hle, fun _ h => Option.some.inj h ▸ hlt⟩,
                    fun hinside => hinside.2 closes rfl⟩
                · exact ⟨hopens, fun _ _ h => Option.some.inj h ▸ hend⟩
              · rw [before_of_ne hend]
                exact ⟨fun h => absurd (h.2 hle closes rfl) hend, fun _ => rfl⟩
      · rw [before_of_ne hopens]
        exact ⟨fun h => absurd h.1 hopens, fun _ => rfl⟩

/-- `_is_open_at` answers exactly if the expiry does and, where it has not lapsed, the window
does; it says no of what has lapsed and of what lies outside the window, and of nothing
else. -/
theorem isOpenAt_iff (window : Window) (asOf : Option Datetime) (reference : Datetime) :
    (∃ answer, isOpenAt py dateFromisoformat window asOf reference = .ok answer ∧
      (answer = false ↔ Lapsed py dateFromisoformat window.expires (asOf.getD reference) ∨
        ¬Inside window asOf)) ↔
    Representable py window.expires (asOf.getD reference) ∧
      (¬Lapsed py dateFromisoformat window.expires (asOf.getD reference) →
        Comparable window asOf) := by
  by_cases hshifts : Representable py window.expires (asOf.getD reference)
  · obtain ⟨passed, hpassed, hlapsed⟩ := expiryHasPassed_of_representable dateFromisoformat hshifts
    rw [isOpenAt, hpassed]
    cases passed with
    | true =>
        have h := hlapsed.mp rfl
        exact iff_of_true ⟨false, rfl, iff_of_true rfl (.inl h)⟩ ⟨hshifts,
          fun hnot => absurd h hnot⟩
    | false =>
        have h : ¬Lapsed py dateFromisoformat window.expires (asOf.getD reference) :=
          fun h => Bool.false_ne_true (hlapsed.mpr h)
        obtain ⟨hanswers, hraises⟩ := containsInstant_spec window asOf
        by_cases hcomparable : Comparable window asOf
        · obtain ⟨inside, hinside, hiff⟩ := hanswers hcomparable
          refine iff_of_true ⟨inside, hinside, ?_⟩ ⟨hshifts, fun _ => hcomparable⟩
          rw [or_iff_right h, ← hiff, Bool.not_eq_true]
        · refine iff_of_false ?_ fun hall => hcomparable (hall.2 h)
          rintro ⟨answer, hanswer, -⟩
          exact absurd ((hraises hcomparable).symm.trans hanswer) (fun h => nomatch h)
  · refine iff_of_false ?_ fun hall => hshifts hall.1
    rintro ⟨answer, hanswer, -⟩
    rw [isOpenAt, expiryHasPassed_of_not hshifts] at hanswer
    cases hanswer

/-- The bounds that a result has contradict its being open at the instant. -/
def Contradicted (py : Python) (result : RemoteResult) (asOf : Option Datetime) : Prop :=
  (∃ closes, instantField py result.invalidFrom = some closes ∧
      ∀ instant ∈ asOf, closes.instant ≤ instant.instant) ∨
    ∃ opens instant, instantField py result.validFrom = some opens ∧ asOf = some instant ∧
      instant.instant < opens.instant

theorem instant_assumeUtc (d : Datetime) : (assumeUtc d).instant = d.instant := rfl

theorem shifts_assumeUtc (d : Datetime) : Shifts (assumeUtc d) ↔ Shifts d := Iff.rfl

theorem instantField_aware {value : Option Json} {d : Datetime}
    (h : instantField py value = some d) : d.offset.isSome = true := by
  obtain ⟨text, -, hread⟩ := Option.bind_eq_some_iff.mp h
  obtain ⟨parsed, -, rfl⟩ := Option.map_eq_some_iff.mp hread
  rfl

theorem getD_assumeUtc_instant (asOf : Option Datetime) (reference : Datetime) :
    ((asOf.map assumeUtc).getD reference).instant = (asOf.getD reference).instant := by
  cases asOf <;> rfl

theorem representable_assumeUtc {expires : String} {asOf : Option Datetime}
    {reference : Datetime} (h : Representable py expires (asOf.getD reference)) :
    Representable py expires ((asOf.map assumeUtc).getD reference) := by
  cases asOf with
  | none => exact h
  | some instant => exact ⟨(shifts_assumeUtc instant).mpr h.1, h.2⟩

theorem lapsed_assumeUtc (expires : String) (asOf : Option Datetime) (reference : Datetime) :
    Lapsed py dateFromisoformat expires ((asOf.map assumeUtc).getD reference) ↔
      Lapsed py dateFromisoformat expires (asOf.getD reference) := by
  rw [Lapsed, Lapsed, getD_assumeUtc_instant]

theorem closedBy_ok {invalidFrom asOf : Option Datetime}
    (hinvalid : ∀ d ∈ invalidFrom, d.offset.isSome = true)
    (hasOf : ∀ d ∈ asOf, d.offset.isSome = true) :
    ∃ closed, closedBy invalidFrom asOf = .ok closed ∧
      (closed = true ↔ ∃ closes, invalidFrom = some closes ∧
        ∀ instant ∈ asOf, closes.instant ≤ instant.instant) := by
  cases invalidFrom with
  | none => exact ⟨false, rfl, by simp⟩
  | some closes =>
      cases asOf with
      | none => exact ⟨true, rfl, by simp⟩
      | some instant =>
          have hlike : instant.offset.isSome = closes.offset.isSome :=
            (hasOf instant rfl).trans (hinvalid closes rfl).symm
          rw [closedBy, before_of_eq hlike]
          exact ⟨_, rfl, by simp⟩

theorem opensAfter_ok {validFrom asOf : Option Datetime}
    (hvalid : ∀ d ∈ validFrom, d.offset.isSome = true)
    (hasOf : ∀ d ∈ asOf, d.offset.isSome = true) :
    ∃ early, opensAfter validFrom asOf = .ok early ∧
      (early = true ↔ ∃ opens instant, validFrom = some opens ∧ asOf = some instant ∧
        instant.instant < opens.instant) := by
  cases validFrom with
  | none => exact ⟨false, rfl, by simp⟩
  | some opens =>
      cases asOf with
      | none => exact ⟨false, rfl, by simp⟩
      | some instant =>
          have hlike : instant.offset.isSome = opens.offset.isSome :=
            (hasOf instant rfl).trans (hvalid opens rfl).symm
          rw [opensAfter, before_of_eq hlike]
          exact ⟨_, rfl, by simp⟩

theorem assumeUtc_aware (asOf : Option Datetime) :
    ∀ d ∈ asOf.map assumeUtc, d.offset.isSome = true := by
  intro d hd
  obtain ⟨instant, -, rfl⟩ := Option.map_eq_some_iff.mp hd
  rfl

theorem contradicted_iff (py : Python) (result : RemoteResult) (asOf : Option Datetime) :
    Contradicted py result (asOf.map assumeUtc) ↔ Contradicted py result asOf := by
  rw [Contradicted, Contradicted]
  cases asOf with
  | none => simp
  | some instant => simp [instant_assumeUtc]

/-- The window of a result that nothing contradicts does not refuse it. -/
theorem wholeWindow_ok {result : RemoteResult} {asOf : Option Datetime} {reference : Datetime}
    (hasOf : ∀ d ∈ asOf, d.offset.isSome = true)
    (hshifts : Representable py ((strField result.expires).getD "") (asOf.getD reference))
    (hlapsed : ¬Lapsed py dateFromisoformat ((strField result.expires).getD "")
      (asOf.getD reference))
    (hfree : ¬Contradicted py result asOf) :
    ∃ answer, wholeWindow py dateFromisoformat result asOf reference = .ok answer ∧
      answer ≠ some false := by
  rw [wholeWindow]
  cases hopens : instantField py result.validFrom with
  | none => exact ⟨none, rfl, fun h => nomatch h⟩
  | some opens =>
      dsimp only
      split
      · have haware := instantField_aware hopens
        have hcomparable : Comparable (remoteWindow py result opens) asOf := by
          cases asOf with
          | none => trivial
          | some instant =>
              have hinstant := hasOf instant rfl
              exact ⟨hinstant.trans haware.symm, fun _ closes hcloses =>
                hinstant.trans (instantField_aware hcloses).symm⟩
        have hinside : Inside (remoteWindow py result opens) asOf := by
          rw [Contradicted, not_or] at hfree
          cases asOf with
          | none =>
              cases hcloses : instantField py result.invalidFrom with
              | none => exact hcloses
              | some closes => exact absurd ⟨closes, hcloses, fun _ h => nomatch h⟩ hfree.1
          | some instant =>
              constructor
              · by_contra hlt
                exact hfree.2 ⟨opens, instant, hopens, rfl, Int.not_le.mp hlt⟩
              · intro closes hcloses
                by_contra hle
                refine hfree.1 ⟨closes, hcloses, fun _ h => ?_⟩
                rw [← Option.some.inj h]
                exact Int.not_lt.mp hle
        obtain ⟨answer, hanswer, hiff⟩ := (isOpenAt_iff (remoteWindow py result opens) asOf
          reference).mpr ⟨hshifts, fun _ => hcomparable⟩
        rw [hanswer]
        refine ⟨some answer, rfl, fun h => ?_⟩
        exact (hiff.mp (Option.some.inj h)).elim hlapsed (absurd hinside)
      · exact ⟨none, rfl, fun h => nomatch h⟩

/-- A remote result is judged exactly if its expiry is; it is refused where the expiry has
lapsed or a bound contradicts, and nowhere else. -/
theorem temporalEligibility_iff (result : RemoteResult) (temporal : TemporalSelection) :
    (∃ answer, temporalEligibility py dateFromisoformat result temporal = .ok answer ∧
      (answer = some false ↔
        Lapsed py dateFromisoformat ((strField result.expires).getD "")
          (temporal.asOf.getD temporal.referenceTime) ∨
        Contradicted py result temporal.asOf)) ↔
    Representable py ((strField result.expires).getD "")
      (temporal.asOf.getD temporal.referenceTime) := by
  by_cases hshifts : Representable py ((strField result.expires).getD "")
      (temporal.asOf.getD temporal.referenceTime)
  · refine iff_of_true ?_ hshifts
    obtain ⟨passed, hpassed, hlapsed⟩ := expiryHasPassed_of_representable dateFromisoformat hshifts
    have haware := assumeUtc_aware temporal.asOf
    obtain ⟨closed, hclosed, hclosedIff⟩ := closedBy_ok
      (fun _ h => instantField_aware (h : instantField py result.invalidFrom = some _)) haware
    obtain ⟨early, hearly, hearlyIff⟩ := opensAfter_ok
      (fun _ h => instantField_aware (h : instantField py result.validFrom = some _)) haware
    have hcontra := contradicted_iff py result temporal.asOf
    rw [Contradicted, ← hclosedIff, ← hearlyIff] at hcontra
    simp only [temporalEligibility, hpassed, hclosed, hearly, bind, Except.bind]
    cases passed with
    | true => exact ⟨_, rfl, iff_of_true rfl (.inl (hlapsed.mp rfl))⟩
    | false =>
        have hnot := fun h => Bool.false_ne_true (hlapsed.mpr h)
        rw [or_iff_right hnot]
        cases closed with
        | true => exact ⟨_, rfl, iff_of_true rfl (hcontra.mp (.inl rfl))⟩
        | false =>
            cases early with
            | true => exact ⟨_, rfl, iff_of_true rfl (hcontra.mp (.inr rfl))⟩
            | false =>
                have hfree : ¬Contradicted py result temporal.asOf := fun h =>
                  (hcontra.mpr h).elim Bool.false_ne_true Bool.false_ne_true
                obtain ⟨answer, hanswer, hne⟩ := wholeWindow_ok haware
                  (representable_assumeUtc hshifts)
                  ((lapsed_assumeUtc _ _ _).not.mpr hnot)
                  ((contradicted_iff py result temporal.asOf).not.mpr hfree)
                exact ⟨answer, hanswer, iff_of_false hne hfree⟩
  · refine iff_of_false ?_ hshifts
    rintro ⟨answer, hanswer, -⟩
    rw [temporalEligibility, expiryHasPassed_of_not hshifts] at hanswer
    cases hanswer

/-- The predicate and the judgements on top of it answer exactly where the shifts to UTC stay
within the years and a window's bounds compare with a given `as_of`; where they answer, only a
well-formed value whose instant or whole day lies before the reference counts as passed. -/
theorem expiry_conservative_iff (py : Python) (dateFromisoformat : String → Option Int) :
    (∀ expires reference,
      (∃ passed, expiryHasPassed py dateFromisoformat expires reference = .ok passed ∧
        (passed = true ↔ Lapsed py dateFromisoformat expires reference)) ↔
      Representable py expires reference) ∧
    (∀ window asOf reference,
      (∃ answer, isOpenAt py dateFromisoformat window asOf reference = .ok answer ∧
        (answer = false ↔ Lapsed py dateFromisoformat window.expires (asOf.getD reference) ∨
          ¬Inside window asOf)) ↔
      Representable py window.expires (asOf.getD reference) ∧
        (¬Lapsed py dateFromisoformat window.expires (asOf.getD reference) →
          Comparable window asOf)) ∧
    ∀ result temporal,
      (∃ answer, temporalEligibility py dateFromisoformat result temporal = .ok answer ∧
        (answer = some false ↔
          Lapsed py dateFromisoformat ((strField result.expires).getD "")
            (temporal.asOf.getD temporal.referenceTime) ∨
          Contradicted py result temporal.asOf)) ↔
      Representable py ((strField result.expires).getD "")
        (temporal.asOf.getD temporal.referenceTime) := by
  refine ⟨fun expires reference => ?_, isOpenAt_iff, temporalEligibility_iff⟩
  by_cases hshifts : Representable py expires reference
  · exact iff_of_true (expiryHasPassed_of_representable dateFromisoformat hshifts) hshifts
  · refine iff_of_false ?_ hshifts
    rintro ⟨passed, hpassed, -⟩
    rw [expiryHasPassed_of_not hshifts] at hpassed
    cases hpassed

end

/-- An interpreter that reads the ISO texts. -/
def isoPython : Python := { Codec.plainPython with fromisoformat := Datetime.fromisoformat }

/-- The first instant of the year 1, an hour east of UTC, is refused at any time; a naive
`as_of` does not compare with a window in UTC. -/
theorem expiry_raises :
    Datetime.InRange ⟨0, some 3600000000⟩ ∧
    (∀ reference, expiryHasPassed isoPython (fun _ => none) "0001-01-01T00:00:00+01:00" reference =
      .error .overflow) ∧
    isOpenAt isoPython (fun _ => none) ⟨⟨0, some 0⟩, none, ""⟩ (some ⟨3600000000, none⟩)
      ⟨3600000000, none⟩ = .error .type := by
  refine ⟨by decide, fun reference => ?_, by decide +kernel⟩
  refine expiryHasPassed_of_not fun h => ?_
  have hparsed : isoPython.fromisoformat (replaceZulu "0001-01-01T00:00:00+01:00") =
      some ⟨0, some 3600000000⟩ := by decide +kernel
  have hshift : Shifts ⟨0, some 3600000000⟩ := h.2 (by decide) _ hparsed (.inr rfl)
  exact absurd hshift (by unfold Shifts; decide)

end TrwMemory.Retrieval

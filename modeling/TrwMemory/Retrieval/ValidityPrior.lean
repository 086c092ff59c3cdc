import TrwMemory.Storage.CodecRoundTrips
import TrwMemory.Storage.EvidenceCodec

/-!
Which records a query sees at an instant (`retrieval/validity_prior.py`,
`retrieval/temporal_selection.py`), what `expiry_has_passed` answers, and what is built on it:
`_is_open_at` of an entry and `RemoteCandidate.temporal_eligibility` of a remote result
(`retrieval/recall_selection.py`). Instants are compared as the interpreter does: a naive one and
an aware one do not compare, and a shift to UTC can leave the years; an answer is right whenever
there is one.

The reordering of a fused list and its age decay are left out.
-/
namespace TrwMemory.Retrieval

open Storage

/-- What of an entry decides whether it is open. -/
structure Window where
  validFrom : Datetime
  invalidFrom : Option Datetime
  expires : String

/-- `d < d'`; a naive and an aware one raise `TypeError`. -/
def before (d d' : Datetime) : Except PyError Bool :=
  if d.offset.isSome = d'.offset.isSome then .ok (d.instant < d'.instant) else .error .type

/-- `date()`, as the day's number. -/
def dateOf (d : Datetime) : Int := d.wall / Datetime.DAY

/-- `raw.replace("Z", "+00:00")`. -/
def replaceZulu (raw : String) : String :=
  String.ofList (raw.toList.flatMap fun c => if c = 'Z' then "+00:00".toList else [c])

section

variable (py : Python) (dateFromisoformat : String → Option Int)

/-- `_parse_expires_instant`. -/
def parseExpiresInstant (raw : String) : Except PyError (Option Datetime) :=
  if raw = "" then .ok none
  else
    match py.fromisoformat (replaceZulu raw) with
    | none => .ok none
    | some parsed =>
        if (pyStrip raw).toList.length ≤ 10 then .ok none else (shiftToUtc parsed).map some

/-- `_parse_expires_date`. -/
def parseExpiresDate (raw : String) : Except PyError (Option Int) :=
  if raw = "" then .ok none
  else
    match py.fromisoformat (replaceZulu raw) with
    | none => .ok (dateFromisoformat raw)
    | some parsed =>
        if parsed.offset.isSome then (shiftToUtc parsed).map fun utc => some (dateOf utc)
        else .ok (some (dateOf parsed))

/-- `expiry_has_passed`. -/
def expiryHasPassed (expires : String) (referenceTime : Datetime) : Except PyError Bool := do
  let instant ← shiftToUtc referenceTime
  match ← parseExpiresInstant py expires with
  | some expiresAt => before expiresAt instant
  | none =>
      match ← parseExpiresDate py dateFromisoformat expires with
      | some expiresDate => .ok (expiresDate < dateOf instant)
      | none => .ok false

/-- The half of `_is_open_at` that looks at the window alone. -/
def containsInstant (window : Window) : Option Datetime → Except PyError Bool
  | none => .ok window.invalidFrom.isNone
  | some asOf => do
      match ← before asOf window.validFrom with
      | true => .ok false
      | false =>
          match window.invalidFrom with
          | none => .ok true
          | some closed => before asOf closed

/-- `_is_open_at`. -/
def isOpenAt (window : Window) (asOf : Option Datetime) (referenceTime : Datetime) :
    Except PyError Bool := do
  match ← expiryHasPassed py dateFromisoformat window.expires (asOf.getD referenceTime) with
  | true => .ok false
  | false => containsInstant window asOf

/-- `TemporalSelection`. -/
structure TemporalSelection where
  asOf : Option Datetime
  includeSuperseded : Bool
  excludeSystemCanaries : Bool
  referenceTime : Datetime

/-- `TemporalSelection.eligible`. -/
def TemporalSelection.eligible (selection : TemporalSelection) (window : Window) :
    Except PyError Bool :=
  isOpenAt py dateFromisoformat window selection.asOf selection.referenceTime

end

/-- `metadata.get("system_canary") == "true"`. -/
def isSystemCanary (metadata : Metadata) : Bool := metadata.lookup "system_canary" == some "true"

def windowOf (e : MemoryEntry) : Window := ⟨e.validFrom, e.invalidFrom, e.expires⟩

/-- The working lists of `select`. -/
structure Selected where
  eligible : List MemoryEntry
  deferred : List MemoryEntry

section

variable (eligible : Window → Except PyError Bool) (selection : TemporalSelection) (limit : Nat)

/-- The body of the loop. -/
def offer (selected : Selected) (e : MemoryEntry) : Except PyError Selected :=
  if selection.excludeSystemCanaries && isSystemCanary e.metadata then .ok selected
  else do
    match ← eligible (windowOf e) with
    | true => .ok { selected with eligible := selected.eligible ++ [e] }
    | false =>
        if selection.includeSuperseded && selected.deferred.length < limit then
          .ok { selected with deferred := selected.deferred ++ [e] }
        else .ok selected

/-- `break` where the quota is met. -/
def Selected.isFull (selected : Selected) : Bool := selected.eligible.length == limit

/-- The loop, from lists that were begun. -/
def selectFrom (selected : Selected) : List MemoryEntry → Except PyError Selected
  | [] => .ok selected
  | e :: entries =>
      if selected.isFull limit then .ok selected
      else do selectFrom (← offer eligible selection limit selected e) entries

def Selected.finish (selected : Selected) : List MemoryEntry :=
  selected.eligible ++ selected.deferred.take (limit - selected.eligible.length)

/-- `TemporalSelection.select`. -/
def select (entries : List MemoryEntry) : Except PyError (List MemoryEntry) :=
  if limit = 0 then .error .value
  else (selectFrom eligible selection limit ⟨[], []⟩ entries).map (Selected.finish limit)

end

section

variable (py : Python) (dateFromisoformat : String → Option Int)

/-- The text carries a time, and names this instant. -/
def NamesInstant (expires : String) (instant : Int) : Prop :=
  expires ≠ "" ∧ 10 < (pyStrip expires).toList.length ∧
    ∃ parsed, py.fromisoformat (replaceZulu expires) = some parsed ∧ instant = parsed.instant

/-- The text is a bare date, and names this day. -/
def NamesDay (expires : String) (day : Int) : Prop :=
  expires ≠ "" ∧
    ((∃ parsed, py.fromisoformat (replaceZulu expires) = some parsed ∧
        (pyStrip expires).toList.length ≤ 10 ∧ day = parsed.instant / Datetime.DAY) ∨
      (py.fromisoformat (replaceZulu expires) = none ∧ dateFromisoformat expires = some day))

/-- The text is well formed, and its instant, or the whole of its day, lies before the
reference. -/
def Lapsed (expires : String) (reference : Datetime) : Prop :=
  (∃ instant, NamesInstant py expires instant ∧ instant < reference.instant) ∨
    ∃ day, NamesDay py dateFromisoformat expires day ∧
      (day + 1) * Datetime.DAY ≤ reference.instant

/-- In UTC the datetime stays within the years 1 to 9999. -/
def Shifts (d : Datetime) : Prop := d.toUtc.isSome = true

/-- The reference, and the value where it is shifted, stay within the years. -/
def Representable (expires : String) (reference : Datetime) : Prop :=
  Shifts reference ∧
    (expires ≠ "" → ∀ parsed, py.fromisoformat (replaceZulu expires) = some parsed →
    10 < (pyStrip expires).toList.length ∨ parsed.offset.isSome = true → Shifts parsed)

theorem shiftToUtc_of_shifts {d : Datetime} (h : Shifts d) : shiftToUtc d = .ok d.parseDt := by
  obtain ⟨utc, hutc⟩ := Option.isSome_iff_exists.mp h
  rw [shiftToUtc, hutc, Datetime.toUtc_eq hutc]
  rfl

theorem shiftToUtc_of_not {d : Datetime} (h : ¬Shifts d) : shiftToUtc d = .error .overflow := by
  rw [shiftToUtc, Option.not_isSome_iff_eq_none.mp h]
  rfl

theorem dateOf_parseDt (d : Datetime) : dateOf d.parseDt = d.instant / Datetime.DAY := rfl

theorem day_lt_iff (day instant : Int) :
    day < instant / Datetime.DAY ↔ (day + 1) * Datetime.DAY ≤ instant := by
  unfold Datetime.DAY
  omega

theorem before_utc (d d' : Datetime) :
    before d.parseDt d'.parseDt = .ok (d.instant < d'.instant) := by
  have haware : d.parseDt.offset.isSome = d'.parseDt.offset.isSome := rfl
  rw [before, if_pos haware, Datetime.parseDt_instant, Datetime.parseDt_instant]

variable {py dateFromisoformat}

theorem lapsed_instant {expires : String} {reference parsed : Datetime} (hne : expires ≠ "")
    (hparsed : py.fromisoformat (replaceZulu expires) = some parsed)
    (hlong : 10 < (pyStrip expires).toList.length) :
    Lapsed py dateFromisoformat expires reference ↔ parsed.instant < reference.instant := by
  constructor
  · rintro (⟨_, ⟨-, -, other, hother, rfl⟩, hlt⟩ | ⟨day, ⟨-, ⟨other, -, hshort, -⟩ | ⟨hnone, -⟩⟩,
      -⟩)
    · rwa [Option.some.inj (hparsed.symm.trans hother)]
    · omega
    · rw [hparsed] at hnone
      cases hnone
  · exact fun hlt => .inl ⟨_, ⟨hne, hlong, parsed, hparsed, rfl⟩, hlt⟩

theorem lapsed_day {expires : String} {reference parsed : Datetime} (hne : expires ≠ "")
    (hparsed : py.fromisoformat (replaceZulu expires) = some parsed)
    (hshort : ¬10 < (pyStrip expires).toList.length) :
    Lapsed py dateFromisoformat expires reference ↔
      parsed.instant / Datetime.DAY < reference.instant / Datetime.DAY := by
  rw [day_lt_iff]
  constructor
  · rintro (⟨_, ⟨-, hlong, -⟩, -⟩ | ⟨_, ⟨-, ⟨other, hother, -, rfl⟩ | ⟨hnone, -⟩⟩, hle⟩)
    · exact absurd hlong hshort
    · rwa [Option.some.inj (hparsed.symm.trans hother)]
    · rw [hparsed] at hnone
      cases hnone
  · exact fun hle => .inr ⟨_, ⟨hne, .inl ⟨parsed, hparsed, Nat.not_lt.mp hshort, rfl⟩⟩, hle⟩

theorem lapsed_date {expires : String} {reference : Datetime} (hne : expires ≠ "")
    (hnone : py.fromisoformat (replaceZulu expires) = none) :
    Lapsed py dateFromisoformat expires reference ↔
      ∃ day, dateFromisoformat expires = some day ∧ day < reference.instant / Datetime.DAY := by
  constructor
  · rintro (⟨_, ⟨-, -, other, hother, -⟩, -⟩ | ⟨day, ⟨-, ⟨other, hother, -⟩ | ⟨-, hday⟩⟩, hle⟩)
    · rw [hnone] at hother
      cases hother
    · rw [hnone] at hother
      cases hother
    · exact ⟨day, hday, (day_lt_iff _ _).mpr hle⟩
  · rintro ⟨day, hday, hlt⟩
    exact .inr ⟨day, ⟨hne, .inr ⟨hnone, hday⟩⟩, (day_lt_iff _ _).mp hlt⟩

theorem not_lapsed_empty (reference : Datetime) : ¬Lapsed py dateFromisoformat "" reference := by
  rintro (⟨_, ⟨hne, -⟩, -⟩ | ⟨_, ⟨hne, -⟩, -⟩) <;> exact hne rfl

/-- With all shifts within the years the answer is whether the expiry has lapsed. -/
theorem expiryHasPassed_of_representable (dateFromisoformat : String → Option Int)
    {expires : String} {reference : Datetime}
    (h : Representable py expires reference) :
    ∃ passed, expiryHasPassed py dateFromisoformat expires reference = .ok passed ∧
      (passed = true ↔ Lapsed py dateFromisoformat expires reference) := by
  obtain ⟨hreference, hvalue⟩ := h
  simp only [expiryHasPassed, shiftToUtc_of_shifts hreference, bind, Except.bind]
  by_cases hempty : expires = ""
  · subst hempty
    refine ⟨false, rfl, iff_of_false Bool.false_ne_true (not_lapsed_empty reference)⟩
  have hvalue := hvalue hempty
  cases hparsed : py.fromisoformat (replaceZulu expires) with
  | none =>
      simp only [parseExpiresInstant, parseExpiresDate, if_neg hempty, hparsed]
      rw [lapsed_date hempty hparsed]
      cases hday : dateFromisoformat expires with
      | none => exact ⟨false, rfl, by simp⟩
      | some day => exact ⟨_, rfl, by rw [decide_eq_true_eq, dateOf_parseDt]; simp⟩
  | some parsed =>
      by_cases hlong : 10 < (pyStrip expires).toList.length
      · have hshift := shiftToUtc_of_shifts (hvalue parsed hparsed (.inl hlong))
        simp only [parseExpiresInstant, if_neg hempty, hparsed, if_neg (Nat.not_le.mpr hlong),
          hshift, Except.map]
        rw [lapsed_instant hempty hparsed hlong, before_utc]
        exact ⟨_, rfl, by simp⟩
      · simp only [parseExpiresInstant, parseExpiresDate, if_neg hempty, hparsed,
          if_pos (Nat.not_lt.mp hlong)]
        rw [lapsed_day hempty hparsed hlong]
        cases haware : parsed.offset.isSome with
        | true =>
            have hshift := shiftToUtc_of_shifts (hvalue parsed hparsed (.inr haware))
            simp only [hshift, Except.map, ↓reduceIte]
            exact ⟨_, rfl, by rw [decide_eq_true_eq, dateOf_parseDt, dateOf_parseDt]⟩
        | false =>
            have hwall : dateOf parsed = parsed.instant / Datetime.DAY := by
              obtain ⟨wall, offset⟩ := parsed
              cases offset with
              | none => simp [dateOf, Datetime.instant]
              | some offset => cases haware
            simp only [Bool.false_eq_true, ↓reduceIte]
            exact ⟨_, rfl, by rw [decide_eq_true_eq, dateOf_parseDt, hwall]⟩

theorem expiryHasPassed_of_not {expires : String} {reference : Datetime}
    (h : ¬Representable py expires reference) :
    expiryHasPassed py dateFromisoformat expires reference = .error .overflow := by
  by_cases hreference : Shifts reference
  · rw [Representable, not_and] at h
    have hvalue := h hreference
    push Not at hvalue
    obtain ⟨hne, parsed, hparsed, hcase, hshift⟩ := hvalue
    simp only [expiryHasPassed, shiftToUtc_of_shifts hreference, bind, Except.bind]
    by_cases hlong : 10 < (pyStrip expires).toList.length
    · simp only [parseExpiresInstant, if_neg hne, hparsed, if_neg (Nat.not_le.mpr hlong),
        shiftToUtc_of_not hshift, Except.map]
    · have haware := hcase.resolve_left hlong
      simp only [parseExpiresInstant, parseExpiresDate, if_neg hne, hparsed,
        if_pos (Nat.not_lt.mp hlong), haware, if_true, shiftToUtc_of_not hshift, Except.map]
  · simp only [expiryHasPassed, shiftToUtc_of_not hreference, bind, Except.bind]

end

end TrwMemory.Retrieval

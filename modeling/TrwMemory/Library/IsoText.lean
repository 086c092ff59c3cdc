import Mathlib.Algebra.Group.Nat.Defs
import Mathlib.Data.List.Basic
import Mathlib.Data.Nat.Basic

/-!
The proleptic Gregorian calendar: days from 0001-01-01 on, as year, month and day.

The texts of ISO 8601 dates and clock times with fixed widths, down to microseconds, and
their reading. Only these forms are read; what is written is read back.
-/
namespace Library.Civil

def isLeap (year : Nat) : Bool := year % 4 == 0 && (year % 100 != 0 || year % 400 == 0)

/-- Days before the first of January. -/
def daysBeforeYear (year : Nat) : Nat :=
  (year - 1) * 365 + (year - 1) / 4 - (year - 1) / 100 + (year - 1) / 400

/-- Days of a year before the first of a month. -/
def daysBeforeMonth (leap : Bool) (month : Nat) : Nat :=
  [0, 0, 31, 59, 90, 120, 151, 181, 212, 243, 273, 304, 334].getD month 365 +
    if leap && 2 < month then 1 else 0

structure Date where
  year : Nat
  month : Nat
  day : Nat
  deriving DecidableEq, Repr

/-- Days since 0001-01-01. -/
def toDays (d : Date) : Nat :=
  daysBeforeYear d.year + daysBeforeMonth (isLeap d.year) d.month + (d.day - 1)

/-- The year of a day, by cycles of 400, 100 and 4 years; the last day of a cycle would
begin one more. -/
def yearOf (days : Nat) : Nat :=
  let rest := days % 146097
  let centuries := min (rest / 36524) 3
  let rest' := rest - centuries * 36524
  let fours := rest' / 1461
  400 * (days / 146097) + 100 * centuries + 4 * fours + min (rest' % 1461 / 365) 3 + 1

def monthOf (leap : Bool) (dayOfYear : Nat) : Nat :=
  ((List.range' 2 11).filter fun month => daysBeforeMonth leap month ≤ dayOfYear).length + 1

def ofDays (days : Nat) : Date :=
  let year := yearOf days
  let dayOfYear := days - daysBeforeYear year
  let month := monthOf (isLeap year) dayOfYear
  ⟨year, month, dayOfYear - daysBeforeMonth (isLeap year) month + 1⟩

example : ofDays 738885 = ⟨2024, 1, 1⟩ ∧ ofDays 3652058 = ⟨9999, 12, 31⟩ := by decide

def yearLength (year : Nat) : Nat := if isLeap year then 366 else 365

/-- A year after `400 q + 100 c + 4 f + y` others. -/
theorem daysBeforeYear_eq (q c f y : Nat) (hc : c ≤ 3) (hf : f ≤ 24) (hy : y ≤ 3) :
    daysBeforeYear (400 * q + 100 * c + 4 * f + y + 1) =
      146097 * q + 36524 * c + 1461 * f + 365 * y := by
  unfold daysBeforeYear
  rw [Nat.add_sub_cancel]
  have h4 : (400 * q + 100 * c + 4 * f + y) / 4 = 100 * q + 25 * c + f := by omega
  have h100 : (400 * q + 100 * c + 4 * f + y) / 100 = 4 * q + c := by omega
  have h400 : (400 * q + 100 * c + 4 * f + y) / 400 = q := by omega
  rw [h4, h100, h400]
  omega

theorem yearLength_eq (q c f y : Nat) (hc : c ≤ 3) (hf : f ≤ 24) (hy : y ≤ 3) :
    yearLength (400 * q + 100 * c + 4 * f + y + 1) =
      if y = 3 ∧ (f < 24 ∨ c = 3) then 366 else 365 := by
  have h4 : (400 * q + 100 * c + 4 * f + y + 1) % 4 = 0 ↔ y = 3 := by omega
  have h100 : (400 * q + 100 * c + 4 * f + y + 1) % 100 = 0 ↔ f = 24 ∧ y = 3 := by omega
  have h400 : (400 * q + 100 * c + 4 * f + y + 1) % 400 = 0 ↔ c = 3 ∧ f = 24 ∧ y = 3 := by omega
  unfold yearLength isLeap
  simp only [Bool.and_eq_true, Bool.or_eq_true, beq_iff_eq, bne_iff_ne, ne_eq, h4, h100, h400]
  split <;> split <;> omega

/-- A day is in its year. -/
theorem yearOf_spec (days : Nat) :
    daysBeforeYear (yearOf days) ≤ days ∧
      days < daysBeforeYear (yearOf days) + yearLength (yearOf days) := by
  unfold yearOf
  dsimp only
  rw [daysBeforeYear_eq _ _ _ _ (by omega) (by omega) (by omega),
    yearLength_eq _ _ _ _ (by omega) (by omega) (by omega)]
  split <;> omega

theorem yearOf_le {days : Nat} (h : days < 3652059) : yearOf days ≤ 9999 := by
  unfold yearOf
  dsimp only
  omega

/-- The day of a year is in its month, and the month is one of twelve. -/
theorem monthOf_spec (leap : Bool) (dayOfYear : Nat) (h : dayOfYear < if leap then 366 else 365) :
    1 ≤ monthOf leap dayOfYear ∧ monthOf leap dayOfYear ≤ 12 ∧
      daysBeforeMonth leap (monthOf leap dayOfYear) ≤ dayOfYear ∧
      dayOfYear < daysBeforeMonth leap (monthOf leap dayOfYear) + 31 := by
  have hall : ∀ leap : Bool, ∀ day : Fin 366, day.val < (if leap then 366 else 365) →
      1 ≤ monthOf leap day ∧ monthOf leap day ≤ 12 ∧
      daysBeforeMonth leap (monthOf leap day) ≤ day ∧
      day.val < daysBeforeMonth leap (monthOf leap day) + 31 := by decide +kernel
  refine hall leap ⟨dayOfYear, ?_⟩ h
  split at h <;> omega

/-- A day is that of its date. -/
theorem toDays_ofDays (days : Nat) : toDays (ofDays days) = days := by
  obtain ⟨hle, hlt⟩ := yearOf_spec days
  obtain ⟨-, -, hmonth, -⟩ := monthOf_spec (isLeap (yearOf days))
    (days - daysBeforeYear (yearOf days)) (by
      unfold yearLength at hlt
      omega)
  simp only [toDays, ofDays]
  omega

/-- A date has four digits for the year and two for the month and the day. -/
theorem ofDays_bounds {days : Nat} (h : days < 3652059) :
    (ofDays days).year ≤ 9999 ∧ (ofDays days).month ≤ 12 ∧ (ofDays days).day ≤ 31 := by
  obtain ⟨hle, hlt⟩ := yearOf_spec days
  obtain ⟨-, hmonth, hbefore, hafter⟩ := monthOf_spec (isLeap (yearOf days))
    (days - daysBeforeYear (yearOf days)) (by
      unfold yearLength at hlt
      omega)
  refine ⟨yearOf_le h, hmonth, ?_⟩
  simp only [ofDays]
  omega

end Library.Civil

namespace Library.IsoText

open Library.Civil

/-- The last `width` decimal digits. -/
def digits : Nat → Nat → List Char
  | 0, _ => []
  | width + 1, n => digits width (n / 10) ++ [Char.ofNat (48 + n % 10)]

def digitValue (c : Char) : Option Nat :=
  if 48 ≤ c.toNat ∧ c.toNat ≤ 57 then some (c.toNat - 48) else none

def number (text : List Char) : Option Nat :=
  text.foldlM (fun n c => (digitValue c).map fun d => 10 * n + d) 0

/-- A number of `width` digits, and what comes after it. -/
def fixed (width : Nat) (text : List Char) : Option (Nat × List Char) :=
  if text.length < width then none
  else (number (text.take width)).map fun n => (n, text.drop width)

theorem length_digits (width n : Nat) : (digits width n).length = width := by
  induction width generalizing n with
  | zero => rfl
  | succ width ih => rw [digits, List.length_append, ih, List.length_singleton]

theorem digitValue_digit {d : Nat} (h : d < 10) : digitValue (Char.ofNat (48 + d)) = some d := by
  have hall : ∀ d : Fin 10, digitValue (Char.ofNat (48 + d)) = some d.val := by decide
  exact hall ⟨d, h⟩

theorem number_digits {width n : Nat} (h : n < 10 ^ width) : number (digits width n) = some n := by
  induction width generalizing n with
  | zero =>
      obtain rfl : n = 0 := by omega
      rfl
  | succ width ih =>
      have hdiv : n / 10 < 10 ^ width := by
        rw [Nat.pow_succ] at h
        omega
      have hmod : n % 10 < 10 := Nat.mod_lt n (by decide)
      have hprefix := ih hdiv
      unfold number at hprefix ⊢
      rw [digits, List.foldlM_append, hprefix]
      simp only [Option.bind_eq_bind, Option.bind_some, List.foldlM_cons, List.foldlM_nil,
        digitValue_digit hmod, Option.map_some, pure, Option.some.injEq]
      omega

theorem fixed_digits {width n : Nat} (h : n < 10 ^ width) (rest : List Char) :
    fixed width (digits width n ++ rest) = some (n, rest) := by
  have hlength := length_digits width n
  unfold fixed
  rw [if_neg (by rw [List.length_append]; omega), List.take_left' hlength,
    List.drop_left' hlength, number_digits h]
  rfl

/-- The text after one character. -/
def expect (c : Char) : List Char → Option (List Char)
  | a :: rest => if a = c then some rest else none
  | [] => none

@[simp]
theorem expect_cons (c : Char) (rest : List Char) : expect c (c :: rest) = some rest :=
  if_pos rfl

theorem expect_none {c : Char} {text : List Char} (h : text.head? ≠ some c) :
    expect c text = none := by
  cases text with
  | nil => rfl
  | cons a rest => exact if_neg fun ha => h (congrArg some ha)

def fractionText (micros : Nat) : List Char :=
  if micros != 0 then '.' :: digits 6 micros else []

/-- `[:SS[.ffffff]]` of the microseconds of a minute; `long` always writes seconds. -/
def secondsText (long : Bool) (micros : Nat) : List Char :=
  if long || micros != 0 then
    ':' :: (digits 2 (micros / 1000000) ++ fractionText (micros % 1000000))
  else []

/-- `HH:MM[:SS[.ffffff]]` of the microseconds of a day. -/
def clockText (long : Bool) (micros : Nat) : List Char :=
  digits 2 (micros / 3600000000) ++ ':' :: (digits 2 (micros / 60000000 % 60) ++
    secondsText long (micros % 60000000))

/-- `[.ffffff]`. -/
def readFraction (text : List Char) : Option (Nat × List Char) :=
  match expect '.' text with
  | none => some (0, text)
  | some text => fixed 6 text

/-- `[:SS[.ffffff]]`, in microseconds. -/
def readSeconds (text : List Char) : Option (Nat × List Char) :=
  match expect ':' text with
  | none => some (0, text)
  | some text => do
      let (seconds, text) ← fixed 2 text
      let (micros, text) ← readFraction text
      if 60 ≤ seconds then none else some (seconds * 1000000 + micros, text)

def readClock (text : List Char) : Option (Nat × List Char) := do
  let (hours, text) ← fixed 2 text
  let text ← expect ':' text
  let (minutes, text) ← fixed 2 text
  let (micros, text) ← readSeconds text
  if 24 ≤ hours ∨ 60 ≤ minutes then none
  else some (hours * 3600000000 + minutes * 60000000 + micros, text)

/-- What may follow a clock time. -/
def Ends (rest : List Char) : Prop := rest.head? ≠ some ':' ∧ rest.head? ≠ some '.'

theorem readFraction_fractionText {micros : Nat} (h : micros < 1000000) {rest : List Char}
    (hrest : Ends rest) : readFraction (fractionText micros ++ rest) = some (micros, rest) := by
  unfold readFraction fractionText
  split_ifs with hzero
  · rw [List.cons_append, expect_cons]
    exact fixed_digits (by omega) rest
  · obtain rfl : micros = 0 := by simpa using hzero
    rw [List.nil_append, expect_none hrest.2]

theorem readSeconds_secondsText (long : Bool) {micros : Nat} (h : micros < 60000000)
    {rest : List Char} (hrest : Ends rest) :
    readSeconds (secondsText long micros ++ rest) = some (micros, rest) := by
  unfold readSeconds secondsText
  split_ifs with hshown
  · have hseconds : micros / 1000000 < 10 ^ 2 := by omega
    have hfraction : micros % 1000000 < 1000000 := by omega
    simp only [List.cons_append, List.append_assoc, expect_cons, fixed_digits hseconds,
      readFraction_fractionText hfraction hrest, Option.bind_eq_bind, Option.bind_some]
    rw [if_neg (by omega), Option.some.injEq, Prod.mk.injEq]
    refine ⟨?_, rfl⟩
    omega
  · obtain ⟨-, rfl⟩ : ¬long = true ∧ micros = 0 := by simpa using hshown
    rw [List.nil_append, expect_none hrest.1]

theorem readClock_clockText (long : Bool) {micros : Nat} (h : micros < 86400000000)
    {rest : List Char} (hrest : Ends rest) :
    readClock (clockText long micros ++ rest) = some (micros, rest) := by
  have hhours : micros / 3600000000 < 10 ^ 2 := by omega
  have hminutes : micros / 60000000 % 60 < 10 ^ 2 := by omega
  have hseconds : micros % 60000000 < 60000000 := by omega
  simp only [readClock, clockText, List.append_assoc, List.cons_append, fixed_digits hhours,
    fixed_digits hminutes, readSeconds_secondsText long hseconds hrest, expect_cons,
    Option.bind_eq_bind, Option.bind_some]
  rw [if_neg (by omega), Option.some.injEq, Prod.mk.injEq]
  refine ⟨?_, rfl⟩
  omega

def dateText (d : Date) : List Char :=
  digits 4 d.year ++ '-' :: (digits 2 d.month ++ '-' :: digits 2 d.day)

/-- A date of the calendar, in days. -/
def readDate (text : List Char) : Option (Nat × List Char) := do
  let (year, text) ← fixed 4 text
  let text ← expect '-' text
  let (month, text) ← fixed 2 text
  let text ← expect '-' text
  let (day, text) ← fixed 2 text
  let days := toDays ⟨year, month, day⟩
  if ofDays days = ⟨year, month, day⟩ then some (days, text) else none

theorem readDate_dateText {days : Nat} (h : days < 3652059) (rest : List Char) :
    readDate (dateText (ofDays days) ++ rest) = some (days, rest) := by
  obtain ⟨hyear, hmonth, hday⟩ := ofDays_bounds h
  have hyear' : (ofDays days).year < 10 ^ 4 := by omega
  have hmonth' : (ofDays days).month < 10 ^ 2 := by omega
  have hday' : (ofDays days).day < 10 ^ 2 := by omega
  simp only [readDate, dateText, List.append_assoc, List.cons_append, fixed_digits hyear',
    fixed_digits hmonth', fixed_digits hday', expect_cons, Option.bind_eq_bind, Option.bind_some]
  rw [toDays_ofDays, if_pos rfl]

end Library.IsoText

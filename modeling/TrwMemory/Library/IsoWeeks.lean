import Mathlib.Data.List.Lex
import Mathlib.Data.String.Basic
import TrwMemory.Library.IsoText

/-!
The weeks of ISO 8601 and the order of dates and their texts. Weeks begin on Mondays, and a week
is of the year that its Thursday is in. Later days have later texts, written as dates or as
weeks.
-/
namespace Library.Civil

theorem isLeap_iff (year : Nat) :
    isLeap year = true ↔ year % 4 = 0 ∧ (year % 100 ≠ 0 ∨ year % 400 = 0) := by
  unfold isLeap
  simp only [Bool.and_eq_true, Bool.or_eq_true, beq_iff_eq, bne_iff_ne]

theorem daysBeforeYear_succ {year : Nat} (h : 1 ≤ year) :
    daysBeforeYear (year + 1) = daysBeforeYear year + yearLength year := by
  obtain ⟨y, rfl⟩ : ∃ y, year = y + 1 := ⟨year - 1, by omega⟩
  have hfour : (y + 1) / 4 = y / 4 + if (y + 1) % 4 = 0 then 1 else 0 := by split <;> omega
  have hcentury : (y + 1) / 100 = y / 100 + if (y + 1) % 100 = 0 then 1 else 0 := by
    split <;> omega
  have hcycle : (y + 1) / 400 = y / 400 + if (y + 1) % 400 = 0 then 1 else 0 := by
    split <;> omega
  have h100 : (y + 1) % 100 = 0 → (y + 1) % 4 = 0 := by omega
  have h400 : (y + 1) % 400 = 0 → (y + 1) % 100 = 0 := by omega
  have hfewer : y / 100 ≤ y / 4 := by omega
  have hleap := isLeap_iff (y + 1)
  unfold daysBeforeYear yearLength
  rw [Nat.add_sub_cancel, Nat.add_sub_cancel, hfour, hcentury, hcycle]
  clear hfour hcentury hcycle
  generalize y / 4 = fours at hfewer ⊢
  generalize y / 100 = centuries at hfewer ⊢
  generalize y / 400 = cycles
  by_cases hy4 : (y + 1) % 4 = 0
  · by_cases hy100 : (y + 1) % 100 = 0
    · by_cases hy400 : (y + 1) % 400 = 0
      · rw [if_pos hy4, if_pos hy100, if_pos hy400, if_pos (hleap.mpr ⟨hy4, .inr hy400⟩)]
        omega
      · rw [if_pos hy4, if_pos hy100, if_neg hy400,
          if_neg fun hl => (hleap.mp hl).2.elim (· hy100) hy400]
        omega
    · rw [if_pos hy4, if_neg hy100, if_neg (mt h400 hy100), if_pos (hleap.mpr ⟨hy4, .inl hy100⟩)]
      omega
  · rw [if_neg hy4, if_neg (mt h100 hy4), if_neg (mt h400 (mt h100 hy4)),
      if_neg fun hl => hy4 (hleap.mp hl).1]
    omega

theorem yearLength_bounds (year : Nat) : 365 ≤ yearLength year ∧ yearLength year ≤ 366 := by
  unfold yearLength
  split <;> omega

theorem daysBeforeYear_le {year later : Nat} (h : 1 ≤ year) (hle : year ≤ later) :
    daysBeforeYear year ≤ daysBeforeYear later := by
  induction later with
  | zero => omega
  | succ later ih =>
      rcases Nat.lt_or_eq_of_le hle with hlt | rfl
      · have hstep := @daysBeforeYear_succ later (by omega)
        have hlater := ih (by omega)
        omega
      · exact Nat.le_refl _

theorem one_le_yearOf (days : Nat) : 1 ≤ yearOf days := Nat.succ_le_of_lt (Nat.succ_pos _)

/-- Days of later years are later. -/
theorem yearOf_mono {days later : Nat} (h : days ≤ later) : yearOf days ≤ yearOf later := by
  by_contra hlt
  have hspec := yearOf_spec days
  have hlater := yearOf_spec later
  have hnext := daysBeforeYear_succ (one_le_yearOf later)
  have hle : daysBeforeYear (yearOf later + 1) ≤ daysBeforeYear (yearOf days) :=
    daysBeforeYear_le (Nat.le_add_left 1 _) (Nat.lt_of_not_le hlt)
  omega

theorem monthOf_mono (leap : Bool) {day later : Nat} (h : day ≤ later) :
    monthOf leap day ≤ monthOf leap later := by
  unfold monthOf
  refine Nat.succ_le_succ ((List.monotone_filter_right _ ?_).length_le)
  intro month hmonth
  rw [decide_eq_true_iff] at hmonth ⊢
  omega

/-- Year, month and day of later days are later. -/
theorem ofDays_lt {days later : Nat} (h : days < later) :
    (ofDays days).year < (ofDays later).year ∨ (ofDays days).year = (ofDays later).year ∧
      ((ofDays days).month < (ofDays later).month ∨ (ofDays days).month = (ofDays later).month ∧
        (ofDays days).day < (ofDays later).day) := by
  have hyear := yearOf_mono (Nat.le_of_lt h)
  obtain ⟨hle, hlt⟩ := yearOf_spec days
  obtain ⟨hle', hlt'⟩ := yearOf_spec later
  simp only [ofDays]
  rcases Nat.lt_or_eq_of_le hyear with hyear | hyear
  · exact .inl hyear
  · refine .inr ⟨hyear, ?_⟩
    rw [← hyear] at hle' hlt' ⊢
    have hmonth := monthOf_mono (isLeap (yearOf days))
      (show days - daysBeforeYear (yearOf days) ≤ later - daysBeforeYear (yearOf days) by omega)
    rcases Nat.lt_or_eq_of_le hmonth with hmonth | hmonth
    · exact .inl hmonth
    · refine .inr ⟨hmonth, ?_⟩
      rw [← hmonth]
      have hspec := monthOf_spec (isLeap (yearOf days)) (days - daysBeforeYear (yearOf days)) (by
        unfold yearLength at hlt
        omega)
      omega

/-- The Monday of the first week. Days count from a Monday. -/
def isoWeek1Monday (year : Nat) : Nat :=
  let first := daysBeforeYear year
  if 3 < first % 7 then first - first % 7 + 7 else first - first % 7

/-- The year and the week of a day. -/
def isoCalendar (days : Nat) : Nat × Nat :=
  let year := yearOf days
  if days < isoWeek1Monday year then
    (year - 1, (days - isoWeek1Monday (year - 1)) / 7 + 1)
  else
    let week := (days - isoWeek1Monday year) / 7
    if 52 ≤ week ∧ isoWeek1Monday (year + 1) ≤ days then (year + 1, 1) else (year, week + 1)

/-- Whether a year has 53 weeks: it starts on a Thursday, or on a Wednesday and is a leap year. -/
def isoLong (year : Nat) : Bool :=
  daysBeforeYear year % 7 == 3 || (daysBeforeYear year % 7 == 2 && isLeap year)

/-- The day of a week, if it is one of the calendar. -/
def fromIsoCalendar (year week day : Nat) : Option Nat :=
  let days := isoWeek1Monday year + (week - 1) * 7 + (day - 1)
  if (1 ≤ year ∧ year ≤ 9999) ∧ (1 ≤ week ∧ week ≤ 52 ∨ week = 53 ∧ isoLong year = true) ∧
      (1 ≤ day ∧ day ≤ 7) ∧ days < 3652059 then some days
  else none

theorem isoWeek1Monday_bounds (year : Nat) :
    isoWeek1Monday year ≤ daysBeforeYear year + 3 ∧ daysBeforeYear year ≤ isoWeek1Monday year + 3 ∧
      isoWeek1Monday year % 7 = 0 := by
  unfold isoWeek1Monday
  dsimp only
  split <;> omega

/-- A year has 52 or 53 weeks. -/
theorem isoWeek1Monday_succ {year : Nat} (h : 1 ≤ year) :
    isoWeek1Monday (year + 1) =
      isoWeek1Monday year + 7 * (if isoLong year then 53 else 52) := by
  have hsucc := daysBeforeYear_succ h
  have hlength : yearLength year = if isLeap year then 366 else 365 := rfl
  unfold isoWeek1Monday isoLong
  dsimp only
  cases hleap : isLeap year with
  | false =>
      rw [hleap, if_neg Bool.false_ne_true] at hlength
      rw [Bool.and_false, Bool.or_false]
      by_cases hthursday : daysBeforeYear year % 7 = 3
      · rw [hthursday]
        split <;> simp <;> omega
      · rw [beq_false_of_ne hthursday]
        split <;> split <;> simp <;> omega
  | true =>
      rw [hleap, if_pos rfl] at hlength
      rw [Bool.and_true]
      by_cases hthursday : daysBeforeYear year % 7 = 3
      · rw [hthursday]
        split <;> simp <;> omega
      · by_cases hwednesday : daysBeforeYear year % 7 = 2
        · rw [hwednesday]
          split <;> simp <;> omega
        · rw [beq_false_of_ne hthursday, beq_false_of_ne hwednesday]
          split <;> split <;> simp <;> omega

theorem isoWeek1Monday_le {year later : Nat} (h : 1 ≤ year) (hle : year ≤ later) :
    isoWeek1Monday year ≤ isoWeek1Monday later := by
  induction later with
  | zero => omega
  | succ later ih =>
      rcases Nat.lt_or_eq_of_le hle with hlt | rfl
      · have hlater := ih (by omega)
        rw [isoWeek1Monday_succ (by omega)]
        omega
      · exact Nat.le_refl _

/-- A day is in its year of weeks. -/
theorem isoCalendar_spec (days : Nat) :
    1 ≤ (isoCalendar days).1 ∧ isoWeek1Monday (isoCalendar days).1 ≤ days ∧
      days < isoWeek1Monday ((isoCalendar days).1 + 1) ∧
      (isoCalendar days).2 = (days - isoWeek1Monday (isoCalendar days).1) / 7 + 1 := by
  obtain ⟨hle, hlt⟩ := yearOf_spec days
  have hyear := one_le_yearOf days
  have hbounds := isoWeek1Monday_bounds (yearOf days)
  have hsucc := daysBeforeYear_succ hyear
  have hlength := yearLength_bounds (yearOf days)
  unfold isoCalendar
  dsimp only
  split
  · rename_i hearly
    -- before the first week, so not in the first year
    have hsecond : 2 ≤ yearOf days := by
      by_contra hfirst
      have hone : yearOf days = 1 := by omega
      rw [hone] at hearly
      exact absurd hearly (Nat.not_lt_zero days)
    obtain ⟨y, hy⟩ : ∃ y, yearOf days = y + 1 := ⟨yearOf days - 1, by omega⟩
    have hprev := @daysBeforeYear_succ y (by omega)
    have hprevLength := yearLength_bounds y
    have hprevBounds := isoWeek1Monday_bounds y
    rw [hy] at hle hearly
    rw [hy, Nat.add_sub_cancel]
    dsimp only
    refine ⟨by omega, by omega, hearly, rfl⟩
  · rename_i hstarted
    have hnextBounds := isoWeek1Monday_bounds (yearOf days + 1)
    split
    · rename_i hnext
      have hafter := @daysBeforeYear_succ (yearOf days + 1) (by omega)
      have hafterLength := yearLength_bounds (yearOf days + 1)
      have hafterBounds := isoWeek1Monday_bounds (yearOf days + 1 + 1)
      dsimp only
      omega
    · rename_i hstays
      have hweeks := isoWeek1Monday_succ hyear
      dsimp only
      refine ⟨hyear, by omega, ?_, rfl⟩
      split at hweeks <;> omega

/-- The year and the week of a day, from the year that it is in. -/
theorem isoCalendar_eq {days year : Nat} (h : 1 ≤ year) (hle : isoWeek1Monday year ≤ days)
    (hlt : days < isoWeek1Monday (year + 1)) :
    isoCalendar days = (year, (days - isoWeek1Monday year) / 7 + 1) := by
  obtain ⟨hone, hle', hlt', hweek⟩ := isoCalendar_spec days
  have hyear : (isoCalendar days).1 = year := by
    rcases Nat.lt_trichotomy (isoCalendar days).1 year with hbefore | heq | hafter
    · have hnext : isoWeek1Monday ((isoCalendar days).1 + 1) ≤ isoWeek1Monday year :=
        isoWeek1Monday_le (by omega) hbefore
      omega
    · exact heq
    · have hnext : isoWeek1Monday (year + 1) ≤ isoWeek1Monday (isoCalendar days).1 :=
        isoWeek1Monday_le (by omega) hafter
      omega
  rw [hyear] at hweek
  exact Prod.ext hyear hweek

/-- Weeks of later Sundays are later. -/
theorem isoCalendar_lt {days later : Nat} (h : days < later) (hdays : days % 7 = 6)
    (hlater : later % 7 = 6) : (isoCalendar days).1 < (isoCalendar later).1 ∨
      (isoCalendar days).1 = (isoCalendar later).1 ∧
        (isoCalendar days).2 < (isoCalendar later).2 := by
  obtain ⟨hone, hle, hlt, hweek⟩ := isoCalendar_spec days
  obtain ⟨hone', hle', hlt', hweek'⟩ := isoCalendar_spec later
  rcases Nat.lt_trichotomy (isoCalendar days).1 (isoCalendar later).1 with hbefore | heq | hafter
  · exact .inl hbefore
  · refine .inr ⟨heq, ?_⟩
    have hmonday := (isoWeek1Monday_bounds (isoCalendar later).1).2.2
    rw [hweek, hweek', heq]
    rw [heq] at hle
    omega
  · have hnext : isoWeek1Monday ((isoCalendar later).1 + 1) ≤ isoWeek1Monday (isoCalendar days).1 :=
      isoWeek1Monday_le (by omega) hafter
    omega

/-- A week of the calendar that is read is that of its Sunday. -/
theorem isoCalendar_fromIsoCalendar {year week days : Nat}
    (h : fromIsoCalendar year week 7 = some days) :
    isoCalendar days = (year, week) ∧ days % 7 = 6 ∧ days < 3652059 := by
  rw [fromIsoCalendar] at h
  split at h
  · rename_i hvalid
    obtain ⟨⟨hyear, -⟩, hweek, -, hdays⟩ := hvalid
    obtain rfl := Option.some.inj h
    have hmonday := (isoWeek1Monday_bounds year).2.2
    have hsucc := isoWeek1Monday_succ hyear
    have hfits : week ≤ if isoLong year then 53 else 52 := by
      rcases hweek with hweek | ⟨rfl, hlong⟩
      · split <;> omega
      · rw [if_pos hlong]
    have hone : 1 ≤ week := by omega
    refine ⟨?_, by omega, hdays⟩
    rw [isoCalendar_eq hyear (by omega) (by omega)]
    exact Prod.ext rfl (by dsimp only; omega)
  · cases h

/-- The week of a Sunday is read as that Sunday. -/
theorem fromIsoCalendar_isoCalendar {days : Nat} (h : days < 3652059) (hsunday : days % 7 = 6) :
    fromIsoCalendar (isoCalendar days).1 (isoCalendar days).2 7 = some days := by
  obtain ⟨hone, hle, hlt, hweek⟩ := isoCalendar_spec days
  have hmonday := (isoWeek1Monday_bounds (isoCalendar days).1).2.2
  have hsucc := isoWeek1Monday_succ hone
  have hyear : (isoCalendar days).1 ≤ 9999 := by
    by_contra hbeyond
    have hlast := isoWeek1Monday_le (show 1 ≤ 10000 by decide) (Nat.lt_of_not_le hbeyond)
    have hstart : isoWeek1Monday 10000 = 3652061 := by decide
    omega
  have hdays : isoWeek1Monday (isoCalendar days).1 + ((isoCalendar days).2 - 1) * 7 + (7 - 1) =
      days := by omega
  rw [fromIsoCalendar, hdays, if_pos]
  refine ⟨⟨hone, hyear⟩, ?_, by decide, h⟩
  cases hlong : isoLong (isoCalendar days).1 with
  | false =>
      rw [hlong, if_neg Bool.false_ne_true] at hsucc
      exact .inl (by omega)
  | true =>
      rw [hlong, if_pos rfl] at hsucc
      rcases Nat.lt_or_ge (isoCalendar days).2 53 with hshort | hlast
      · exact .inl (by omega)
      · exact .inr ⟨by omega, rfl⟩

end Library.Civil

namespace Library.IsoText

open Library.Civil

/-- Texts are ordered by their first parts, where these are as long as each other. -/
theorem append_lt_append {first first' rest rest' : List Char}
    (hlength : first.length = first'.length)
    (h : first < first' ∨ first = first' ∧ rest < rest') : first ++ rest < first' ++ rest' := by
  induction first generalizing first' with
  | nil =>
      obtain rfl := List.length_eq_zero_iff.mp hlength.symm
      exact (h.resolve_left (List.not_lt_nil [])).2
  | cons c first ih =>
      cases first' with
      | nil => cases hlength
      | cons c' first' =>
          have hlength := Nat.succ.inj hlength
          rw [List.cons_append, List.cons_append, List.cons_lt_cons_iff]
          rcases h with hlt | ⟨heq, hrest⟩
          · exact (List.cons_lt_cons_iff.mp hlt).imp_right fun ⟨hc, hfirst⟩ =>
              ⟨hc, ih hlength (.inl hfirst)⟩
          · obtain ⟨hc, hfirst⟩ := List.cons.inj heq
            exact .inr ⟨hc, ih hlength (.inr ⟨hfirst, hrest⟩)⟩

theorem digit_lt {a b : Nat} (h : a < b) (hb : b < 10) :
    Char.ofNat (48 + a) < Char.ofNat (48 + b) := by
  have hall : ∀ a b : Fin 10, a < b → Char.ofNat (48 + a) < Char.ofNat (48 + b) := by decide
  exact hall ⟨a, Nat.lt_trans h hb⟩ ⟨b, hb⟩ h

/-- Of numbers with as many digits, the greater has the later text. -/
theorem digits_lt {width n m : Nat} (h : n < m) (hm : m < 10 ^ width) :
    digits width n < digits width m := by
  induction width generalizing n m with
  | zero => omega
  | succ width ih =>
      rw [digits, digits]
      refine append_lt_append (by rw [length_digits, length_digits]) ?_
      rcases Nat.lt_or_ge (n / 10) (m / 10) with hlt | hge
      · refine .inl (ih hlt ?_)
        rw [Nat.pow_succ] at hm
        omega
      · have heq : n / 10 = m / 10 := by omega
        refine .inr ⟨by rw [heq], List.cons_lt_cons_iff.mpr (.inl (digit_lt ?_ ?_))⟩ <;> omega

/-- A later day has the later date. -/
theorem dateText_lt {days later : Nat} (h : days < later) (hlater : later < 3652059) :
    dateText (ofDays days) < dateText (ofDays later) := by
  obtain ⟨hyear, hmonth, hday⟩ := ofDays_bounds hlater
  have hlength (width n m : Nat) : (digits width n).length = (digits width m).length := by
    rw [length_digits, length_digits]
  rw [dateText, dateText]
  refine append_lt_append (hlength _ _ _) ?_
  rcases ofDays_lt h with hlt | ⟨heq, hrest⟩
  · exact .inl (digits_lt hlt (by omega))
  · refine .inr ⟨by rw [heq], List.cons_lt_cons_iff.mpr (.inr ⟨rfl, ?_⟩)⟩
    refine append_lt_append (hlength _ _ _) ?_
    rcases hrest with hlt | ⟨heq, hlt⟩
    · exact .inl (digits_lt hlt (by omega))
    · exact .inr ⟨by rw [heq], List.cons_lt_cons_iff.mpr (.inr ⟨rfl, digits_lt hlt (by omega)⟩)⟩

/-- The year and the week, as `YYYY-Www`. -/
def weekText (week : Nat × Nat) : List Char := digits 4 week.1 ++ '-' :: 'W' :: digits 2 week.2

theorem weekText_lt {week later : Nat × Nat} (hyear : later.1 < 10000) (hweek : later.2 < 100)
    (h : week.1 < later.1 ∨ week.1 = later.1 ∧ week.2 < later.2) :
    weekText week < weekText later := by
  refine append_lt_append (by rw [length_digits, length_digits]) ?_
  rcases h with hlt | ⟨heq, hlt⟩
  · exact .inl (digits_lt hlt (by omega))
  · refine .inr ⟨by rw [heq], List.cons_lt_cons_iff.mpr (.inr ⟨rfl, ?_⟩)⟩
    exact List.cons_lt_cons_iff.mpr (.inr ⟨rfl, digits_lt hlt (by omega)⟩)

end Library.IsoText

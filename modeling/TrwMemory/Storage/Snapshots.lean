import TrwMemory.Library.IsoWeeks
import TrwMemory.Library.StableSort

/-!
Snapshots by day and by week (`storage/_snapshot.py`): what the directories of the two tiers hold
after a snapshot, and which one is the latest. Which names a tier counts is decided by a shape,
which of them are old by the order of the names, and which is the latest by the date that a name
encodes.

Names of snapshots in ASCII: those of a tier's shape that encode a date are the names that are
written on the days of the tier, and they are ordered as these days are.

A directory is the names of its regular files. The digits of Unicode are a parameter. Snapshots
are written and files are deleted without an error; their contents, restoring and the checks of
paths are not modelled.
-/
namespace TrwMemory.Storage

open Library Library.Civil Library.IsoText

section Tiers

/-- What `int` makes of a character, and `\d` of a regular expression. -/
structure UnicodeDigits where
  value : Char → Option Nat
  ascii : ∀ c, c.toNat < 128 → value c = digitValue c

inductive Tier where
  | daily | weekly
  deriving DecidableEq, Repr

/-- A digit where the pattern has `0`, and else what it has. -/
def fits (u : UnicodeDigits) : List Char → List Char → Bool
  | [], [] => true
  | p :: pattern, c :: text =>
      (if p = '0' then (u.value c).isSome else c == p) && fits u pattern text
  | _, _ => false

def SUFFIX : List Char := ['.', 'd', 'b']

/-- `_DAILY_RE` and `_WEEKLY_RE`. -/
def Tier.pattern : Tier → List Char
  | daily => ['0', '0', '0', '0', '-', '0', '0', '-', '0', '0'] ++ SUFFIX
  | weekly => ['0', '0', '0', '0', '-', 'W', '0', '0'] ++ SUFFIX

def fullmatch (u : UnicodeDigits) (tier : Tier) (name : String) : Bool :=
  fits u tier.pattern name.toList

/-- `int(text)`. -/
def readInt (u : UnicodeDigits) (text : List Char) : Option Nat :=
  text.foldlM (fun n c => (u.value c).map fun d => 10 * n + d) 0

/-- `_parse_snapshot_date`. A week stands for its Sunday. -/
def parseSnapshotDate (u : UnicodeDigits) (name : String) : Option Nat :=
  if fullmatch u .daily name then
    match readDate (name.toList.take 10) with
    | some (days, []) => some days
    | _ => none
  else if fullmatch u .weekly name then do
    let year ← readInt u (name.toList.take 4)
    let week ← readInt u ((name.toList.drop 6).take 2)
    fromIsoCalendar year week 7
  else none

structure Listing where
  names : List String
  nodup : names.Nodup

namespace Listing

/-- A snapshot at a name, new or written over. -/
def create (dir : Listing) (name : String) : Listing where
  names := if name ∈ dir.names then dir.names else dir.names ++ [name]
  nodup := by
    split
    · exact dir.nodup
    · rename_i hnew
      exact List.nodup_append.mpr ⟨dir.nodup, List.nodup_singleton name, fun a ha b hb heq =>
        hnew (List.mem_singleton.mp hb ▸ heq ▸ ha)⟩

def unlink (dir : Listing) (victims : List String) : Listing where
  names := dir.names.filter fun name => !victims.contains name
  nodup := dir.nodup.filter _

end Listing

/-- `_daily_dir` and `_weekly_dir`. -/
abbrev SnapshotDirs := Tier → Listing

variable (u : UnicodeDigits)

/-- `_sorted_parseable`. -/
def sortedParseable (tier : Tier) (dir : Listing) (reverse : Bool) : List String :=
  let files := dir.names.filter (fullmatch u tier)
  if reverse then sortDesc id files else sortBy id files

/-- `_prune_tier`: the counts that are kept and pruned, and the directory. -/
def pruneTier (tier : Tier) (dir : Listing) (keep : Nat) : (Nat × Nat) × Listing :=
  let files := sortedParseable u tier dir false
  if files.length ≤ keep then ((files.length, 0), dir)
  else
    let victims := files.take (files.length - keep)
    ((files.length - victims.length, victims.length), dir.unlink victims)

structure SnapshotRotationResult where
  dailyKept : Nat
  dailyPruned : Nat
  weeklyKept : Nat
  weeklyPruned : Nat

/-- `rotate_snapshots`. A negative budget skips its tier. -/
def rotateSnapshots (dirs : SnapshotDirs) (keepDaily keepWeekly : Int) :
    SnapshotRotationResult × SnapshotDirs :=
  let ((dailyKept, dailyPruned), daily) :=
    if 0 ≤ keepDaily then pruneTier u .daily (dirs .daily) keepDaily.toNat
    else ((0, 0), dirs .daily)
  let ((weeklyKept, weeklyPruned), weekly) :=
    if 0 ≤ keepWeekly then pruneTier u .weekly (dirs .weekly) keepWeekly.toNat
    else ((0, 0), dirs .weekly)
  (⟨dailyKept, dailyPruned, weeklyKept, weeklyPruned⟩,
    fun
      | .daily => daily
      | .weekly => weekly)

/-- A day of the calendar, counted from 0001-01-01, a Monday. -/
structure Day where
  days : Nat
  inRange : days < 3652059

def Day.isSunday (day : Day) : Bool := day.days % 7 == 6

/-- `YYYY-MM-DD.db`, and `YYYY-Www.db` of the week of a day. -/
def snapshotName (tier : Tier) (days : Nat) : String :=
  String.ofList (match tier with
    | .daily => dateText (ofDays days) ++ SUFFIX
    | .weekly => weekText (isoCalendar days) ++ SUFFIX)

/-- `take_daily_snapshot`. -/
def takeDailySnapshot (dirs : SnapshotDirs) (keepDaily : Int) (now : Day) :
    String × SnapshotDirs :=
  let name := snapshotName .daily now.days
  let created := Function.update dirs .daily ((dirs .daily).create name)
  (name, (rotateSnapshots u created keepDaily (-1)).2)

/-- `take_weekly_snapshot`. -/
def takeWeeklySnapshot (dirs : SnapshotDirs) (keepWeekly : Int) (now : Day) (force : Bool) :
    Option String × SnapshotDirs :=
  if !force && !now.isSunday then (none, dirs)
  else
    let name := snapshotName .weekly now.days
    let created := Function.update dirs .weekly ((dirs .weekly).create name)
    (some name, (rotateSnapshots u created (-1) keepWeekly).2)

/-- `list_snapshots`. -/
def listSnapshots (dirs : SnapshotDirs) (tier : Tier) : List String :=
  sortedParseable u tier (dirs tier) true

/-- Higher wins ties. -/
def Tier.rank : Tier → Nat
  | daily => 1
  | weekly => 0

/-- A file of a tier and the key that it is compared by. -/
structure Candidate where
  date : Nat
  tier : Tier
  name : String
  deriving DecidableEq

def Candidate.beats (c best : Candidate) : Bool :=
  decide (best.date < c.date) || (best.date == c.date && decide (best.tier.rank < c.tier.rank))

/-- One turn of the loop of `latest_snapshot`. -/
def betterOf (tier : Tier) (best : Option Candidate) (name : String) : Option Candidate :=
  match parseSnapshotDate u name with
  | none => best
  | some date =>
      if best.all (Candidate.beats ⟨date, tier, name⟩) then some ⟨date, tier, name⟩ else best

/-- `latest_snapshot`. -/
def latestSnapshot (dirs : SnapshotDirs) : Option Candidate :=
  let best := (listSnapshots u dirs .daily).foldl (betterOf u .daily) none
  (listSnapshots u dirs .weekly).foldl (betterOf u .weekly) best

end Tiers

section Shapes

variable {u : UnicodeDigits}

theorem fits_length {pattern text : List Char} (h : fits u pattern text = true) :
    pattern.length = text.length := by
  induction pattern generalizing text with
  | nil =>
      cases text with
      | nil => rfl
      | cons c text => cases h
  | cons p pattern ih =>
      cases text with
      | nil => cases h
      | cons c text =>
          rw [fits, Bool.and_eq_true] at h
          rw [List.length_cons, List.length_cons, ih h.2]

theorem fits_cons {p : Char} (hp : p ≠ '0') (pattern text : List Char) :
    fits u (p :: pattern) (p :: text) = fits u pattern text := by
  rw [fits, if_neg hp, beq_self_eq_true, Bool.true_and]

theorem value_digit {d : Nat} (h : d < 10) : u.value (Char.ofNat (48 + d)) = some d := by
  have hall : ∀ d : Fin 10, (Char.ofNat (48 + d)).toNat < 128 := by decide
  rw [u.ascii _ (hall ⟨d, h⟩), digitValue_digit h]

theorem fits_digits (width n : Nat) (pattern text : List Char) :
    fits u (List.replicate width '0' ++ pattern) (digits width n ++ text) =
      fits u pattern text := by
  induction width generalizing n pattern text with
  | zero => rfl
  | succ width ih =>
      rw [List.replicate_succ', digits, List.append_assoc, List.append_assoc, ih]
      change fits u ('0' :: pattern) (_ :: text) = _
      rw [fits, if_pos rfl, value_digit (Nat.mod_lt n (by decide)), Option.isSome_some,
        Bool.true_and]

theorem readInt_digits {width n : Nat} (h : n < 10 ^ width) :
    readInt u (digits width n) = some n := by
  induction width generalizing n with
  | zero =>
      obtain rfl : n = 0 := by omega
      rfl
  | succ width ih =>
      have hprefix : readInt u (digits width (n / 10)) = some (n / 10) := ih (by
        rw [Nat.pow_succ] at h
        omega)
      have hmod : n % 10 < 10 := Nat.mod_lt n (by decide)
      unfold readInt at hprefix ⊢
      rw [digits, List.foldlM_append, hprefix]
      simp only [Option.bind_eq_bind, Option.bind_some, List.foldlM_cons, List.foldlM_nil,
        value_digit hmod, Option.map_some, pure, Option.some.injEq]
      omega

/-- Digits in ASCII are the digits of a number. -/
theorem eq_digits {text : List Char} (h : ∀ c ∈ text, (digitValue c).isSome = true) :
    ∃ n < 10 ^ text.length, text = digits text.length n := by
  induction text using List.reverseRecOn with
  | nil => exact ⟨0, by decide, rfl⟩
  | append_singleton text c ih =>
      obtain ⟨n, hn, htext⟩ := ih fun c hc => h c (List.mem_append_left _ hc)
      have hc := h c (List.mem_append_right _ (List.mem_singleton_self c))
      rw [digitValue] at hc
      split at hc
      · rename_i hrange
        refine ⟨10 * n + (c.toNat - 48), ?_, ?_⟩
        · rw [List.length_append, List.length_singleton, Nat.pow_succ]
          omega
        · have hdiv : (10 * n + (c.toNat - 48)) / 10 = n := by omega
          have hmod : 48 + (10 * n + (c.toNat - 48)) % 10 = c.toNat := by omega
          rw [List.length_append, List.length_singleton, digits, hdiv, hmod, ← htext,
            Char.ofNat_toNat]
      · cases hc

/-- What fits some digits and more. -/
theorem fits_split {width : Nat} {pattern text : List Char}
    (h : fits u (List.replicate width '0' ++ pattern) text = true)
    (hascii : ∀ c ∈ text, c.toNat < 128) :
    ∃ n < 10 ^ width, ∃ rest, text = digits width n ++ rest ∧ fits u pattern rest = true := by
  have hfront : ∀ width text, fits u (List.replicate width '0' ++ pattern) text = true →
      (∀ c ∈ text, c.toNat < 128) → ∃ front rest, text = front ++ rest ∧ front.length = width ∧
        (∀ c ∈ front, (digitValue c).isSome = true) ∧ fits u pattern rest = true := by
    intro width
    induction width with
    | zero => exact fun text h _ => ⟨[], text, rfl, rfl, fun c hc => (by cases hc), h⟩
    | succ width ih =>
        intro text h hascii
        cases text with
        | nil => cases h
        | cons c text =>
            rw [List.replicate_succ, List.cons_append, fits, if_pos rfl, Bool.and_eq_true,
              u.ascii c (hascii c List.mem_cons_self)] at h
            obtain ⟨front, rest, rfl, hlength, hdigits, hrest⟩ :=
              ih text h.2 fun c hc => hascii c (List.mem_cons_of_mem _ hc)
            refine ⟨c :: front, rest, rfl, congrArg Nat.succ hlength, ?_, hrest⟩
            exact List.forall_mem_cons.mpr ⟨h.1, hdigits⟩
  obtain ⟨front, rest, htext, hlength, hdigits, hrest⟩ := hfront width text h hascii
  obtain ⟨n, hn, heq⟩ := eq_digits hdigits
  rw [hlength] at hn heq
  exact ⟨n, hn, rest, by rw [htext, heq], hrest⟩

theorem fits_literal {p : Char} {pattern text : List Char} (hp : p ≠ '0')
    (h : fits u (p :: pattern) text = true) : ∃ rest, text = p :: rest ∧
      fits u pattern rest = true := by
  cases text with
  | nil => cases h
  | cons c text =>
      rw [fits, if_neg hp, Bool.and_eq_true, beq_iff_eq] at h
      exact ⟨text, by rw [h.1], h.2⟩

theorem fits_suffix {text : List Char} (h : fits u SUFFIX text = true) : text = SUFFIX := by
  obtain ⟨afterDot, rfl, hdot⟩ := fits_literal (by decide) h
  obtain ⟨afterD, rfl, hd⟩ := fits_literal (by decide) hdot
  obtain ⟨rest, rfl, hb⟩ := fits_literal (by decide) hd
  cases rest with
  | nil => rfl
  | cons c rest => cases hb

/-- A name of the daily shape. -/
theorem fits_daily {text : List Char} (h : fits u Tier.daily.pattern text = true)
    (hascii : ∀ c ∈ text, c.toNat < 128) : ∃ date : Date, date.year < 10 ^ 4 ∧
      date.month < 10 ^ 2 ∧ date.day < 10 ^ 2 ∧ text = dateText date ++ SUFFIX := by
  obtain ⟨year, hyear, afterYear, rfl, hrest⟩ := @fits_split u 4 _ _ h hascii
  have hascii' := (List.forall_mem_append.mp hascii).2
  obtain ⟨beforeMonth, rfl, hmonths⟩ := fits_literal (by decide) hrest
  have hmonthAscii := (List.forall_mem_cons.mp hascii').2
  obtain ⟨month, hmonth, afterMonth, rfl, hdash⟩ := @fits_split u 2 _ _ hmonths hmonthAscii
  have hdayAscii := (List.forall_mem_append.mp hmonthAscii).2
  obtain ⟨beforeDay, rfl, hdays⟩ := fits_literal (by decide) hdash
  obtain ⟨day, hday, suffix, rfl, hsuffix⟩ :=
    @fits_split u 2 _ _ hdays (List.forall_mem_cons.mp hdayAscii).2
  rw [fits_suffix hsuffix]
  exact ⟨⟨year, month, day⟩, hyear, hmonth, hday, by simp [dateText]⟩

/-- A name of the weekly shape. -/
theorem fits_weekly {text : List Char} (h : fits u Tier.weekly.pattern text = true)
    (hascii : ∀ c ∈ text, c.toNat < 128) : ∃ week : Nat × Nat, week.1 < 10 ^ 4 ∧
      week.2 < 10 ^ 2 ∧ text = weekText week ++ SUFFIX := by
  obtain ⟨year, hyear, afterYear, rfl, hrest⟩ := @fits_split u 4 _ _ h hascii
  have hascii' := (List.forall_mem_append.mp hascii).2
  obtain ⟨beforeW, rfl, hw⟩ := fits_literal (by decide) hrest
  obtain ⟨beforeWeek, rfl, hweeks⟩ := fits_literal (by decide) hw
  have hweekAscii := (List.forall_mem_cons.mp (List.forall_mem_cons.mp hascii').2).2
  obtain ⟨week, hweek, suffix, rfl, hsuffix⟩ := @fits_split u 2 _ _ hweeks hweekAscii
  rw [fits_suffix hsuffix]
  exact ⟨(year, week), hyear, hweek, by simp [weekText]⟩

end Shapes

/-- A day that a tier has names of. -/
def HasName (tier : Tier) (days : Nat) : Prop :=
  days < 3652059 ∧ (tier = .weekly → days % 7 = 6)

variable {u : UnicodeDigits}

theorem isoCalendar_bounds {days : Nat} (h : days < 3652059) :
    (isoCalendar days).1 < 10 ^ 4 ∧ (isoCalendar days).2 < 10 ^ 2 := by
  obtain ⟨hone, hle, hlt, hweek⟩ := isoCalendar_spec days
  have hsucc := isoWeek1Monday_succ hone
  constructor
  · by_contra hbeyond
    have hlast := isoWeek1Monday_le (show 1 ≤ 10000 by decide) (Nat.le_of_not_lt hbeyond)
    have hstart : isoWeek1Monday 10000 = 3652061 := by decide
    omega
  · split at hsucc <;> omega

theorem toList_daily (days : Nat) :
    (snapshotName .daily days).toList = dateText (ofDays days) ++ SUFFIX := String.toList_ofList

theorem toList_weekly (days : Nat) :
    (snapshotName .weekly days).toList = weekText (isoCalendar days) ++ SUFFIX :=
  String.toList_ofList

/-- The days of a week have one name. -/
theorem snapshotName_sunday (days : Nat) :
    snapshotName .weekly (days - days % 7 + 6) = snapshotName .weekly days := by
  obtain ⟨hone, hle, hlt, hweek⟩ := isoCalendar_spec days
  have hmonday := (isoWeek1Monday_bounds (isoCalendar days).1).2.2
  have hnext := (isoWeek1Monday_bounds ((isoCalendar days).1 + 1)).2.2
  have hsame : isoCalendar (days - days % 7 + 6) = isoCalendar days := by
    rw [isoCalendar_eq hone (by omega) (by omega)]
    refine Prod.ext rfl ?_
    rw [hweek]
    omega
  rw [snapshotName, snapshotName, hsame]

theorem fullmatch_snapshotName {tier : Tier} {days : Nat} :
    fullmatch u tier (snapshotName tier days) = true := by
  have hsuffix : fits u SUFFIX SUFFIX = true := by
    rw [SUFFIX, fits_cons (by decide), fits_cons (by decide), fits_cons (by decide), fits]
  rw [fullmatch]
  cases tier with
  | daily =>
      have hyear := fits_digits (u := u) 4 (ofDays days).year
      have hshort := fits_digits (u := u) 2
      rw [toList_daily, dateText, List.append_assoc]
      refine (hyear _ _).trans ?_
      rw [List.cons_append, List.append_assoc]
      refine (fits_cons (by decide) _ _).trans ((hshort _ _ _).trans ?_)
      rw [List.cons_append]
      exact (fits_cons (by decide) _ _).trans ((hshort _ _ _).trans hsuffix)
  | weekly =>
      have hyear := fits_digits (u := u) 4 (isoCalendar days).1
      have hshort := fits_digits (u := u) 2
      rw [toList_weekly, weekText, List.append_assoc]
      refine (hyear _ _).trans ?_
      rw [List.cons_append, List.cons_append]
      refine (fits_cons (by decide) _ _).trans ((fits_cons (by decide) _ _).trans ?_)
      exact (hshort _ _ _).trans hsuffix

/-- A text is of the shape of one tier at most. -/
theorem fullmatch_weekly {name : String} (h : fullmatch u .weekly name = true) :
    fullmatch u .daily name = false := by
  refine Bool.eq_false_iff.mpr fun hdaily => ?_
  have hlong := fits_length hdaily
  rw [← fits_length h] at hlong
  exact absurd hlong (by decide)

/-- What a daily name is parsed as, with the date that it is made of. -/
theorem parse_daily {name : String} {date : Date} (hmatch : fullmatch u .daily name = true)
    (hname : name.toList = dateText date ++ SUFFIX) (hyear : date.year < 10 ^ 4)
    (hmonth : date.month < 10 ^ 2) (hday : date.day < 10 ^ 2) :
    parseSnapshotDate u name =
      if ofDays (toDays date) = date then some (toDays date) else none := by
  have hlength : (dateText date).length = 10 := by
    simp [dateText, length_digits]
  rw [parseSnapshotDate, if_pos hmatch, hname, List.take_left' hlength, dateText]
  have hsplit := List.append_nil (digits 2 date.day)
  rw [← hsplit]
  simp only [readDate, fixed_digits hyear, fixed_digits hmonth, fixed_digits hday, expect_cons,
    Option.bind_eq_bind, Option.bind_some]
  split
  · rename_i hmatch
    split at hmatch
    · rename_i hdate
      rw [if_pos hdate]
      cases hmatch
      rfl
    · cases hmatch
  · rename_i hnone
    split
    · rename_i hdate
      rw [if_pos hdate] at hnone
      exact absurd rfl (hnone (toDays date))
    · rfl

/-- What a weekly name is parsed as. -/
theorem parse_weekly {name : String} {week : Nat × Nat} (hmatch : fullmatch u .weekly name = true)
    (hname : name.toList = weekText week ++ SUFFIX) (hyear : week.1 < 10 ^ 4)
    (hweek : week.2 < 10 ^ 2) :
    parseSnapshotDate u name = fromIsoCalendar week.1 week.2 7 := by
  have htext :
      weekText week ++ SUFFIX = digits 4 week.1 ++ '-' :: 'W' :: (digits 2 week.2 ++ SUFFIX) := by
    simp [weekText]
  have hfirst : (weekText week ++ SUFFIX).take 4 = digits 4 week.1 := by
    rw [htext, List.take_left' (length_digits 4 _)]
  have hsecond : ((weekText week ++ SUFFIX).drop 6).take 2 = digits 2 week.2 := by
    have hdrop : (weekText week ++ SUFFIX).drop 6 = digits 2 week.2 ++ SUFFIX := by
      have hsplit :
          (weekText week ++ SUFFIX).drop 6 = ((weekText week ++ SUFFIX).drop 4).drop 2 := by
        rw [List.drop_drop]
      rw [hsplit, htext, List.drop_left' (length_digits 4 _)]
      rfl
    rw [hdrop, List.take_left' (length_digits 2 _)]
  rw [parseSnapshotDate, fullmatch_weekly hmatch, if_neg Bool.false_ne_true, if_pos hmatch, hname,
    hfirst, hsecond, readInt_digits hyear, readInt_digits hweek]
  rfl

/-- The name of a day encodes it. -/
theorem parse_snapshotName {tier : Tier} {days : Nat} (h : HasName tier days) :
    parseSnapshotDate u (snapshotName tier days) = some days := by
  cases tier with
  | daily =>
      obtain ⟨hyear, hmonth, hday⟩ := ofDays_bounds h.1
      rw [parse_daily fullmatch_snapshotName (toList_daily days) (by omega) (by omega) (by omega),
        toDays_ofDays, if_pos rfl]
  | weekly =>
      obtain ⟨hyear, hweek⟩ := isoCalendar_bounds h.1
      rw [parse_weekly fullmatch_snapshotName (toList_weekly days) hyear hweek,
        fromIsoCalendar_isoCalendar h.1 (h.2 rfl)]

theorem ascii_digits {width n : Nat} {c : Char} (h : c ∈ digits width n) : c.toNat < 128 := by
  induction width generalizing n with
  | zero => cases h
  | succ width ih =>
      rw [digits, List.mem_append, List.mem_singleton] at h
      have hall : ∀ d : Fin 10, (Char.ofNat (48 + d)).toNat < 128 := by decide
      rcases h with hmem | rfl
      · exact ih hmem
      · exact hall ⟨n % 10, Nat.mod_lt n (by decide)⟩

theorem ascii_snapshotName {tier : Tier} {days : Nat} :
    ∀ c ∈ (snapshotName tier days).toList, c.toNat < 128 := by
  intro c hc
  cases tier with
  | daily =>
      rw [toList_daily, dateText, SUFFIX] at hc
      simp only [List.mem_append, List.mem_cons, List.not_mem_nil, or_false] at hc
      rcases hc with (hdigit | rfl | hdigit | rfl | hdigit) | rfl | rfl | rfl
      · exact ascii_digits hdigit
      · decide
      · exact ascii_digits hdigit
      · decide
      · exact ascii_digits hdigit
      · decide
      · decide
      · decide
  | weekly =>
      rw [toList_weekly, weekText, SUFFIX] at hc
      simp only [List.mem_append, List.mem_cons, List.not_mem_nil, or_false] at hc
      rcases hc with (hdigit | rfl | rfl | hdigit) | rfl | rfl | rfl
      · exact ascii_digits hdigit
      · decide
      · decide
      · exact ascii_digits hdigit
      · decide
      · decide
      · decide

/-- A name in ASCII that encodes a day of its tier is the name of that day. -/
theorem eq_snapshotName {tier : Tier} {name : String} {days : Nat}
    (hmatch : fullmatch u tier name = true) (hascii : ∀ c ∈ name.toList, c.toNat < 128)
    (hparse : parseSnapshotDate u name = some days) :
    HasName tier days ∧ name = snapshotName tier days := by
  cases tier with
  | daily =>
      obtain ⟨date, hyear, hmonth, hday, hname⟩ := fits_daily hmatch hascii
      rw [parse_daily hmatch hname hyear hmonth hday] at hparse
      split at hparse
      · rename_i hdate
        obtain rfl := Option.some.inj hparse
        have hlast := yearOf_spec (toDays date)
        have hdateYear : yearOf (toDays date) = date.year := congrArg Date.year hdate
        have hend : daysBeforeYear 10000 = 3652059 := by decide
        have hnext := daysBeforeYear_succ (one_le_yearOf (toDays date))
        have hle : daysBeforeYear (yearOf (toDays date) + 1) ≤ daysBeforeYear 10000 :=
          daysBeforeYear_le (by omega) (by omega)
        refine ⟨⟨by omega, nofun⟩, String.toList_injective ?_⟩
        rw [hname, toList_daily, hdate]
      · cases hparse
  | weekly =>
      obtain ⟨week, hyear, hweek, hname⟩ := fits_weekly hmatch hascii
      rw [parse_weekly hmatch hname hyear hweek] at hparse
      obtain ⟨hcalendar, hsunday, hdays⟩ := isoCalendar_fromIsoCalendar hparse
      refine ⟨⟨hdays, fun _ => hsunday⟩, String.toList_injective ?_⟩
      rw [hname, toList_weekly, hcalendar]

/-- Later days have later names. -/
theorem snapshotName_lt {tier : Tier} {days later : Nat} (h : days < later)
    (hdays : HasName tier days) (hlater : HasName tier later) :
    snapshotName tier days < snapshotName tier later := by
  rw [String.lt_iff_toList_lt]
  cases tier with
  | daily =>
      rw [toList_daily, toList_daily]
      refine append_lt_append ?_ (.inl (dateText_lt h hlater.1))
      simp [dateText, length_digits]
  | weekly =>
      obtain ⟨hyear, hweek⟩ := isoCalendar_bounds hlater.1
      rw [toList_weekly, toList_weekly]
      refine append_lt_append ?_ (.inl (weekText_lt hyear hweek
        (isoCalendar_lt h (hdays.2 rfl) (hlater.2 rfl))))
      simp [weekText, length_digits]

/-- The order of names is that of their days. -/
theorem snapshotName_lt_iff {tier : Tier} {days later : Nat} (hdays : HasName tier days)
    (hlater : HasName tier later) :
    snapshotName tier days < snapshotName tier later ↔ days < later := by
  refine ⟨fun h => ?_, fun h => snapshotName_lt h hdays hlater⟩
  rcases Nat.lt_trichotomy days later with hlt | rfl | hgt
  · exact hlt
  · exact absurd h (lt_irrefl _)
  · exact absurd h (lt_asymm (snapshotName_lt hgt hlater hdays))

theorem snapshotName_inj {tier : Tier} {days later : Nat} (hdays : HasName tier days)
    (hlater : HasName tier later) (h : snapshotName tier days = snapshotName tier later) :
    days = later := by
  rcases Nat.lt_trichotomy days later with hlt | heq | hgt
  · exact absurd h (ne_of_lt (snapshotName_lt hlt hdays hlater))
  · exact heq
  · exact absurd h.symm (ne_of_lt (snapshotName_lt hgt hlater hdays))

end TrwMemory.Storage

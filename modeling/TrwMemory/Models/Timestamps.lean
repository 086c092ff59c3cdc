import Mathlib.Data.Rat.Floor
import TrwMemory.Library.IsoText
import TrwMemory.Models.Entry

/-!
Datetimes as the texts that are stored of them (`datetime.isoformat`), and the reading of
these texts (`storage/_parsing.py`). Walls are counted from 0001-01-01T00:00:00.
`fromisoformat` is given on the forms that `isoformat` writes; the source's takes others
besides.

Rounding to four digits, and the lowering of an importance (`_graph_decay.py`). Numbers are
exact here: what floating point makes of them is left out.
-/
namespace TrwMemory

open Library.Civil Library.IsoText

namespace Datetime

/-- Microseconds of a day. -/
def DAY : Nat := 86400000000

/-- Microseconds of the years 1 to 9999. -/
def MAX_WALL : Int := 315537897600000000

/-- The values of `datetime`: the years 1 to 9999, and offsets of less than a day. -/
def InRange (d : Datetime) : Prop :=
  0 ≤ d.wall ∧ d.wall < MAX_WALL ∧ ∀ offset ∈ d.offset, offset.natAbs < DAY

instance (d : Datetime) : Decidable d.InRange := inferInstanceAs (Decidable (_ ∧ _))

def offsetText : Option Int → List Char
  | none => []
  | some offset => (if offset < 0 then '-' else '+') :: clockText false offset.natAbs

def isoformat (d : Datetime) : String :=
  String.ofList (dateText (ofDays (d.wall.toNat / DAY)) ++
    'T' :: (clockText true (d.wall.toNat % DAY) ++ offsetText d.offset))

def readOffset : List Char → Option (Option Int)
  | [] => some none
  | sign :: text =>
      if sign ≠ '+' ∧ sign ≠ '-' then none
      else do
        let (micros, rest) ← readClock text
        if rest ≠ [] then none else some (some (if sign = '-' then -micros else micros))

def fromisoformat (text : String) : Option Datetime := do
  let (days, text) ← readDate text.toList
  let text ← expect 'T' text
  let (micros, text) ← readClock text
  let offset ← readOffset text
  return ⟨days * DAY + micros, offset⟩

/-- `parse_dt` of a value: the shift of an aware one raises `OverflowError` where it leaves
the years. -/
def toUtc (d : Datetime) : Option Datetime :=
  if 0 ≤ d.parseDt.wall ∧ d.parseDt.wall < MAX_WALL then some d.parseDt else none

example : isoformat ⟨63840000000000000, some (-7200000000)⟩ = "2024-01-04T21:20:00-02:00" := by
  decide +kernel

theorem readOffset_offsetText {offset : Option Int} (h : ∀ o ∈ offset, o.natAbs < DAY) :
    readOffset (offsetText offset) = some offset := by
  cases offset with
  | none => rfl
  | some o =>
      have hends : Ends [] := by simp [Ends]
      have hclock := readClock_clockText false (h o rfl) hends
      rw [List.append_nil] at hclock
      unfold offsetText readOffset
      by_cases hneg : o < 0
      · simp only [hneg, if_true, ne_eq, not_true_eq_false, and_false, if_false, hclock,
          Option.bind_eq_bind, Option.bind_some, Option.some.injEq]
        omega
      · simp only [hneg, if_false, ne_eq, not_true_eq_false, false_and, hclock,
          Option.bind_eq_bind, Option.bind_some, Option.some.injEq, Char.reduceEq]
        omega

theorem ends_offsetText (offset : Option Int) : Ends (offsetText offset) := by
  cases offset with
  | none => simp [Ends, offsetText]
  | some o => by_cases hneg : o < 0 <;> simp [Ends, offsetText, hneg]

theorem fromisoformat_isoformat {d : Datetime} (h : d.InRange) :
    fromisoformat d.isoformat = some d := by
  obtain ⟨hwall, hmax, hoffset⟩ := h
  have hdays : d.wall.toNat / DAY < 3652059 := by
    unfold DAY MAX_WALL at *
    omega
  have hmicros : d.wall.toNat % DAY < 86400000000 := Nat.mod_lt _ (by decide)
  simp only [fromisoformat, isoformat, String.toList_ofList, readDate_dateText hdays, expect_cons,
    readClock_clockText true hmicros (ends_offsetText d.offset), readOffset_offsetText hoffset,
    Option.bind_eq_bind, Option.bind_some, pure]
  have hsplit : ((d.wall.toNat / DAY : Nat) : Int) * (DAY : Nat) + (d.wall.toNat % DAY : Nat) =
      d.wall := by
    unfold DAY
    omega
  rw [hsplit]

/-- A datetime stands for its text. -/
theorem isoformat_inj {d d' : Datetime} (h : d.InRange) (h' : d'.InRange)
    (htext : d.isoformat = d'.isoformat) : d = d' := by
  have hread := fromisoformat_isoformat h
  rw [htext, fromisoformat_isoformat h'] at hread
  exact (Option.some.inj hread).symm

theorem toUtc_eq {d utc : Datetime} (h : d.toUtc = some utc) : utc = d.parseDt := by
  unfold toUtc at h
  split at h
  · exact (Option.some.inj h).symm
  · cases h

end Datetime

/-- The nearest integer, of two the even one. -/
def roundHalfEven (x : Rat) : Int :=
  let below := ⌊x⌋
  if x - below < 1 / 2 ∨ (x - below = 1 / 2 ∧ below % 2 = 0) then below else below + 1

/-- `round(x, 4)`. -/
def round4 (x : Rat) : Rat := roundHalfEven (x * 10000) / 10000

/-- `f"{x:.4f}"` of what `round4` gives, where it is not negative. -/
def text4 (x : Rat) : String :=
  let n := (roundHalfEven (x * 10000)).toNat
  let digits := toString (n % 10000)
  toString (n / 10000) ++ "." ++ String.ofList (List.replicate (4 - digits.length) '0') ++ digits

def DECAY_DELTA : Rat := 1 / 10

def lowered (importance : Rat) : Rat := max (round4 (importance - DECAY_DELTA)) 0

/-- The record of a decay, with the days that the entry was unused for. -/
def decayOutcome (cutoffDays : Int) (newValue : Rat) (now : Datetime) : String :=
  "importance_decay:delta=-0.10:reason=unused_" ++ toString cutoffDays ++ "d:new_value=" ++
    text4 newValue ++ ":timestamp=" ++ now.isoformat

example : text4 (lowered (17 / 20)) = "0.7500" := by decide +kernel

end TrwMemory

import TrwMemory.Library.JsonCompact
import TrwMemory.Models.Timestamps

/-!
What the two hash chains (`security/provenance.py`, `security/audit.py`) share: the lines of
a file, the times of the clock, and what comes from other libraries.

A line is what its text decodes to, and a file is UTF-8 text. How the model library writes
and reads a datetime, and SHA-256, are parameters.
-/
namespace TrwMemory.Security

open Library

/-- A value of `datetime`. -/
abbrev PyDatetime := {d : Datetime // d.InRange}

/-- What `datetime.now(timezone.utc)` returns. -/
structure UtcNow where
  time : PyDatetime
  utc : time.val.offset = some 0

/-- The offset from UTC is a number of minutes. -/
def WholeMinutes (t : PyDatetime) : Prop :=
  ∀ offset ∈ t.val.offset, (60000000 : Int) ∣ offset

theorem UtcNow.wholeMinutes (now : UtcNow) : WholeMinutes now.time := by
  intro offset hoffset
  rw [now.utc] at hoffset
  obtain rfl := Option.mem_some.mp hoffset
  exact Int.dvd_zero _

/-- What the chains take from other libraries: the text that the model library writes of a
datetime, its reading of a JSON value as one, and the SHA-256 of a text in hexadecimal. -/
structure ChainLibrary where
  dumpTs : PyDatetime → String
  readTs : Json → Option PyDatetime
  sha256 : String → String

/-- What is documented of them: a datetime's text is read again, without the seconds of its
offset. -/
structure ChainLibrary.Documented (lib : ChainLibrary) : Prop where
  reads_dumped : ∀ t, ∃ t', lib.readTs (.str (lib.dumpTs t)) = some t'
  reads_back : ∀ t, WholeMinutes t → lib.readTs (.str (lib.dumpTs t)) = some t
  reads_minutes : ∀ v t, lib.readTs v = some t → WholeMinutes t
  sha256_length : ∀ text, (lib.sha256 text).length = 64

/-- A line of a file: white space, text that is no JSON, or a JSON value, whose fractions are
what the reader makes of the text of a fraction. -/
inductive ChainLine where
  | blank
  | malformed
  | json (v : Json) (proper : v.proper = true)

def ChainLine.isBlank : ChainLine → Bool
  | .blank => true
  | _ => false

/-- A text field of a model. -/
def strField (key : String) (default : Option String) (fields : List (String × Json)) :
    Option String :=
  match Json.field? key fields with
  | none => default
  | some (.str s) => some s
  | some _ => none

/-- The field `ts`: the time of reading where it is missing. -/
def tsField (lib : ChainLibrary) (now : UtcNow) (fields : List (String × Json)) :
    Option PyDatetime :=
  match Json.field? "ts" fields with
  | none => some now.time
  | some v => lib.readTs v

theorem tsField_minutes {lib : ChainLibrary} (hlib : lib.Documented) {now : UtcNow}
    {fields : List (String × Json)} {t : PyDatetime} (h : tsField lib now fields = some t) :
    WholeMinutes t := by
  unfold tsField at h
  split at h
  · obtain rfl := Option.some.inj h
    exact now.wholeMinutes
  · exact hlib.reads_minutes _ _ h

open Datetime Library.Civil Library.IsoText

instance (t : PyDatetime) : Decidable (WholeMinutes t) :=
  inferInstanceAs (Decidable (∀ offset ∈ t.val.offset, (60000000 : Int) ∣ offset))

/-- An offset without its seconds. -/
def minutesOf (offset : Int) : Int := offset.tdiv 60000000 * 60000000

theorem minutesOf_eq {offset : Int} (h : (60000000 : Int) ∣ offset) : minutesOf offset = offset :=
  Int.tdiv_mul_cancel h

theorem natAbs_minutesOf_le (offset : Int) : (minutesOf offset).natAbs ≤ offset.natAbs := by
  rw [minutesOf, Int.natAbs_mul, Int.natAbs_tdiv]
  exact Nat.div_mul_le_self _ _

def inMinutes (t : PyDatetime) : PyDatetime :=
  ⟨⟨t.val.wall, t.val.offset.map minutesOf⟩, t.property.1, t.property.2.1, by
    intro offset hoffset
    obtain ⟨o, ho, rfl⟩ := Option.mem_map.mp hoffset
    exact Nat.lt_of_le_of_lt (natAbs_minutesOf_le o) (t.property.2.2 o ho)⟩

theorem inMinutes_eq {t : PyDatetime} (h : WholeMinutes t) : inMinutes t = t := by
  obtain ⟨⟨wall, offset⟩, hrange⟩ := t
  cases offset with
  | none => rfl
  | some o =>
      have ho : minutesOf o = o := minutesOf_eq (h o rfl)
      simp [inMinutes, ho]

theorem wholeMinutes_inMinutes (t : PyDatetime) : WholeMinutes (inMinutes t) := by
  intro offset hoffset
  obtain ⟨o, -, rfl⟩ := Option.mem_map.mp hoffset
  exact Int.dvd_mul_left _ _

/-- UTC is `Z`. -/
def zoneText (offset : Option Int) : List Char :=
  if offset = some 0 then ['Z'] else offsetText offset

def readZone (text : List Char) : Option (Option Int) :=
  if text = ['Z'] then some (some 0) else readOffset text

def dumpDatetime (t : PyDatetime) : String :=
  String.ofList (dateText (ofDays (t.val.wall.toNat / DAY)) ++
    'T' :: (clockText true (t.val.wall.toNat % DAY) ++ zoneText (inMinutes t).val.offset))

def readDatetime : Json → Option PyDatetime
  | .str text => do
      let (days, text) ← readDate text.toList
      let text ← expect 'T' text
      let (micros, text) ← readClock text
      let offset ← readZone text
      let d : Datetime := ⟨days * DAY + micros, offset⟩
      if h : d.InRange then
        if WholeMinutes ⟨d, h⟩ then some ⟨d, h⟩ else none
      else none
  | _ => none

theorem readZone_zoneText {offset : Option Int} (h : ∀ o ∈ offset, o.natAbs < DAY) :
    readZone (zoneText offset) = some offset := by
  unfold zoneText readZone
  by_cases hutc : offset = some 0
  · rw [if_pos hutc, if_pos rfl, hutc]
  · rw [if_neg hutc, if_neg, readOffset_offsetText h]
    intro htext
    cases offset with
    | none => cases htext
    | some o =>
        rw [offsetText] at htext
        split at htext <;> simp at htext

theorem ends_zoneText (offset : Option Int) : Ends (zoneText offset) := by
  unfold zoneText
  split
  · simp [Ends]
  · exact ends_offsetText offset

theorem readDatetime_dumpDatetime (t : PyDatetime) :
    readDatetime (.str (dumpDatetime t)) = some (inMinutes t) := by
  have hrange := (inMinutes t).property
  obtain ⟨hwall, hmax, hoffset⟩ := hrange
  have hdays : t.val.wall.toNat / DAY < 3652059 := by
    change 0 ≤ t.val.wall at hwall
    change t.val.wall < MAX_WALL at hmax
    unfold DAY MAX_WALL at *
    omega
  have hmicros : t.val.wall.toNat % DAY < 86400000000 := Nat.mod_lt _ (by decide)
  have hsplit : ((t.val.wall.toNat / DAY : Nat) : Int) * (DAY : Nat) +
      (t.val.wall.toNat % DAY : Nat) = t.val.wall := by
    change 0 ≤ t.val.wall at hwall
    unfold DAY
    omega
  simp only [readDatetime, dumpDatetime, String.toList_ofList, readDate_dateText hdays, expect_cons,
    readClock_clockText true hmicros (ends_zoneText _), readZone_zoneText hoffset,
    Option.bind_eq_bind, Option.bind_some, hsplit]
  exact (dif_pos (inMinutes t).property).trans (if_pos (wholeMinutes_inMinutes t))

/-- The library with this reading and writing of datetimes. -/
def isoLibrary (sha256 : String → String) : ChainLibrary where
  dumpTs := dumpDatetime
  readTs := readDatetime
  sha256

theorem isoLibrary_documented {sha256 : String → String} (h : ∀ text, (sha256 text).length = 64) :
    (isoLibrary sha256).Documented where
  reads_dumped t := ⟨_, readDatetime_dumpDatetime t⟩
  reads_back t ht := (readDatetime_dumpDatetime t).trans (congrArg some (inMinutes_eq ht))
  reads_minutes v t ht := by
    cases v with
    | str text =>
        simp only [isoLibrary, readDatetime, Option.bind_eq_bind, Option.bind_eq_some_iff] at ht
        obtain ⟨_, -, _, -, _, -, _, -, hread⟩ := ht
        split at hread
        · split at hread
          · rename_i hwhole
            obtain rfl := Option.some.inj hread
            exact hwhole
          · cases hread
        · cases hread
    | _ => cases ht
  sha256_length := h

end TrwMemory.Security

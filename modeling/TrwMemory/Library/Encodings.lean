import Mathlib.Data.List.Basic

/-!
UTF-8 read with replacement: each ill-formed stretch, as far as it could still begin a
character, becomes one U+FFFD.

Bytes as pairs of hexadecimal digits: written in lower case, read in either case and with
blanks between the bytes.
-/
namespace Library.Utf8

/-- A character begun: the bytes still missing, the range of the next one, the bits so far. -/
structure Begun where
  missing : Nat
  low : UInt8
  high : UInt8
  value : Nat

def replacement : Char := '\uFFFD'

def first (b : UInt8) : List Char × Option Begun :=
  if b < 0x80 then ([Char.ofNat b.toNat], none)
  else if 0xC2 ≤ b ∧ b ≤ 0xDF then ([], some ⟨1, 0x80, 0xBF, b.toNat - 0xC0⟩)
  else if 0xE0 ≤ b ∧ b ≤ 0xEF then
    -- no overlong forms behind 0xE0, no surrogates behind 0xED
    ([], some ⟨2, if b = 0xE0 then 0xA0 else 0x80, if b = 0xED then 0x9F else 0xBF,
      b.toNat - 0xE0⟩)
  else if 0xF0 ≤ b ∧ b ≤ 0xF4 then
    ([], some ⟨3, if b = 0xF0 then 0x90 else 0x80, if b = 0xF4 then 0x8F else 0xBF,
      b.toNat - 0xF0⟩)
  else ([replacement], none)

def next : Option Begun → UInt8 → List Char × Option Begun
  | none, b => first b
  | some begun, b =>
      if begun.low ≤ b ∧ b ≤ begun.high then
        let value := begun.value * 64 + (b.toNat - 0x80)
        if begun.missing ≤ 1 then ([Char.ofNat value], none)
        else ([], some ⟨begun.missing - 1, 0x80, 0xBF, value⟩)
      else (replacement :: (first b).1, (first b).2)

def decodeFrom : Option Begun → List UInt8 → List Char
  | none, [] => []
  | some _, [] => [replacement]
  | begun, b :: bytes => (next begun b).1 ++ decodeFrom (next begun b).2 bytes

/-- `data.decode("utf-8", errors="replace")`. -/
def decodeReplace (data : List UInt8) : List Char := decodeFrom none data

example : decodeReplace [0x61, 0xE2, 0x82, 0xAC, 0xE2, 0x82, 0xFF] =
    ['a', '€', '\uFFFD', '\uFFFD'] := by decide

end Library.Utf8

namespace Library.Hex

def digitValue (c : Char) : Option Nat :=
  if c.isDigit then some (c.toNat - '0'.toNat)
  else if 'a' ≤ c ∧ c ≤ 'f' then some (c.toNat - 'a'.toNat + 10)
  else if 'A' ≤ c ∧ c ≤ 'F' then some (c.toNat - 'A'.toNat + 10)
  else none

/-- The blanks of ASCII. -/
def isBlank (c : Char) : Bool :=
  c == ' ' || decide (9 ≤ c.toNat ∧ c.toNat ≤ 13)

def toHex : List UInt8 → List Char
  | [] => []
  | b :: bs => (b.toNat / 16).digitChar :: (b.toNat % 16).digitChar :: toHex bs

def fromHex : List Char → Option (List UInt8)
  | [] => some []
  | [c] => if isBlank c then some [] else none
  | c :: d :: text =>
      if isBlank c then fromHex (d :: text)
      else
        match digitValue c, digitValue d with
        | some high, some low => (fromHex text).map (UInt8.ofNat (16 * high + low) :: ·)
        | _, _ => none

example : fromHex ['0', 'a', ' ', 'F', 'f'] = some [10, 255] := by decide

theorem digit_read {n : Nat} (h : n < 16) :
    isBlank n.digitChar = false ∧ digitValue n.digitChar = some n := by
  have hall : ∀ n < 16, isBlank n.digitChar = false ∧ digitValue n.digitChar = some n := by decide
  exact hall n h

theorem fromHex_toHex (bs : List UInt8) : fromHex (toHex bs) = some bs := by
  induction bs with
  | nil => rfl
  | cons b bs ih =>
      have hb : b.toNat < 256 := b.toNat_lt
      obtain ⟨hblank, hhigh⟩ := digit_read (n := b.toNat / 16) (by omega)
      obtain ⟨-, hlow⟩ := digit_read (n := b.toNat % 16) (by omega)
      have hbyte : UInt8.ofNat (16 * (b.toNat / 16) + b.toNat % 16) = b := by
        rw [Nat.div_add_mod, UInt8.ofNat_toNat]
      rw [toHex, fromHex, hblank, hhigh, hlow, ih]
      simp only [Bool.false_eq_true, if_false, Option.map_some, hbyte]

end Library.Hex

import Mathlib.Data.List.Basic
import TrwMemory.Library.IsoText

/-!
JSON values and the text a compact ASCII encoder writes for them: separators
", " and ": ", object members in order, every character outside printable ASCII
escaped. A fractional number carries the text of its shortest round-trip form.
A value stands for every text that decodes to it.

Reading the texts that `Json.dumps` writes. Other spacing, other escapes and numbers
with a fraction are refused. A reader takes what it reads off a text and leaves the rest;
what is written of a value is read as that value, whatever follows it.
-/
namespace Library

inductive Json where
  | null
  | bool (b : Bool)
  | int (n : Int)
  | float (text : String)
  | str (s : String)
  | arr (items : List Json)
  | obj (fields : List (String × Json))

namespace Json

/-- A member of an object, by key. -/
def field? (key : String) (fields : List (String × Json)) : Option Json :=
  (fields.find? fun f => f.1 == key).map (·.2)

def hexDigits (width n : Nat) : String :=
  let digits := Nat.toDigits 16 n
  String.ofList (List.replicate (width - digits.length) '0' ++ digits)

/-- Characters beyond the basic plane become a surrogate pair. -/
def escapeChar (c : Char) : String :=
  if c = '"' then "\\\""
  else if c = '\\' then "\\\\"
  else if c = '\n' then "\\n"
  else if c = '\r' then "\\r"
  else if c = '\t' then "\\t"
  else if c.toNat = 0x0c then "\\f"
  else if c.toNat = 0x08 then "\\b"
  else if 0x20 ≤ c.toNat ∧ c.toNat ≤ 0x7e then String.singleton c
  else if c.toNat < 0x10000 then "\\u" ++ hexDigits 4 c.toNat
  else
    "\\u" ++ hexDigits 4 (0xd800 + (c.toNat - 0x10000) / 0x400) ++
    "\\u" ++ hexDigits 4 (0xdc00 + (c.toNat - 0x10000) % 0x400)

def dumpsStr (s : String) : String :=
  "\"" ++ String.join (s.toList.map escapeChar) ++ "\""

mutual

def dumps : Json → String
  | .null => "null"
  | .bool true => "true"
  | .bool false => "false"
  | .int n => toString n
  | .float text => text
  | .str s => dumpsStr s
  | .arr items => "[" ++ dumpsItems items ++ "]"
  | .obj fields => "\x7b" ++ dumpsFields fields ++ "\x7d"

def dumpsItems : List Json → String
  | [] => ""
  | [v] => dumps v
  | v :: vs => dumps v ++ ", " ++ dumpsItems vs

def dumpsFields : List (String × Json) → String
  | [] => ""
  | [(k, v)] => dumpsStr k ++ ": " ++ dumps v
  | (k, v) :: rest => dumpsStr k ++ ": " ++ dumps v ++ ", " ++ dumpsFields rest

end

example : dumps (.obj [("id", .str "a\tb"), ("n", .arr [.int (-3), .null])]) =
    "\x7b\"id\": \"a\\tb\", \"n\": [-3, null]\x7d" := by decide

end Json

end Library

namespace Library.Json

open Library.IsoText

def hexValue (c : Char) : Option Nat :=
  if 48 ≤ c.toNat ∧ c.toNat ≤ 57 then some (c.toNat - 48)
  else if 97 ≤ c.toNat ∧ c.toNat ≤ 102 then some (c.toNat - 87)
  else none

def hexNumber (text : List Char) (n : Nat) : Option Nat :=
  text.foldlM (fun n c => (hexValue c).map fun d => 16 * n + d) n

/-- The four digits of `\u`. -/
def readUnit (text : List Char) : Option (Nat × List Char) :=
  if text.length < 4 then none
  else (hexNumber (text.take 4) 0).map fun n => (n, text.drop 4)

/-- The low half of a surrogate pair. -/
def readLow (high : Nat) (text : List Char) : Option (Char × List Char) := do
  let text ← expect '\\' text
  let text ← expect 'u' text
  let (low, text) ← readUnit text
  if 0xdc00 ≤ low ∧ low < 0xe000 then
    some (Char.ofNat (0x10000 + (high - 0xd800) * 0x400 + (low - 0xdc00)), text)
  else none

def unescape (c : Char) : Option Char :=
  if c = '"' then some '"'
  else if c = '\\' then some '\\'
  else if c = 'n' then some '\n'
  else if c = 'r' then some '\r'
  else if c = 't' then some '\t'
  else if c = 'f' then some (Char.ofNat 0x0c)
  else if c = 'b' then some (Char.ofNat 0x08)
  else none

/-- What follows a backslash. -/
def readEscape : List Char → Option (Char × List Char)
  | [] => none
  | c :: text =>
      if c = 'u' then do
        let (n, text) ← readUnit text
        if 0xd800 ≤ n ∧ n < 0xdc00 then readLow n text
        else if 0xdc00 ≤ n ∧ n < 0xe000 then none
        else some (Char.ofNat n, text)
      else (unescape c).map fun c => (c, text)

/-- A character of a string. -/
def readChar : List Char → Option (Char × List Char)
  | [] => none
  | c :: text =>
      if c = '\\' then readEscape text
      else if c.toNat < 0x20 then none
      else some (c, text)

/-- The characters up to the closing quote. -/
def readChars : Nat → List Char → Option (List Char × List Char)
  | 0, _ => none
  | fuel + 1, text =>
      match expect '"' text with
      | some text => some ([], text)
      | none => do
          let (c, text) ← readChar text
          let (cs, text) ← readChars fuel text
          return (c :: cs, text)

def readStr (text : List Char) : Option (String × List Char) := do
  let text ← expect '"' text
  let (cs, text) ← readChars text.length text
  return (String.ofList cs, text)

theorem hexValue_digitChar {d : Nat} (h : d < 16) : hexValue d.digitChar = some d := by
  have hall : ∀ d : Fin 16, hexValue d.val.digitChar = some d.val := by decide
  exact hall ⟨d, h⟩

theorem hexNumber_append (xs ys : List Char) (n : Nat) :
    hexNumber (xs ++ ys) n = (hexNumber xs n).bind (hexNumber ys) := by
  rw [hexNumber, List.foldlM_append]
  rfl

theorem hexNumber_toDigits (n : Nat) : hexNumber (Nat.toDigits 16 n) 0 = some n := by
  induction n using Nat.base_induction 16 (by decide) with
  | single m hm =>
      rw [Nat.toDigits_of_lt_base hm]
      simp [hexNumber, hexValue_digitChar hm]
  | digit m k hk hm ih =>
      rw [← Nat.toDigits_append_toDigits (by decide) hm hk, Nat.toDigits_of_lt_base hk,
        hexNumber_append, ih]
      simp [hexNumber, hexValue_digitChar hk]

theorem hexNumber_zeros (k : Nat) : hexNumber (List.replicate k '0') 0 = some 0 := by
  induction k with
  | zero => rfl
  | succ k ih =>
      rw [List.replicate_succ', hexNumber_append, ih]
      rfl

theorem readUnit_hexDigits {n : Nat} (h : n < 0x10000) (rest : List Char) :
    readUnit ((hexDigits 4 n).toList ++ rest) = some (n, rest) := by
  have hfits : (Nat.toDigits 16 n).length ≤ 4 :=
    (Nat.length_toDigits_le_iff (by decide) (by decide)).mpr h
  have htext : (hexDigits 4 n).toList =
      List.replicate (4 - (Nat.toDigits 16 n).length) '0' ++ Nat.toDigits 16 n :=
    String.toList_ofList
  have hlength : (hexDigits 4 n).toList.length = 4 := by
    rw [htext, List.length_append, List.length_replicate]
    omega
  unfold readUnit
  rw [if_neg (by rw [List.length_append]; omega), List.take_left' hlength,
    List.drop_left' hlength, htext, hexNumber_append, hexNumber_zeros]
  simp only [Option.bind_some, hexNumber_toDigits, Option.map_some]

/-- No character is a surrogate. -/
theorem char_bounds (c : Char) : (c.toNat < 0xd800 ∨ 0xe000 ≤ c.toNat) ∧ c.toNat < 0x110000 := by
  rcases c.valid with hlow | ⟨hhigh, hmax⟩
  · have hlow : c.toNat < 0xd800 := hlow
    omega
  · have hhigh : 0xdfff < c.toNat := hhigh
    have hmax : c.toNat < 0x110000 := hmax
    omega

theorem readEscape_unit {n : Nat} (h : n < 0x10000) (hsurrogate : n < 0xd800 ∨ 0xe000 ≤ n)
    (rest : List Char) :
    readEscape ('u' :: ((hexDigits 4 n).toList ++ rest)) = some (Char.ofNat n, rest) := by
  rw [readEscape, if_pos rfl, readUnit_hexDigits h, Option.bind_eq_bind, Option.bind_some]
  dsimp only
  rw [if_neg (by omega), if_neg (by omega)]

theorem readEscape_pair {n : Nat} (h : n < 0x100000) (rest : List Char) :
    readEscape ('u' :: ((hexDigits 4 (0xd800 + n / 0x400)).toList ++
        '\\' :: 'u' :: ((hexDigits 4 (0xdc00 + n % 0x400)).toList ++ rest))) =
      some (Char.ofNat (0x10000 + n), rest) := by
  have hcode : 0x10000 + (0xd800 + n / 0x400 - 0xd800) * 0x400 +
      (0xdc00 + n % 0x400 - 0xdc00) = 0x10000 + n := by omega
  rw [readEscape, if_pos rfl, readUnit_hexDigits (by omega), Option.bind_eq_bind,
    Option.bind_some]
  dsimp only
  rw [if_pos (by omega)]
  simp only [readLow, expect_cons, Option.bind_eq_bind, Option.bind_some,
    readUnit_hexDigits (show 0xdc00 + n % 0x400 < 0x10000 by omega)]
  rw [if_pos (by omega), hcode]

theorem readChar_unit (n : Nat) (rest : List Char) :
    readChar (("\\u" ++ hexDigits 4 n).toList ++ rest) =
      readEscape ('u' :: ((hexDigits 4 n).toList ++ rest)) := by
  rw [String.toList_append, List.append_assoc]
  rfl

theorem readChar_pair (high low : Nat) (rest : List Char) :
    readChar (("\\u" ++ hexDigits 4 high ++ "\\u" ++ hexDigits 4 low).toList ++ rest) =
      readEscape ('u' :: ((hexDigits 4 high).toList ++
        '\\' :: 'u' :: ((hexDigits 4 low).toList ++ rest))) := by
  rw [String.toList_append, String.toList_append, String.toList_append, List.append_assoc,
    List.append_assoc, List.append_assoc]
  rfl

theorem readChar_escapeChar (c : Char) (rest : List Char) :
    readChar ((escapeChar c).toList ++ rest) = some (c, rest) := by
  have hback := Char.ofNat_toNat c
  unfold escapeChar
  split_ifs with hquote hslash hn hr ht hf hb hplain hunit
  · subst hquote
    simp [readChar, readEscape, unescape]
  · subst hslash
    simp [readChar, readEscape, unescape]
  · subst hn
    simp [readChar, readEscape, unescape]
  · subst hr
    simp [readChar, readEscape, unescape]
  · subst ht
    simp [readChar, readEscape, unescape]
  · rw [hf] at hback
    simp [readChar, readEscape, unescape, ← hback]
  · rw [hb] at hback
    simp [readChar, readEscape, unescape, ← hback]
  · simp only [String.toList_singleton, List.singleton_append, readChar, if_neg hslash]
    rw [if_neg (by omega)]
  · rw [readChar_unit, readEscape_unit hunit (char_bounds c).1, hback]
  · have hmax := (char_bounds c).2
    rw [readChar_pair, readEscape_pair (by omega),
      show 0x10000 + (c.toNat - 0x10000) = c.toNat by omega, hback]

theorem expect_backslash (text : String) (rest : List Char) :
    expect '"' (("\\u" ++ text).toList ++ rest) = none := by
  rw [String.toList_append]
  rfl

theorem expect_escapeChar (c : Char) (rest : List Char) :
    expect '"' ((escapeChar c).toList ++ rest) = none := by
  unfold escapeChar
  split_ifs with hquote hslash hn hr ht hf hb hplain hunit
  · rfl
  · rfl
  · rfl
  · rfl
  · rfl
  · rfl
  · rfl
  · simp only [String.toList_singleton, List.singleton_append, expect, if_neg hquote]
  · exact expect_backslash _ rest
  · rw [String.append_assoc, String.append_assoc]
    exact expect_backslash _ rest

/-- A string, with what stands for each of its characters between quotes. -/
def quoted (write : Char → String) (s : String) : String :=
  "\"" ++ String.join (s.toList.map write) ++ "\""

section Written

variable {write : Char → String}
  (hread : ∀ c rest, readChar ((write c).toList ++ rest) = some (c, rest))
  (hquote : ∀ c rest, expect '"' ((write c).toList ++ rest) = none)

include hread hquote in
theorem readChars_written (cs : List Char) (rest : List Char) {fuel : Nat}
    (h : cs.length < fuel) :
    readChars fuel ((String.join (cs.map write)).toList ++ '"' :: rest) =
      some (cs, rest) := by
  induction cs generalizing fuel with
  | nil =>
      obtain ⟨fuel, rfl⟩ : ∃ n, fuel = n + 1 := ⟨fuel - 1, by simp at h; omega⟩
      simp [readChars]
  | cons c cs ih =>
      obtain ⟨fuel, rfl⟩ : ∃ n, fuel = n + 1 := ⟨fuel - 1, by simp at h; omega⟩
      have hrest := ih (by simpa using h)
      have hjoin : (String.join ((c :: cs).map write)).toList =
          (write c).toList ++ (String.join (cs.map write)).toList := by
        simp
      rw [hjoin, List.append_assoc, readChars, hquote]
      dsimp only
      rw [hread]
      simp only [Option.bind_eq_bind, Option.bind_some, hrest, pure]

include hread in
theorem length_written (cs : List Char) :
    cs.length ≤ (String.join (cs.map write)).toList.length := by
  induction cs with
  | nil => simp
  | cons c cs ih =>
      have hne : (write c).toList ≠ [] := by
        intro hnil
        have hread := hread c []
        rw [hnil] at hread
        cases hread
      have hpos := List.length_pos_iff.mpr hne
      have hjoin : (String.join ((c :: cs).map write)).toList =
          (write c).toList ++ (String.join (cs.map write)).toList := by
        simp
      rw [hjoin, List.length_append, List.length_cons]
      omega

include hread hquote in
theorem readStr_quoted (s : String) (rest : List Char) :
    readStr ((quoted write s).toList ++ rest) = some (s, rest) := by
  have htext : (quoted write s).toList ++ rest =
      '"' :: ((String.join (s.toList.map write)).toList ++ '"' :: rest) := by
    simp [quoted]
  have hlength := length_written hread s.toList
  rw [htext, readStr, expect_cons]
  simp only [Option.bind_eq_bind, Option.bind_some]
  rw [readChars_written hread hquote _ _ (by
    rw [List.length_append, List.length_cons]
    omega)]
  simp

end Written

theorem readStr_dumpsStr (s : String) (rest : List Char) :
    readStr ((dumpsStr s).toList ++ rest) = some (s, rest) :=
  readStr_quoted readChar_escapeChar expect_escapeChar s rest

/-- Only quotes, backslashes and control characters are escaped. -/
def escapeRaw (c : Char) : String :=
  if c = '"' ∨ c = '\\' ∨ c.toNat < 0x20 then escapeChar c else String.singleton c

def rawStr (s : String) : String := quoted escapeRaw s

theorem readChar_escapeRaw (c : Char) (rest : List Char) :
    readChar ((escapeRaw c).toList ++ rest) = some (c, rest) := by
  rw [escapeRaw]
  split
  · exact readChar_escapeChar c rest
  · rename_i h
    rw [not_or, not_or] at h
    rw [String.toList_singleton, List.singleton_append, readChar, if_neg h.2.1, if_neg h.2.2]

theorem expect_escapeRaw (c : Char) (rest : List Char) :
    expect '"' ((escapeRaw c).toList ++ rest) = none := by
  rw [escapeRaw]
  split
  · exact expect_escapeChar c rest
  · rename_i h
    rw [not_or] at h
    simp only [String.toList_singleton, List.singleton_append, expect, if_neg h.1]

theorem readStr_rawStr (s : String) (rest : List Char) :
    readStr ((rawStr s).toList ++ rest) = some (s, rest) :=
  readStr_quoted readChar_escapeRaw expect_escapeRaw s rest

/-- An escaped character takes six places at most. -/
theorem length_escapeRaw (c : Char) : (escapeRaw c).length ≤ 6 := by
  have hlow : ∀ n : Fin 0x20, ("\\u" ++ hexDigits 4 n.val).length ≤ 6 := by decide
  rw [escapeRaw]
  split
  · rename_i h
    unfold escapeChar
    split_ifs with hquote hslash
    any_goals decide
    · rw [String.length_singleton]
      omega
    · exact hlow ⟨c.toNat, by simpa [hquote, hslash] using h⟩
    · have : c.toNat < 0x20 := by simpa [hquote, hslash] using h
      omega
  · rw [String.length_singleton]
    omega

end Library.Json

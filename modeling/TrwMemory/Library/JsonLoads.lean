import TrwMemory.Library.Json

/-!
Reading the numbers and the lists of a JSON text (integers only, and ", " between the items of
a list), and whole JSON values as `Json.dumps` writes them, nested up to a limit.
-/
namespace Library.Json

open Library.IsoText

def readNat (text : List Char) : Option (Nat × List Char) :=
  let digits := text.takeWhile Char.isDigit
  if digits = [] then none
  else some (Nat.ofDigitChars 10 digits 0, text.dropWhile Char.isDigit)

def readInt (text : List Char) : Option (Int × List Char) :=
  match expect '-' text with
  | some text => (readNat text).map fun n => (-(n.1 : Int), n.2)
  | none => (readNat text).map fun n => ((n.1 : Int), n.2)

/-- The rest of a text that begins with `word`. -/
def readWord : List Char → List Char → Option (List Char)
  | [], text => some text
  | c :: word, text => (expect c text).bind (readWord word)

/-- What may follow a number. -/
def NoDigit (rest : List Char) : Prop := ∀ c ∈ rest.head?, c.isDigit = false

theorem takeWhile_digits {digits rest : List Char} (hdigits : ∀ c ∈ digits, c.isDigit = true)
    (hrest : NoDigit rest) :
    (digits ++ rest).takeWhile Char.isDigit = digits ∧
      (digits ++ rest).dropWhile Char.isDigit = rest := by
  induction digits with
  | nil =>
      cases rest with
      | nil => exact ⟨rfl, rfl⟩
      | cons c rest =>
          have hc : c.isDigit = false := hrest c rfl
          simp [hc]
  | cons c digits ih =>
      rw [List.forall_mem_cons] at hdigits
      simpa [hdigits.1] using ih hdigits.2

theorem readNat_repr (n : Nat) {rest : List Char} (hrest : NoDigit rest) :
    readNat ((toString n).toList ++ rest) = some (n, rest) := by
  have hdigits : ∀ c ∈ Nat.toDigits 10 n, c.isDigit = true :=
    fun c hc => Nat.isDigit_of_mem_toDigits (by decide) (by decide) hc
  obtain ⟨htake, hdrop⟩ := takeWhile_digits hdigits hrest
  have htext : (toString n).toList = Nat.toDigits 10 n := by
    rw [Nat.toString_eq_repr, Nat.toList_repr]
  rw [htext, readNat, htake, hdrop, if_neg Nat.toDigits_ne_nil, Nat.ofDigitChars_ten_toDigits]

theorem readInt_repr (n : Int) {rest : List Char} (hrest : NoDigit rest) :
    readInt ((toString n).toList ++ rest) = some (n, rest) := by
  cases n with
  | ofNat n =>
      have hread := readNat_repr n hrest
      have hsign : expect '-' ((toString n).toList ++ rest) = none := by
        apply expect_none
        intro hhead
        rw [Nat.toString_eq_repr, Nat.toList_repr, List.head?_append_of_ne_nil _
          Nat.toDigits_ne_nil] at hhead
        have hdigit := Nat.isDigit_of_mem_toDigits (b := 10) (by decide) (by decide)
          (List.mem_of_mem_head? hhead)
        simp at hdigit
      change readInt ((toString n).toList ++ rest) = _
      rw [readInt, hsign]
      dsimp only
      rw [hread]
      rfl
  | negSucc n =>
      have hread := readNat_repr (n + 1) hrest
      have htext : (toString (Int.negSucc n)).toList = '-' :: (toString (n + 1)).toList := by
        change ("-" ++ toString (n + 1)).toList = _
        rw [String.toList_append]
        rfl
      rw [htext, List.cons_append, readInt, expect_cons]
      dsimp only
      rw [hread]
      rfl

section Separated

variable {α : Type} (item : List Char → Option (α × List Char)) (close : Char)

/-- One or more items with ", " between them, up to `close`. -/
def readMore : Nat → List Char → Option (List α × List Char)
  | 0, _ => none
  | fuel + 1, text => do
      let (x, text) ← item text
      match expect close text with
      | some text => some ([x], text)
      | none => do
          let text ← readWord [',', ' '] text
          let (xs, text) ← readMore fuel text
          return (x :: xs, text)

def readSeparated (text : List Char) : Option (List α × List Char) :=
  match expect close text with
  | some text => some ([], text)
  | none => readMore item close text.length text

/-- The texts of the items, with ", " between them. -/
def separated (write : α → List Char) : List α → List Char
  | [] => []
  | [x] => write x
  | x :: y :: rest => write x ++ ',' :: ' ' :: separated write (y :: rest)

variable {item close} {write : α → List Char}

theorem readMore_separated (hclose : close ≠ ',') {xs : List α}
    (hitem : ∀ x ∈ xs, ∀ rest, rest.head? = some ',' ∨ rest.head? = some close →
      item (write x ++ rest) = some (x, rest))
    (hne : xs ≠ []) {fuel : Nat} (hfuel : xs.length ≤ fuel) (rest : List Char) :
    readMore item close fuel (separated write xs ++ close :: rest) = some (xs, rest) := by
  induction xs generalizing fuel with
  | nil => exact absurd rfl hne
  | cons x xs ih =>
      rw [List.forall_mem_cons] at hitem
      obtain ⟨fuel, rfl⟩ : ∃ n, fuel = n + 1 := ⟨fuel - 1, by simp at hfuel; omega⟩
      cases xs with
      | nil =>
          rw [separated, readMore, hitem.1 _ (.inr rfl)]
          simp
      | cons y xs =>
          have hrest : readMore item close fuel (separated write (y :: xs) ++ close :: rest) =
              some (y :: xs, rest) := ih hitem.2 (by simp) (by simpa using hfuel)
          have hcomma : expect close (',' :: ' ' :: (separated write (y :: xs) ++ close :: rest)) =
              none := expect_none fun h => hclose (Option.some.inj h).symm
          rw [separated, List.append_assoc, readMore, List.cons_append, List.cons_append,
            hitem.1 _ (.inl rfl)]
          simp only [Option.bind_eq_bind, Option.bind_some, hcomma, readWord, expect_cons, hrest,
            pure]

theorem length_separated {xs : List α} (hwrite : ∀ x ∈ xs, write x ≠ []) :
    xs.length ≤ (separated write xs).length := by
  induction xs with
  | nil => simp
  | cons x xs ih =>
      rw [List.forall_mem_cons] at hwrite
      have hpos := List.length_pos_iff.mpr hwrite.1
      have ih := ih hwrite.2
      cases xs with
      | nil => exact hpos
      | cons y xs =>
          simp only [separated, List.length_append, List.length_cons] at ih ⊢
          omega

theorem readSeparated_separated (hclose : close ≠ ',') {xs : List α}
    (hitem : ∀ x ∈ xs, ∀ rest, rest.head? = some ',' ∨ rest.head? = some close →
      item (write x ++ rest) = some (x, rest))
    (hstart : ∀ x ∈ xs, ∃ c text, write x = c :: text ∧ c ≠ close) (rest : List Char) :
    readSeparated item close (separated write xs ++ close :: rest) = some (xs, rest) := by
  cases xs with
  | nil => rw [separated, List.nil_append, readSeparated, expect_cons]
  | cons x xs =>
      have hwrite : ∀ x' ∈ x :: xs, write x' ≠ [] := by
        intro x' hx'
        obtain ⟨c, text, htext, -⟩ := hstart x' hx'
        simp [htext]
      obtain ⟨c, text, htext, hc⟩ := hstart x List.mem_cons_self
      have hhead : (separated write (x :: xs) ++ close :: rest).head? = some c := by
        cases xs <;> simp [separated, htext]
      rw [readSeparated, expect_none (by rw [hhead]; exact fun h => hc (Option.some.inj h))]
      apply readMore_separated hclose hitem (by simp)
      have hlength := length_separated hwrite
      rw [List.length_append]
      omega

end Separated

/-- A value that is no container. -/
def readScalar (text : List Char) : Option (Json × List Char) :=
  match text with
  | [] => none
  | c :: rest =>
      if c = '"' then (readStr (c :: rest)).map fun s => (.str s.1, s.2)
      else if c = 'n' then (readWord ['u', 'l', 'l'] rest).map fun rest => (.null, rest)
      else if c = 't' then (readWord ['r', 'u', 'e'] rest).map fun rest => (.bool true, rest)
      else if c = 'f' then (readWord ['a', 'l', 's', 'e'] rest).map fun rest => (.bool false, rest)
      else (readInt (c :: rest)).map fun n => (.int n.1, n.2)

/-- A key of an object and its value. -/
def readMember (value : List Char → Option (Json × List Char)) (text : List Char) :
    Option ((String × Json) × List Char) := do
  let (key, text) ← readStr text
  let text ← readWord [':', ' '] text
  let (v, text) ← value text
  return ((key, v), text)

/-- A value that is nested at most `depth` times. -/
def readValue : Nat → List Char → Option (Json × List Char)
  | 0, text => readScalar text
  | depth + 1, text =>
      match expect '[' text with
      | some text =>
          (readSeparated (readValue depth) ']' text).map fun items => (.arr items.1, items.2)
      | none =>
          match expect '\x7b' text with
          | some text => (readSeparated (readMember (readValue depth)) '\x7d' text).map
              fun fields => (.obj fields.1, fields.2)
          | none => readScalar text

/-- `json.loads` of what `dumps` writes. -/
def loads (depth : Nat) (text : String) : Option Json :=
  match readValue depth text.toList with
  | some (v, []) => some v
  | _ => none

/-- Without fractions, and nested at most `depth` times. -/
def Within : Nat → Json → Prop
  | _, .null | _, .bool _ | _, .int _ | _, .str _ => True
  | _, .float _ => False
  | 0, .arr _ | 0, .obj _ => False
  | depth + 1, .arr items => ∀ v ∈ items, Within depth v
  | depth + 1, .obj fields => ∀ field ∈ fields, Within depth field.2

def writeValue (v : Json) : List Char := (dumps v).toList

def writeMember (field : String × Json) : List Char :=
  (dumpsStr field.1).toList ++ ':' :: ' ' :: writeValue field.2

theorem toList_dumpsItems (items : List Json) :
    (dumpsItems items).toList = separated writeValue items := by
  induction items with
  | nil => rfl
  | cons v items ih =>
      cases items with
      | nil => rfl
      | cons w items =>
          rw [dumpsItems, separated, ← ih, String.toList_append, String.toList_append,
            List.append_assoc]
          · rfl
          · simp

theorem toList_dumpsFields (fields : List (String × Json)) :
    (dumpsFields fields).toList = separated writeMember fields := by
  induction fields with
  | nil => rfl
  | cons field fields ih =>
      cases fields with
      | nil =>
          rw [dumpsFields, separated, writeMember, String.toList_append, String.toList_append,
            List.append_assoc]
          rfl
      | cons next fields =>
          rw [dumpsFields, separated, ← ih, writeMember]
          · simp only [String.toList_append, List.append_assoc, List.cons_append]
            rfl
          · simp

theorem toString_int_head (n : Int) :
    ∃ c text, (toString n).toList = c :: text ∧ (c = '-' ∨ c.isDigit = true) := by
  cases n with
  | ofNat n =>
      change ∃ c text, (toString n).toList = c :: text ∧ _
      rw [Nat.toString_eq_repr, Nat.toList_repr]
      cases hdigits : Nat.toDigits 10 n with
      | nil => exact absurd hdigits Nat.toDigits_ne_nil
      | cons c text =>
          refine ⟨c, text, rfl, .inr ?_⟩
          exact Nat.isDigit_of_mem_toDigits (b := 10) (n := n) (by decide) (by decide)
            (hdigits ▸ List.mem_cons_self)
  | negSucc n =>
      refine ⟨'-', (toString (n + 1)).toList, ?_, .inl rfl⟩
      change ("-" ++ toString (n + 1)).toList = _
      rw [String.toList_append]
      rfl

/-- Neither a container's opening nor a list's end. -/
def Plain (c : Char) : Prop := c ≠ '[' ∧ c ≠ '\x7b' ∧ c ≠ ']'

instance (c : Char) : Decidable (Plain c) := inferInstanceAs (Decidable (_ ∧ _))

/-- A value without items. -/
def Scalar : Json → Prop
  | .null | .bool _ | .int _ | .str _ => True
  | .float _ | .arr _ | .obj _ => False

theorem readScalar_dumps {v : Json} (hv : Scalar v) {rest : List Char} (hrest : NoDigit rest) :
    readScalar (writeValue v ++ rest) = some (v, rest) ∧
      ∃ c text, writeValue v = c :: text ∧ Plain c := by
  cases v with
  | null => exact ⟨rfl, 'n', _, rfl, by decide⟩
  | bool b =>
      cases b with
      | true => exact ⟨rfl, 't', _, rfl, by decide⟩
      | false => exact ⟨rfl, 'f', _, rfl, by decide⟩
  | str s =>
      have htext : ∃ text, writeValue (.str s) = '"' :: text :=
        ⟨(String.join (s.toList.map escapeChar)).toList ++ ['"'],
          by simp [writeValue, dumps, dumpsStr]⟩
      obtain ⟨text, htext⟩ := htext
      refine ⟨?_, '"', text, htext, by decide⟩
      have hread := readStr_dumpsStr s rest
      change readStr (writeValue (.str s) ++ rest) = _ at hread
      rw [htext, List.cons_append] at hread ⊢
      rw [readScalar, if_pos rfl, hread]
      rfl
  | int n =>
      obtain ⟨c, text, htext, hc⟩ := toString_int_head n
      have hread := readInt_repr n hrest
      have hne : ∀ d : Char, d ≠ '-' → d.isDigit = false → c ≠ d := by
        rintro d hminus hdigit rfl
        rcases hc with rfl | hc
        · exact hminus rfl
        · rw [hdigit] at hc
          cases hc
      change readScalar ((toString n).toList ++ rest) = _ ∧ ∃ c text, (toString n).toList = _ ∧ _
      refine ⟨?_, c, text, htext, hne _ (by decide) (by decide), hne _ (by decide) (by decide),
        hne _ (by decide) (by decide)⟩
      rw [htext, List.cons_append] at hread ⊢
      rw [readScalar, if_neg (hne _ (by decide) (by decide)),
        if_neg (hne _ (by decide) (by decide)), if_neg (hne _ (by decide) (by decide)),
        if_neg (hne _ (by decide) (by decide)), hread]
      rfl
  | float _ => cases hv
  | arr _ => cases hv
  | obj _ => cases hv

theorem scalar_start {v : Json} (hv : Scalar v) : ∃ c text, writeValue v = c :: text ∧ Plain c :=
  (readScalar_dumps hv (by simp [NoDigit] : NoDigit [])).2

theorem writeValue_arr (items : List Json) :
    writeValue (.arr items) = '[' :: (separated writeValue items ++ [']']) := by
  rw [writeValue, dumps, String.toList_append, String.toList_append, toList_dumpsItems]
  rfl

theorem writeValue_obj (fields : List (String × Json)) :
    writeValue (.obj fields) = '\x7b' :: (separated writeMember fields ++ ['\x7d']) := by
  rw [writeValue, dumps, String.toList_append, String.toList_append, toList_dumpsFields]
  rfl

theorem writeValue_start {depth : Nat} {v : Json} (h : Within depth v) :
    ∃ c text, writeValue v = c :: text ∧ c ≠ ']' := by
  have hscalar : Scalar v → ∃ c text, writeValue v = c :: text ∧ c ≠ ']' := by
    intro hv
    obtain ⟨c, text, htext, -, -, hc⟩ := scalar_start hv
    exact ⟨c, text, htext, hc⟩
  cases v with
  | arr items => exact ⟨'[', _, writeValue_arr items, by decide⟩
  | obj fields => exact ⟨'\x7b', _, writeValue_obj fields, by decide⟩
  | float _ => cases depth <;> cases h
  | null => exact hscalar trivial
  | bool _ => exact hscalar trivial
  | int _ => exact hscalar trivial
  | str _ => exact hscalar trivial

theorem noDigit_of_head {rest : List Char} {c : Char} (h : rest.head? = some c)
    (hc : c.isDigit = false) : NoDigit rest := by
  intro c' hc'
  rw [Option.mem_def, h] at hc'
  exact Option.some.inj hc' ▸ hc

theorem readValue_scalar (depth : Nat) {v : Json} (hv : Scalar v) {rest : List Char}
    (hrest : NoDigit rest) : readValue depth (writeValue v ++ rest) = some (v, rest) := by
  obtain ⟨hread, c, text, htext, hbracket, hbrace, -⟩ := readScalar_dumps hv hrest
  cases depth with
  | zero => exact hread
  | succ depth =>
      have harr : expect '[' (writeValue v ++ rest) = none := by
        rw [htext, List.cons_append]
        exact expect_none fun h => hbracket (Option.some.inj h)
      have hobj : expect '\x7b' (writeValue v ++ rest) = none := by
        rw [htext, List.cons_append]
        exact expect_none fun h => hbrace (Option.some.inj h)
      rw [readValue, harr]
      dsimp only
      rw [hobj]
      exact hread

theorem readValue_arr {depth : Nat} {items : List Json}
    (hvalue : ∀ v ∈ items, ∀ rest, NoDigit rest →
      readValue depth (writeValue v ++ rest) = some (v, rest))
    (hwithin : ∀ v ∈ items, Within depth v) (rest : List Char) :
    readValue (depth + 1) (writeValue (.arr items) ++ rest) = some (.arr items, rest) := by
  have hitem : ∀ v ∈ items, ∀ rest, rest.head? = some ',' ∨ rest.head? = some ']' →
      readValue depth (writeValue v ++ rest) = some (v, rest) := by
    intro v hv rest hnext
    apply hvalue v hv
    rcases hnext with hnext | hnext <;> exact noDigit_of_head hnext (by decide)
  rw [writeValue_arr, List.cons_append, List.append_assoc, readValue, expect_cons]
  dsimp only
  rw [List.singleton_append, readSeparated_separated (by decide) hitem
    fun v hv => writeValue_start (hwithin v hv)]
  rfl

theorem readValue_obj {depth : Nat} {fields : List (String × Json)}
    (hvalue : ∀ field ∈ fields, ∀ rest, NoDigit rest →
      readValue depth (writeValue field.2 ++ rest) = some (field.2, rest)) (rest : List Char) :
    readValue (depth + 1) (writeValue (.obj fields) ++ rest) = some (.obj fields, rest) := by
  have hitem : ∀ field ∈ fields, ∀ rest, rest.head? = some ',' ∨ rest.head? = some '\x7d' →
      readMember (readValue depth) (writeMember field ++ rest) = some (field, rest) := by
    intro field hfield rest hnext
    have hrest : NoDigit rest := by
      rcases hnext with hnext | hnext <;> exact noDigit_of_head hnext (by decide)
    rw [readMember, writeMember, List.append_assoc, readStr_dumpsStr]
    simp only [Option.bind_eq_bind, Option.bind_some, List.cons_append, readWord, expect_cons,
      hvalue field hfield rest hrest, pure]
  have hstart : ∀ field ∈ fields, ∃ c text, writeMember field = c :: text ∧ c ≠ '\x7d' := by
    intro field _
    have hkey : (dumpsStr field.1).toList =
        '"' :: ((String.join (field.1.toList.map escapeChar)).toList ++ ['"']) := by
      simp [dumpsStr]
    exact ⟨'"', _, by rw [writeMember, hkey, List.cons_append], by decide⟩
  rw [writeValue_obj, List.cons_append, List.append_assoc, readValue, expect_none (by simp)]
  dsimp only
  rw [expect_cons]
  dsimp only
  rw [List.singleton_append, readSeparated_separated (by decide) hitem hstart]
  rfl

theorem Within.cases {depth : Nat} {v : Json} (h : Within depth v) :
    Scalar v ∨ ∃ inner, depth = inner + 1 ∧
      ((∃ items, v = .arr items ∧ ∀ w ∈ items, Within inner w) ∨
        ∃ fields, v = .obj fields ∧ ∀ field ∈ fields, Within inner field.2) := by
  cases v with
  | null | bool _ | int _ | str _ => exact .inl (by simp [Scalar])
  | float _ => cases depth <;> cases h
  | arr items =>
      cases depth with
      | zero => cases h
      | succ depth => exact .inr ⟨depth, rfl, .inl ⟨items, rfl, h⟩⟩
  | obj fields =>
      cases depth with
      | zero => cases h
      | succ depth => exact .inr ⟨depth, rfl, .inr ⟨fields, rfl, h⟩⟩

/-- What is written of a value is read as the value, at any depth it fits in. -/
theorem readValue_dumps (depth : Nat) {v : Json} (h : Within depth v) {rest : List Char}
    (hrest : NoDigit rest) : readValue depth (writeValue v ++ rest) = some (v, rest) := by
  induction depth generalizing v rest with
  | zero =>
      rcases h.cases with hv | ⟨_, hdepth, _⟩
      · exact readValue_scalar 0 hv hrest
      · cases hdepth
  | succ depth ih =>
      rcases h.cases with hv | ⟨_, hdepth, ⟨items, rfl, hitems⟩ | ⟨fields, rfl, hfields⟩⟩
      · exact readValue_scalar _ hv hrest
      · cases hdepth
        exact readValue_arr (fun v hv _ => ih (hitems v hv)) hitems rest
      · cases hdepth
        exact readValue_obj (fun field hfield _ => ih (hfields field hfield)) rest

theorem loads_dumps {depth : Nat} {v : Json} (h : Within depth v) :
    loads depth (dumps v) = some v := by
  have hread := readValue_dumps depth h (by simp [NoDigit] : NoDigit [])
  rw [List.append_nil] at hread
  rw [loads, ← writeValue, hread]

end Library.Json

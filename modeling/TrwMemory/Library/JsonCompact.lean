import TrwMemory.Library.JsonLoads

/-!
The compact text of a JSON value: "," and ":" without blanks, object members in the order
they stand in. Values with different texts are what matters here, so the result is that a
text belongs to one value only, wherever it stands before another part of a text.

The text of a fraction is the value's own; `proper` asks that it reads as no other value.
-/
namespace Library.Json

mutual

def compact : Json → List Char
  | .null => ['n', 'u', 'l', 'l']
  | .bool true => ['t', 'r', 'u', 'e']
  | .bool false => ['f', 'a', 'l', 's', 'e']
  | .int n => (toString n).toList
  | .float text => text.toList
  | .str s => (dumpsStr s).toList
  | .arr items => '[' :: compactItems items
  | .obj fields => '\x7b' :: compactFields fields

/-- From the first item up to the closing bracket. -/
def compactItems : List Json → List Char
  | [] => [']']
  | v :: vs => compact v ++ compactMoreItems vs

def compactMoreItems : List Json → List Char
  | [] => [']']
  | v :: vs => ',' :: (compact v ++ compactMoreItems vs)

def compactFields : List (String × Json) → List Char
  | [] => ['\x7d']
  | (k, v) :: rest => (dumpsStr k).toList ++ ':' :: (compact v ++ compactMoreFields rest)

def compactMoreFields : List (String × Json) → List Char
  | [] => ['\x7d']
  | (k, v) :: rest =>
      ',' :: ((dumpsStr k).toList ++ ':' :: (compact v ++ compactMoreFields rest))

end

def dumpsCompact (v : Json) : String := String.ofList (compact v)

example : dumpsCompact (.obj [("id", .str "a\tb"), ("n", .arr [.int (-3), .float "1e-07"])]) =
    "\x7b\"id\":\"a\\tb\",\"n\":[-3,1e-07]\x7d" := by decide

/-- Neither begins nor ends another value. -/
def tokenChar (c : Char) : Bool := decide (c ∉ ['"', '[', '\x7b', ',', ']', '\x7d'])

/-- The value whose whole text this is, among the ones without quotes and brackets. -/
def readToken (text : List Char) : Json :=
  if text = ['n', 'u', 'l', 'l'] then .null
  else if text = ['t', 'r', 'u', 'e'] then .bool true
  else if text = ['f', 'a', 'l', 's', 'e'] then .bool false
  else
    match readInt text with
    | some (n, []) => .int n
    | _ => .float (String.ofList text)

/-- What the encoder prints of a fraction reads as no integer and as no word. -/
def floatText (text : String) : Bool :=
  text != "" && text.toList.all tokenChar &&
    match readToken text.toList with
    | .float _ => true
    | _ => false

mutual

/-- Every fraction in the value has the text of a fraction. -/
def proper : Json → Bool
  | .float text => floatText text
  | .arr items => properItems items
  | .obj fields => properFields fields
  | _ => true

def properItems : List Json → Bool
  | [] => true
  | v :: vs => proper v && properItems vs

def properFields : List (String × Json) → Bool
  | [] => true
  | (_, v) :: rest => proper v && properFields rest

end

/-- Without quotes and brackets. -/
def isToken : Json → Bool
  | .null | .bool _ | .int _ | .float _ => true
  | _ => false

theorem int_text (n : Int) :
    (toString n).toList ≠ [] ∧ ∀ c ∈ (toString n).toList, c = '-' ∨ c.isDigit = true := by
  have hnat : ∀ n : Nat, (toString n).toList ≠ [] ∧
      ∀ c ∈ (toString n).toList, c.isDigit = true := by
    intro n
    rw [Nat.toString_eq_repr, Nat.toList_repr]
    exact ⟨Nat.toDigits_ne_nil,
      fun c hc => Nat.isDigit_of_mem_toDigits (by decide) (by decide) hc⟩
  cases n with
  | ofNat n => exact ⟨(hnat n).1, fun c hc => .inr ((hnat n).2 c hc)⟩
  | negSucc n =>
      have htext : (toString (Int.negSucc n)).toList = '-' :: (toString (n + 1)).toList := by
        change ("-" ++ toString (n + 1)).toList = _
        rw [String.toList_append]
        rfl
      rw [htext]
      refine ⟨List.cons_ne_nil _ _, fun c hc => ?_⟩
      rcases List.mem_cons.mp hc with rfl | hc
      · exact .inl rfl
      · exact .inr ((hnat (n + 1)).2 c hc)

theorem tokenChar_digit {c : Char} (h : c = '-' ∨ c.isDigit = true) : tokenChar c = true := by
  rw [tokenChar, decide_eq_true_eq]
  intro hmem
  have hall : ∀ c ∈ ['"', '[', '\x7b', ',', ']', '\x7d'], c ≠ '-' ∧ c.isDigit = false := by
    simp
  obtain ⟨hminus, hdigit⟩ := hall c hmem
  rcases h with h | h
  · exact hminus h
  · rw [hdigit] at h
    cases h

theorem token_text {v : Json} (hv : v.proper = true) (ht : v.isToken = true) :
    compact v ≠ [] ∧ (compact v).all tokenChar = true := by
  cases v with
  | null => decide
  | bool b => cases b <;> decide
  | int n =>
      obtain ⟨hne, hchars⟩ := int_text n
      exact ⟨hne, List.all_eq_true.mpr fun c hc => tokenChar_digit (hchars c hc)⟩
  | float text =>
      simp only [proper, floatText, Bool.and_eq_true, bne_iff_ne] at hv
      exact ⟨fun h => hv.1.1 (String.toList_eq_nil_iff.mp h), hv.1.2⟩
  | str _ | arr _ | obj _ => cases ht

theorem readToken_float {text : List Char} {t : String} (h : readToken text = .float t) :
    t = String.ofList text := by
  rw [readToken] at h
  split_ifs at h
  split at h
  · cases h
  · cases h
    rfl

theorem readToken_compact {v : Json} (hv : v.proper = true) (ht : v.isToken = true) :
    readToken (compact v) = v := by
  cases v with
  | null => rfl
  | bool b => cases b <;> rfl
  | int n =>
      have hread := readInt_repr n (by simp [NoDigit] : NoDigit [])
      have hchars := (int_text n).2
      rw [List.append_nil] at hread
      have hword : ∀ c rest, c ≠ '-' → c.isDigit = false → compact (.int n) ≠ c :: rest := by
        intro c rest hminus hdigit htext
        rcases hchars c (by rw [← compact, htext]; exact List.mem_cons_self) with h | h
        · exact hminus h
        · rw [hdigit] at h
          cases h
      rw [readToken, if_neg (hword _ _ (by decide) (by decide)),
        if_neg (hword _ _ (by decide) (by decide)), if_neg (hword _ _ (by decide) (by decide)),
        compact, hread]
  | float text =>
      simp only [proper, floatText, Bool.and_eq_true] at hv
      obtain ⟨-, hfloat⟩ := hv
      rw [compact]
      cases hread : readToken text.toList with
      | float text' => rw [readToken_float hread, String.ofList_toList]
      | null | bool _ | int _ | str _ | arr _ | obj _ =>
          rw [hread] at hfloat
          cases hfloat
  | str _ | arr _ | obj _ => cases ht

/-- What may follow a value: nothing, or a character that is part of none. -/
def Closed (rest : List Char) : Prop := ∀ c ∈ rest.head?, tokenChar c = false

theorem takeWhile_token {text rest : List Char} (htext : text.all tokenChar = true)
    (hrest : Closed rest) :
    (text ++ rest).takeWhile tokenChar = text ∧ (text ++ rest).dropWhile tokenChar = rest := by
  induction text with
  | nil =>
      cases rest with
      | nil => exact ⟨rfl, rfl⟩
      | cons c rest =>
          have hc : tokenChar c = false := hrest c rfl
          simp [hc]
  | cons c text ih =>
      rw [List.all_cons, Bool.and_eq_true] at htext
      simpa [htext.1] using ih htext.2

theorem token_inj {v w : Json} {rest rest' : List Char} (hv : v.proper = true)
    (hw : w.proper = true) (htv : v.isToken = true) (htw : w.isToken = true) (hrest : Closed rest)
    (hrest' : Closed rest') (h : compact v ++ rest = compact w ++ rest') :
    v = w ∧ rest = rest' := by
  obtain ⟨htake, hdrop⟩ := takeWhile_token (token_text hv htv).2 hrest
  obtain ⟨htake', hdrop'⟩ := takeWhile_token (token_text hw htw).2 hrest'
  rw [h] at htake hdrop
  have htext : compact v = compact w := htake.symm.trans htake'
  refine ⟨?_, hdrop.symm.trans hdrop'⟩
  rw [← readToken_compact hv htv, htext, readToken_compact hw htw]

theorem dumpsStr_inj {s t : String} {rest rest' : List Char}
    (h : (dumpsStr s).toList ++ rest = (dumpsStr t).toList ++ rest') : s = t ∧ rest = rest' := by
  have hread := readStr_dumpsStr s rest
  rw [h, readStr_dumpsStr] at hread
  cases hread
  exact ⟨rfl, rfl⟩

theorem dumpsStr_head (s : String) : ∃ text, (dumpsStr s).toList = '"' :: text :=
  ⟨(String.join (s.toList.map escapeChar)).toList ++ ['"'], by simp [dumpsStr]⟩

/-- The first character tells the kinds of values apart. -/
inductive Kind where
  | token | str | arr | obj
  deriving DecidableEq

def kindOfChar (c : Char) : Kind :=
  if c = '"' then .str else if c = '[' then .arr else if c = '\x7b' then .obj else .token

def kind : Json → Kind
  | .str _ => .str
  | .arr _ => .arr
  | .obj _ => .obj
  | _ => .token

theorem kindOfChar_token {c : Char} (h : tokenChar c = true) : kindOfChar c = .token := by
  simp only [tokenChar, decide_eq_true_eq, List.mem_cons, not_or] at h
  rw [kindOfChar, if_neg h.1, if_neg h.2.1, if_neg h.2.2.1]

theorem compact_head {v : Json} (hv : v.proper = true) :
    ∃ c text, compact v = c :: text ∧ kindOfChar c = v.kind ∧ c ≠ ']' ∧ c ≠ '\x7d' := by
  have htoken : v.isToken = true → ∃ c text, compact v = c :: text ∧ kindOfChar c = .token ∧
      c ≠ ']' ∧ c ≠ '\x7d' := by
    intro ht
    obtain ⟨hne, hall⟩ := token_text hv ht
    obtain ⟨c, text, htext⟩ := List.exists_cons_of_ne_nil hne
    rw [htext, List.all_cons, Bool.and_eq_true] at hall
    refine ⟨c, text, htext, kindOfChar_token hall.1, ?_, ?_⟩
    · rintro rfl
      exact absurd hall.1 (by decide)
    · rintro rfl
      exact absurd hall.1 (by decide)
  cases v with
  | null | bool _ | int _ | float _ => exact htoken rfl
  | str s =>
      obtain ⟨text, htext⟩ := dumpsStr_head s
      exact ⟨'"', text, htext, rfl, by decide, by decide⟩
  | arr items => exact ⟨'[', _, rfl, rfl, by decide, by decide⟩
  | obj fields => exact ⟨'\x7b', _, rfl, rfl, by decide, by decide⟩

theorem kind_of_text {v w : Json} (hv : v.proper = true) (hw : w.proper = true)
    {rest rest' : List Char} (h : compact v ++ rest = compact w ++ rest') : v.kind = w.kind := by
  obtain ⟨c, text, hc, hkind, -⟩ := compact_head hv
  obtain ⟨d, text', hd, hkind', -⟩ := compact_head hw
  rw [hc, hd, List.cons_append, List.cons_append, List.cons.injEq] at h
  rw [← hkind, ← hkind', h.1]

theorem closed_moreItems (vs : List Json) (rest : List Char) :
    Closed (compactMoreItems vs ++ rest) := by
  cases vs <;> simp [compactMoreItems, Closed] <;> decide

theorem closed_moreFields (fields : List (String × Json)) (rest : List Char) :
    Closed (compactMoreFields fields ++ rest) := by
  cases fields <;> simp [compactMoreFields, Closed] <;> decide

mutual

/-- A compact text, before nothing or a separator, is the text of one value. -/
theorem compact_inj : ∀ (v w : Json) {rest rest' : List Char}, v.proper = true → w.proper = true →
    Closed rest → Closed rest' → compact v ++ rest = compact w ++ rest' → v = w ∧ rest = rest'
  | .arr items, w, rest, rest', hv, hw, _, _, h => by
      have hkind := kind_of_text hv hw h
      cases w with
      | arr items' =>
          rw [compact, compact, List.cons_append, List.cons_append, List.cons.injEq] at h
          obtain ⟨rfl, hr⟩ := compactItems_inj items items' hv hw h.2
          exact ⟨rfl, hr⟩
      | _ => cases hkind
  | .obj fields, w, rest, rest', hv, hw, _, _, h => by
      have hkind := kind_of_text hv hw h
      cases w with
      | obj fields' =>
          rw [compact, compact, List.cons_append, List.cons_append, List.cons.injEq] at h
          obtain ⟨rfl, hr⟩ := compactFields_inj fields fields' hv hw h.2
          exact ⟨rfl, hr⟩
      | _ => cases hkind
  | .str s, w, rest, rest', hv, hw, _, _, h => by
      have hkind := kind_of_text hv hw h
      cases w with
      | str t =>
          obtain ⟨rfl, hr⟩ := dumpsStr_inj h
          exact ⟨rfl, hr⟩
      | _ => cases hkind
  | .null, w, _, _, hv, hw, hrest, hrest', h | .bool _, w, _, _, hv, hw, hrest, hrest', h
  | .int _, w, _, _, hv, hw, hrest, hrest', h | .float _, w, _, _, hv, hw, hrest, hrest', h => by
      have hkind := kind_of_text hv hw h
      have htoken : w.isToken = true := by
        cases w <;> first | rfl | cases hkind
      exact token_inj hv hw rfl htoken hrest hrest' h

theorem compactItems_inj : ∀ (vs ws : List Json) {rest rest' : List Char},
    properItems vs = true → properItems ws = true →
    compactItems vs ++ rest = compactItems ws ++ rest' → vs = ws ∧ rest = rest'
  | [], [], _, _, _, _, h => ⟨rfl, (List.cons.inj h).2⟩
  | [], w :: ws, _, _, _, hw, h => by
      rw [properItems, Bool.and_eq_true] at hw
      obtain ⟨c, text, htext, -, hne, -⟩ := compact_head hw.1
      rw [compactItems, compactItems, htext] at h
      exact absurd (List.cons.inj h).1.symm hne
  | v :: vs, [], _, _, hv, _, h => by
      rw [properItems, Bool.and_eq_true] at hv
      obtain ⟨c, text, htext, -, hne, -⟩ := compact_head hv.1
      rw [compactItems, compactItems, htext] at h
      exact absurd (List.cons.inj h).1 hne
  | v :: vs, w :: ws, rest, rest', hv, hw, h => by
      rw [properItems, Bool.and_eq_true] at hv hw
      rw [compactItems, compactItems, List.append_assoc, List.append_assoc] at h
      obtain ⟨rfl, hmore⟩ := compact_inj v w hv.1 hw.1 (closed_moreItems vs rest)
        (closed_moreItems ws rest') h
      obtain ⟨rfl, hr⟩ := compactMoreItems_inj vs ws hv.2 hw.2 hmore
      exact ⟨rfl, hr⟩

theorem compactMoreItems_inj : ∀ (vs ws : List Json) {rest rest' : List Char},
    properItems vs = true → properItems ws = true →
    compactMoreItems vs ++ rest = compactMoreItems ws ++ rest' → vs = ws ∧ rest = rest'
  | [], [], _, _, _, _, h => ⟨rfl, (List.cons.inj h).2⟩
  | [], w :: ws, _, _, _, _, h => absurd (List.cons.inj h).1 (by decide)
  | v :: vs, [], _, _, _, _, h => absurd (List.cons.inj h).1 (by decide)
  | v :: vs, w :: ws, rest, rest', hv, hw, h => by
      rw [properItems, Bool.and_eq_true] at hv hw
      rw [compactMoreItems, compactMoreItems, List.cons_append, List.cons_append,
        List.cons.injEq, List.append_assoc, List.append_assoc] at h
      obtain ⟨rfl, hmore⟩ := compact_inj v w hv.1 hw.1 (closed_moreItems vs rest)
        (closed_moreItems ws rest') h.2
      obtain ⟨rfl, hr⟩ := compactMoreItems_inj vs ws hv.2 hw.2 hmore
      exact ⟨rfl, hr⟩

theorem compactFields_inj : ∀ (fields fields' : List (String × Json)) {rest rest' : List Char},
    properFields fields = true → properFields fields' = true →
    compactFields fields ++ rest = compactFields fields' ++ rest' → fields = fields' ∧ rest = rest'
  | [], [], _, _, _, _, h => ⟨rfl, (List.cons.inj h).2⟩
  | [], (k, w) :: ws, _, _, _, _, h => by
      obtain ⟨text, htext⟩ := dumpsStr_head k
      rw [compactFields, compactFields, htext] at h
      exact absurd (List.cons.inj h).1 (by decide)
  | (k, v) :: vs, [], _, _, _, _, h => by
      obtain ⟨text, htext⟩ := dumpsStr_head k
      rw [compactFields, compactFields, htext] at h
      exact absurd (List.cons.inj h).1 (by decide)
  | (k, v) :: vs, (l, w) :: ws, rest, rest', hv, hw, h => by
      rw [properFields, Bool.and_eq_true] at hv hw
      rw [compactFields, compactFields, List.append_assoc, List.append_assoc] at h
      obtain ⟨rfl, hmember⟩ := dumpsStr_inj h
      rw [List.cons_append, List.cons_append, List.cons.injEq, List.append_assoc,
        List.append_assoc] at hmember
      obtain ⟨rfl, hmore⟩ := compact_inj v w hv.1 hw.1 (closed_moreFields vs rest)
        (closed_moreFields ws rest') hmember.2
      obtain ⟨rfl, hr⟩ := compactMoreFields_inj vs ws hv.2 hw.2 hmore
      exact ⟨rfl, hr⟩

theorem compactMoreFields_inj : ∀ (fields fields' : List (String × Json)) {rest rest' : List Char},
    properFields fields = true → properFields fields' = true →
    compactMoreFields fields ++ rest = compactMoreFields fields' ++ rest' →
      fields = fields' ∧ rest = rest'
  | [], [], _, _, _, _, h => ⟨rfl, (List.cons.inj h).2⟩
  | [], (k, w) :: ws, _, _, _, _, h => absurd (List.cons.inj h).1 (by decide)
  | (k, v) :: vs, [], _, _, _, _, h => absurd (List.cons.inj h).1 (by decide)
  | (k, v) :: vs, (l, w) :: ws, rest, rest', hv, hw, h => by
      rw [properFields, Bool.and_eq_true] at hv hw
      rw [compactMoreFields, compactMoreFields, List.cons_append, List.cons_append,
        List.cons.injEq, List.append_assoc, List.append_assoc] at h
      obtain ⟨rfl, hmember⟩ := dumpsStr_inj h.2
      rw [List.cons_append, List.cons_append, List.cons.injEq, List.append_assoc,
        List.append_assoc] at hmember
      obtain ⟨rfl, hmore⟩ := compact_inj v w hv.1 hw.1 (closed_moreFields vs rest)
        (closed_moreFields ws rest') hmember.2
      obtain ⟨rfl, hr⟩ := compactMoreFields_inj vs ws hv.2 hw.2 hmore
      exact ⟨rfl, hr⟩

end

/-- Different values have different compact texts. -/
theorem dumpsCompact_inj {v w : Json} (hv : v.proper = true) (hw : w.proper = true)
    (h : dumpsCompact v = dumpsCompact w) : v = w := by
  have htext : compact v = compact w := by
    rw [← String.toList_ofList (l := compact v), ← dumpsCompact, h, dumpsCompact,
      String.toList_ofList]
  have hclosed : Closed [] := by simp [Closed]
  exact (compact_inj v w hv hw hclosed hclosed (congrArg (· ++ []) htext)).1

end Library.Json

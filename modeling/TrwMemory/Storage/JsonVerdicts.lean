import TrwMemory.Storage.ColumnVerdicts

/-!
The verdicts of the columns that hold JSON. Each parser has a guard of its own, and what
that guard passes on meets the guard of the row.
-/
namespace TrwMemory.Codec

open Library Storage

variable (py : Python)

/-- The first item that fails decides, where the failure of the list is guarded. -/
theorem verdict_mapM {α β : Type} {f : α → Except PyError β} {guarded : PyError → Bool}
    (items : List α) :
    verdict quarantines (orElse guarded [] (items.mapM f)) =
      match items.find? fun a => !(f a).isOk with
      | some a => verdict quarantines (orElse guarded [] ((f a).map fun b => [b]))
      | none => .fine := by
  induction items with
  | nil => rfl
  | cons a items ih =>
      rw [List.mapM_cons]
      cases ha : f a with
      | error error =>
          rw [List.find?_cons_of_pos (by rw [ha]; rfl)]
          dsimp only
          rw [ha]
          rfl
      | ok b =>
          rw [List.find?_cons_of_neg (by rw [ha]; exact Bool.false_ne_true), ← ih]
          cases items.mapM f with
          | ok _ => rfl
          | error error =>
              change verdict _ (if guarded error then _ else _) =
                verdict _ (if guarded error then _ else _)
              cases guarded error <;> rfl

theorem isOk_map {α β : Type} (x : Except PyError α) (g : α → β) : (x.map g).isOk = x.isOk := by
  cases x <;> rfl

theorem strOfJson_deep {v : Json} (h : (py.strOfJson v).isOk = false) :
    py.strOfJson v = .error .recursion := by
  have helim : ∀ o : Option String,
      (o.elim (Except.error PyError.recursion) Except.ok).isOk = false →
        o.elim (Except.error PyError.recursion) Except.ok = .error .recursion := fun o h => by
    cases o with
    | none => rfl
    | some s => cases h
  cases v with
  | str s => cases h
  | _ => exact helim _ h

theorem isOk_strOfJson (v : Json) : (py.strOfJson v).isOk = shows py v := by
  have helim : ∀ o : Option String,
      (o.elim (Except.error PyError.recursion) Except.ok).isOk = o.isSome :=
    fun o => by cases o <;> rfl
  cases v with
  | str s => rfl
  | _ => exact helim _

/-- No guard on the way catches a `str` that runs too deep. -/
theorem verdict_shown {α β : Type} (value : α → Json) (g : α → String → β) (items : List α) :
    verdict quarantines (orElse PyError.isDecodeOrType []
        (items.mapM fun a => (py.strOfJson (value a)).map (g a))) =
      showVerdict py (items.map value) := by
  rw [verdict_mapM]
  cases hfind : items.find? fun a => !((py.strOfJson (value a)).map (g a)).isOk with
  | none =>
      refine (if_pos (List.all_eq_true.mpr fun v hv => ?_)).symm
      obtain ⟨a, ha, rfl⟩ := List.mem_map.mp hv
      have hok := List.find?_eq_none.mp hfind a ha
      rwa [isOk_map, Bool.not_eq_true', Bool.not_eq_false, isOk_strOfJson] at hok
  | some a =>
      have hdeep := List.find?_some hfind
      rw [isOk_map, Bool.not_eq_true'] at hdeep
      have hvalue : value a ∈ items.map value :=
        List.mem_map_of_mem (List.mem_of_find?_eq_some hfind)
      have hnot : ¬(items.map value).all (shows py) = true := fun hall => by
        rw [isOk_strOfJson, List.all_eq_true.mp hall _ hvalue] at hdeep
        cases hdeep
      rw [showVerdict, if_neg hnot]
      dsimp only
      rw [strOfJson_deep py hdeep]
      rfl

/-- `int` of a JSON value overflows exactly at an infinite number. -/
theorem intOfJson_error {v : Json} {error : PyError} (h : py.intOfJson v = .error error) :
    if isInfinite py v then error = .overflow else error = .value ∨ error = .type := by
  cases v with
  | bool b => cases h
  | int n => cases h
  | null => exact .inr (Except.error.inj h).symm
  | arr items => exact .inr (Except.error.inj h).symm
  | obj fields => exact .inr (Except.error.inj h).symm
  | str s =>
      change (py.int s).elim (Except.error PyError.value) Except.ok = _ at h
      cases hint : py.int s with
      | none =>
          rw [hint] at h
          exact .inl (Except.error.inj h).symm
      | some n =>
          rw [hint] at h
          cases h
  | float text =>
      rw [isInfinite]
      unfold Python.intOfJson at h
      dsimp only at h
      cases hfloat : py.float text with
      | none =>
          rw [hfloat] at h
          exact .inl (Except.error.inj h).symm
      | some x =>
          rw [hfloat] at h
          cases x with
          | finite x => cases h
          | inf => exact (Except.error.inj h).symm
          | negInf => exact (Except.error.inj h).symm
          | nan => exact .inl (Except.error.inj h).symm

/-- What a failed conversion comes to, inside the guard of a column. -/
theorem verdict_conversion {α : Type} {v : Json} {x : Except PyError α} {default : α}
    (hx : x.map (fun _ => ()) = (py.intOfJson v).map fun _ => ())
    (hfails : (py.intOfJson v).isOk = false) :
    verdict quarantines (orElse PyError.isValueOrType default x) =
      if isInfinite py v then .escaped else .fine := by
  cases hv : py.intOfJson v with
  | ok n =>
      rw [hv] at hfails
      cases hfails
  | error error =>
      have herror := intOfJson_error py hv
      rw [hv] at hx
      cases x with
      | ok a => cases hx
      | error other =>
          obtain rfl := Except.error.inj hx
          cases hinf : isInfinite py v with
          | true =>
              rw [hinf, if_pos rfl] at herror
              rw [herror]
              rfl
          | false =>
              rw [hinf, if_neg Bool.false_ne_true] at herror
              rcases herror with rfl | rfl <;> rfl

/-- The conversions of a list of values: each guard on the way catches all but an overflow. -/
theorem verdict_counts {α β : Type} (value : α → Json) (g : α → Int → β) (items : List α) :
    verdict quarantines (orElse PyError.isValueOrType []
        (items.mapM fun a => (py.intOfJson (value a)).map (g a))) =
      countsVerdict py (items.map value) := by
  have hsame : (fun a => !((py.intOfJson (value a)).map (g a)).isOk) =
      (fun v => !(py.intOfJson v).isOk) ∘ value := funext fun a => by rw [isOk_map]; rfl
  rw [verdict_mapM, countsVerdict, List.find?_map, hsame]
  cases hfind : items.find? ((fun v => !(py.intOfJson v).isOk) ∘ value) with
  | none => rfl
  | some a =>
      have hfails := List.find?_some hfind
      rw [Function.comp_apply, Bool.not_eq_true'] at hfails
      exact verdict_conversion py (by cases py.intOfJson (value a) <;> rfl) hfails

/-- A JSON column under the guard of its own parser. -/
theorem verdict_json {α : Type} {c : Cell} {items : Json → Verdict}
    {parse : Json → Except PyError α} {default : α}
    (hparse : ∀ v, verdict quarantines (orElse PyError.isDecodeOrType default (parse v)) =
      items v) :
    (if c.toPyValue.truthy then
        verdict quarantines (orElse PyError.isDecodeOrType default do
          parse (← py.loadsText (← py.strOf c.toPyValue)))
      else .fine) = jsonVerdict py items c := by
  simp only [jsonVerdict, given, strOf_cell, bind, Except.bind, Python.loadsText]
  cases c.toPyValue.truthy with
  | false => rfl
  | true =>
      rw [if_pos rfl, if_pos rfl]
      cases py.loads (c.shown py) with
      | ok v => exact hparse v
      | error error => cases error <;> rfl

theorem verdict_items (v : Json) :
    verdict quarantines (orElse PyError.isDecodeOrType [] (match v with
      | .arr items => items.mapM py.strOfJson
      | _ => .ok [])) = itemsVerdict py v := by
  cases v with
  | arr items =>
      have hmap : (fun v => (py.strOfJson v).map fun s => s) = py.strOfJson :=
        funext fun v => by cases py.strOfJson v <;> rfl
      have hshown := verdict_shown py id (fun _ s => s) items
      rw [List.map_id] at hshown
      rw [itemsVerdict, ← hshown]
      simp only [id, hmap]
  | _ => rfl

theorem verdict_values (v : Json) :
    verdict quarantines (orElse PyError.isDecodeOrType [] (match v with
      | .obj fields => comprehend py.strOfJson fields
      | _ => .ok [])) = valuesVerdict py v := by
  cases v with
  | obj fields => exact verdict_shown py Prod.snd (fun field s => (field.1, s)) fields
  | _ => rfl

theorem verdict_parseJsonList (c : Cell) :
    verdict quarantines (parseJsonList py c.toPyValue) = jsonVerdict py (itemsVerdict py) c := by
  rw [← verdict_json py (verdict_items py)]
  unfold parseJsonList
  cases htruthy : c.toPyValue.truthy with
  | false => rfl
  | true => cases c <;> rfl

theorem verdict_parseJsonDictStr (c : Cell) :
    verdict quarantines (parseJsonDictStr py c.toPyValue) =
      jsonVerdict py (valuesVerdict py) c := by
  rw [← verdict_json py (verdict_values py)]
  unfold parseJsonDictStr
  cases htruthy : c.toPyValue.truthy with
  | false => rfl
  | true => cases c <;> rfl

theorem verdict_clock (v : Json) :
    verdict quarantines (match v with
      | .obj fields => orElse PyError.isValueOrType [] (comprehend py.intOfJson fields)
      | _ => .ok []) = clockVerdict py v := by
  cases v with
  | obj fields => exact verdict_counts py Prod.snd (fun field n => (field.1, n)) fields
  | _ => rfl

/-- The text is read under one guard, and its values are converted under another. -/
theorem verdict_clockRead (r : Except LoadsError Json) :
    verdict quarantines (do
      let candidate ← orElse PyError.isDecodeOrType .null (r.mapError LoadsError.toPyError)
      match candidate with
      | .obj fields => orElse PyError.isValueOrType [] (comprehend py.intOfJson fields)
      | _ => .ok []) = match r with
        | .ok v => clockVerdict py v
        | .error .decode => .fine
        | .error .value => .refused
        | .error .recursion => .escaped := by
  cases r with
  | ok v => exact verdict_clock py v
  | error error => cases error <;> rfl

theorem verdict_parseJsonDictInt (c : Cell) :
    verdict quarantines (parseJsonDictInt py c.toPyValue) =
      jsonVerdict py (clockVerdict py) c := by
  unfold parseJsonDictInt jsonVerdict given
  cases c.toPyValue.truthy with
  | false => rfl
  | true => cases c <;> exact verdict_clockRead py _

/-- A column of evidence under the guard of its parser. -/
theorem verdict_parseModelList {α : Type} {validate : Json → Except PyError α}
    {items : Json → Verdict} (hitems : ∀ v, verdict quarantines
      (orElse PyError.isValueOrType [] (match v with
        | .arr values => values.mapM validate
        | _ => .ok [])) = items v) (c : Cell) :
    verdict quarantines (parseModelList py validate c.toPyValue) = evidenceVerdict py items c := by
  unfold parseModelList evidenceVerdict given
  simp only [strOf_cell, bind, Except.bind, Python.loadsText]
  cases c.toPyValue.truthy with
  | false => rfl
  | true =>
      cases isEmptyArray c.toPyValue with
      | true => rfl
      | false =>
          simp only [Bool.not_true, Bool.or_false, Bool.false_eq_true, if_false, if_true]
          cases py.loads (c.shown py) with
          | ok v => exact hitems v
          | error error => cases error <;> rfl

theorem verdict_assertions (pydantic : Pydantic) (c : Cell) :
    verdict quarantines (parseModelList py (validateAssertion pydantic) c.toPyValue) =
      evidenceVerdict py (fun _ => .fine) c := by
  refine verdict_parseModelList py (fun v => ?_) c
  cases v with
  | arr items =>
      change verdict _ (orElse _ _ (items.mapM (validateAssertion pydantic))) = _
      rw [verdict_mapM]
      cases items.find? fun item => !(validateAssertion pydantic item).isOk with
      | none => rfl
      | some item =>
          have helim : ∀ o : Option Assertion, verdict quarantines (orElse PyError.isValueOrType []
              ((o.elim (Except.error PyError.value) Except.ok).map fun a => [a])) = .fine :=
            fun o => by cases o <;> rfl
          exact helim _
  | _ => rfl

/-- What a computation comes to inside the guard of a column of evidence. -/
def softVerdict {α : Type} (x : Except PyError α) : Verdict :=
  verdict quarantines (orElse PyError.isValueOrType () (x.map fun _ => ()))

theorem softVerdict_eq {α β : Type} (x : Except PyError α) (g : α → β) (default : β) :
    verdict quarantines (orElse PyError.isValueOrType default (x.map g)) = softVerdict x := by
  cases x with
  | ok a => rfl
  | error error => cases error <;> rfl

theorem softVerdict_bind {α β : Type} {x : Except PyError α} {f : α → Except PyError β}
    (hf : ∀ a, softVerdict (f a) = .fine) : softVerdict (x >>= f) = softVerdict x := by
  cases x with
  | ok a => exact hf a
  | error error => rfl

theorem softVerdict_built {α : Type} (o : Option α) :
    softVerdict (o.elim (.error .value) .ok) = .fine := by
  cases o <;> rfl

/-- A conversion in a validator: there a `ValueError` refuses the field. -/
theorem softVerdict_conversion {α : Type} {v : Json} {error : PyError}
    (h : py.intOfJson v = .error error) :
    softVerdict (orElse (· == .value) (none : Option α) (.error error)) =
      if isInfinite py v then .escaped else .fine := by
  have herror := intOfJson_error py h
  cases hinf : isInfinite py v with
  | true =>
      rw [hinf, if_pos rfl] at herror
      rw [herror]
      rfl
  | false =>
      rw [hinf, if_neg Bool.false_ne_true] at herror
      rcases herror with rfl | rfl <;> rfl

theorem softVerdict_range (start stop : Json) :
    softVerdict (Anchor.coerceLineRange py (some (.arr [start, stop]))) =
      countsVerdict py [start, stop] := by
  rw [Anchor.coerceLineRange, countsVerdict]
  cases hstart : py.intOfJson start with
  | error error =>
      rw [List.find?_cons_of_pos (by rw [hstart]; rfl)]
      exact softVerdict_conversion py hstart
  | ok first =>
      rw [List.find?_cons_of_neg (by rw [hstart]; exact Bool.false_ne_true)]
      cases hstop : py.intOfJson stop with
      | error error =>
          rw [List.find?_cons_of_pos (by rw [hstop]; rfl)]
          exact softVerdict_conversion py hstop
      | ok last =>
          rw [List.find?_cons_of_neg (by rw [hstop]; exact Bool.false_ne_true)]
          rfl

theorem softVerdict_lineRange (raw : Option Json) :
    softVerdict (Anchor.coerceLineRange py raw) = rangeVerdict py raw := by
  unfold rangeVerdict
  split
  · exact softVerdict_range py _ _
  · rename_i hrange
    unfold Anchor.coerceLineRange
    split
    · rfl
    · rfl
    · exact absurd rfl (hrange _ _)
    · rfl

theorem softVerdict_bind_ok {α β : Type} {x : Except PyError α} {f : α → Except PyError β} {a : α}
    (h : x = .ok a) : softVerdict (x >>= f) = softVerdict (f a) := by
  rw [h]
  rfl

/-- What a validator raises that is no `ValueError` is raised where it occurs. -/
theorem softVerdict_anchor (item : Json) :
    softVerdict (Anchor.validate py item) = anchorVerdict py item := by
  cases item with
  | obj fields =>
      rw [Anchor.validate, anchorVerdict]
      have hrange := softVerdict_lineRange py (Json.field? "line_range" fields)
      cases Json.field? "signature" fields with
      | none =>
          exact (softVerdict_bind_ok rfl).trans
            ((softVerdict_bind fun _ => softVerdict_built _).trans hrange)
      | some signature =>
          cases signature with
          | str s =>
              exact (softVerdict_bind_ok rfl).trans
                ((softVerdict_bind fun _ => softVerdict_built _).trans hrange)
          | arr items =>
              exact (softVerdict_bind_ok rfl).trans
                ((softVerdict_bind fun _ => softVerdict_built _).trans hrange)
          | obj fields =>
              dsimp only [Anchor.sliceSignature]
              cases py.slicesHash <;> rfl
          | _ => rfl
  | _ => rfl

theorem verdict_anchors (c : Cell) :
    verdict quarantines (parseModelList py (Anchor.validate py) c.toPyValue) =
      evidenceVerdict py (anchorsVerdict py) c := by
  refine verdict_parseModelList py (fun v => ?_) c
  cases v with
  | arr items =>
      change verdict _ (orElse _ _ (items.mapM (Anchor.validate py))) = _
      rw [verdict_mapM, anchorsVerdict]
      cases items.find? fun item => !(Anchor.validate py item).isOk with
      | none => rfl
      | some item => exact (softVerdict_eq _ _ _).trans (softVerdict_anchor py item)
  | _ => rfl

end TrwMemory.Codec

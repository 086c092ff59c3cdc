import TrwMemory.Library.Verdicts
import TrwMemory.Storage.TemporalFetch

/-!
Which values of a column the guard of a row catches, and which escape it, told by the value
alone: one definition for each kind of column, and the parser comes to what it says.
-/
namespace TrwMemory.Codec

open Library Storage

variable (py : Python)

/-- `str` of a cell. -/
def Cell.shown : Cell → String
  | null => "None"
  | int n => toString n
  | float x => py.strFloat x
  | str s => s
  | bytes raw => py.strBytes raw

theorem strOf_cell (c : Cell) : py.strOf c.toPyValue = .ok (c.shown py) := by
  cases c <;> rfl

/-- A column that is read only where it has a value. -/
def given (c : Cell) (v : Verdict) : Verdict := if c.toPyValue.truthy then v else .fine

/-- A timestamp escapes where its shift to UTC leaves the years. -/
def timeVerdict (c : Cell) : Verdict :=
  match py.fromisoformat (c.shown py) with
  | some d => if d.toUtc.isSome then .fine else .escaped
  | none => .fine

/-- A JSON column: nesting that is too deep escapes, and of the errors of a text only that
of the format is caught on the way. -/
def jsonVerdict (items : Json → Verdict) (c : Cell) : Verdict :=
  given c <|
    match py.loads (c.shown py) with
    | .ok v => items v
    | .error .decode => .fine
    | .error .value => .refused
    | .error .recursion => .escaped

/-- `str` of a value inside JSON can run too deep. -/
def shows : Json → Bool
  | .str _ => true
  | v => (py.strJson v).isSome

def showVerdict (items : List Json) : Verdict :=
  if items.all (shows py) then .fine else .escaped

def itemsVerdict : Json → Verdict
  | .arr items => showVerdict py items
  | _ => .fine

def valuesVerdict : Json → Verdict
  | .obj fields => showVerdict py (fields.map Prod.snd)
  | _ => .fine

def isInfinite : Json → Bool
  | .float text => py.float text == some .inf || py.float text == some .negInf
  | _ => false

/-- `int` of each value: the first that fails escapes where it is an infinite number. -/
def countsVerdict (values : List Json) : Verdict :=
  match values.find? fun v => !(py.intOfJson v).isOk with
  | some v => if isInfinite py v then .escaped else .fine
  | none => .fine

def clockVerdict : Json → Verdict
  | .obj fields => countsVerdict py (fields.map Prod.snd)
  | _ => .fine

def rangeVerdict : Option Json → Verdict
  | some (.arr [start, stop]) => countsVerdict py [start, stop]
  | _ => .fine

/-- An anchor that is no valid one. -/
def anchorVerdict : Json → Verdict
  | .obj fields =>
      match Json.field? "signature" fields with
      | some (.obj _) => if py.slicesHash then .refused else .fine
      | none | some (.str _) | some (.arr _) =>
          rangeVerdict py (Json.field? "line_range" fields)
      | some _ => .fine
  | _ => .fine

def anchorsVerdict : Json → Verdict
  | .arr items =>
      match items.find? fun item => !(Anchor.validate py item).isOk with
      | some item => anchorVerdict py item
      | none => .fine
  | _ => .fine

/-- A column of evidence: all errors of its text are caught on the way. -/
def evidenceVerdict (items : Json → Verdict) (c : Cell) : Verdict :=
  given c <|
    if isEmptyArray c.toPyValue then .fine
    else
      match py.loads (c.shown py) with
      | .ok v => items v
      | .error .decode | .error .value => .fine
      | .error .recursion => .escaped

def intVerdict : Cell → Verdict
  | .int _ => .fine
  | c => if (py.int (c.shown py)).isSome then .fine else .refused

def floatVerdict : Cell → Verdict
  | .float _ => .fine
  | c => if (py.float (c.shown py)).isSome then .fine else .refused

def memberVerdict {α : Type} (ofText : String → Option α) : Cell → Verdict
  | .str v => if (ofText v).isSome then .fine else .refused
  | _ => .refused

theorem verdict_strOf (c : Cell) : verdict quarantines (py.strOf c.toPyValue) = .fine := by
  rw [strOf_cell]
  rfl

theorem verdict_textOf (c : Cell) : verdict quarantines (textOf py c.toPyValue) = .fine := by
  rw [textOf, strOf_cell]
  cases c.toPyValue.truthy <;> rfl

theorem verdict_textOrAbsent (c : Cell) :
    verdict quarantines (textOrAbsent py c.toPyValue) = .fine := by
  rw [textOrAbsent, strOf_cell]
  cases c.toPyValue.truthy <;> rfl

theorem verdict_intOf (c : Cell) :
    verdict quarantines (py.intOf c.toPyValue) = intVerdict py c := by
  have hread : ∀ o : Option Int, verdict quarantines (o.elim (.error PyError.value) .ok) =
      if o.isSome then .fine else .refused := fun o => by cases o <;> rfl
  cases c with
  | int n => rfl
  | _ => exact hread _

theorem verdict_countOf (c : Cell) :
    verdict quarantines (countOf py c.toPyValue) = given c (intVerdict py c) := by
  rw [countOf, given, ← verdict_intOf]
  cases c.toPyValue.truthy <;> rfl

theorem verdict_floatOf (c : Cell) :
    verdict quarantines (py.floatOf c.toPyValue) = floatVerdict py c := by
  have hread : ∀ o : Option PyFloat, verdict quarantines (o.elim (.error PyError.value) .ok) =
      if o.isSome then .fine else .refused := fun o => by cases o <;> rfl
  cases c with
  | float x => rfl
  | _ => exact hread _

theorem verdict_memberOf {α : Type} (ofText : String → Option α) (c : Cell) :
    verdict quarantines (memberOf ofText c.toPyValue) = memberVerdict ofText c := by
  cases c with
  | str v =>
      change verdict quarantines ((ofText v).elim (.error PyError.value) .ok) = _
      rw [memberVerdict]
      cases ofText v <;> rfl
  | _ => rfl

theorem verdict_parseOptionalFloat (c : Cell) :
    verdict quarantines (parseOptionalFloat py c.toPyValue) = .fine := by
  have hread : ∀ o : Option PyFloat, verdict quarantines (orElse PyError.isValueOrType none
      ((o.elim (Except.error PyError.value) Except.ok).map some)) = .fine :=
    fun o => by cases o <;> rfl
  cases c with
  | null => rfl
  | float x => rfl
  | _ => exact hread _

theorem verdict_built {α : Type} (o : Option α) :
    verdict quarantines (o.elim (.error PyError.value) .ok) ≠ .escaped := by
  intro h
  cases o with
  | none => cases h
  | some a => cases h

theorem parsed_elim (o : Option Datetime) :
    (match o with
      | none => Except.error PyError.value
      | some d => shiftToUtc d) = o.elim (Except.error .value) shiftToUtc := by
  cases o <;> rfl

theorem verdict_parseDtSafe {α : Type} (c : Cell) (default : α) (parsed : Datetime → α) :
    verdict quarantines (parseDtSafe py c.toPyValue default parsed) = timeVerdict py c := by
  have hparse : parseDt py c.toPyValue =
      (py.fromisoformat (c.shown py)).elim (.error .value) shiftToUtc := by
    cases c <;> exact parsed_elim _
  rw [parseDtSafe, hparse, timeVerdict]
  cases py.fromisoformat (c.shown py) with
  | none => rfl
  | some d =>
      change verdict quarantines (orElse PyError.isValueOrType default
        ((d.toUtc.elim (Except.error .overflow) Except.ok).map parsed)) =
          if d.toUtc.isSome then .fine else .escaped
      cases d.toUtc <;> rfl

theorem verdict_timeOr (c : Cell) (default : Datetime) :
    verdict quarantines (timeOr py c.toPyValue default) = given c (timeVerdict py c) := by
  rw [timeOr, given, ← verdict_parseDtSafe py c default id]
  cases c.toPyValue.truthy <;> rfl

theorem verdict_timeOrAbsent (c : Cell) :
    verdict quarantines (timeOrAbsent py c.toPyValue) = given c (timeVerdict py c) := by
  rw [timeOrAbsent, given, ← verdict_parseDtSafe py c none some]
  cases c.toPyValue.truthy <;> rfl

theorem verdict_parseValidityFields (created validFrom invalidFrom : Cell) (now : Datetime) :
    verdict quarantines (parseValidityFields py created.toPyValue validFrom.toPyValue
        invalidFrom.toPyValue now) =
      Verdict.first [timeVerdict py created, given validFrom (timeVerdict py validFrom),
        given invalidFrom (timeVerdict py invalidFrom)] := by
  rw [← verdict_parseDtSafe py created now id]
  refine verdict_bind fun createdAt => ?_
  rw [← verdict_timeOr py validFrom createdAt]
  refine verdict_bind fun opened => ?_
  rw [← verdict_timeOrAbsent py invalidFrom]
  exact verdict_bind fun closed => rfl

end TrwMemory.Codec

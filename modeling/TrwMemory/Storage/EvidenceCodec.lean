import Mathlib.Data.Rat.Floor
import TrwMemory.Library.JsonLoads
import TrwMemory.Models.EnumTexts
import TrwMemory.Models.Timestamps
import TrwMemory.Storage.Database

/-!
Column parsers (`storage/_parsing.py`) on any value that a column or a key of a document
can hold. What the interpreter makes of a text is a parameter: its readers of JSON, of
dates and of numbers, and what it writes of a value that is no text. Each of them fails in
the ways it is documented to fail, and in no other. A text of JSON with a lone surrogate counts
as one that is refused.

Assertions and anchors as JSON: what a dump of them holds, and the validators that run when
they are built again (`models/memory.py`). Where a field is not of its own type already,
what the model library makes of the value is a parameter, and so is the text it writes of a
timestamp. A dump is given in full; keys that no field has are ignored.
-/
namespace TrwMemory.Storage

open Library

inductive PyFloat where
  | finite (x : Rat)
  | inf | negInf | nan
  deriving DecidableEq, Repr

/-- A dictionary that was read holds each key once. -/
inductive PyValue where
  | none
  | bool (b : Bool)
  | int (n : Int)
  | float (x : PyFloat)
  | str (s : String)
  | bytes (raw : List UInt8)
  | datetime (d : Datetime)
  | list (items : List Json)
  | dict (fields : List (String × Json))

/-- `decode` is `JSONDecodeError`, which is a `ValueError`; `value` is any other. -/
inductive PyError where
  | decode | value | type | key | overflow | recursion
  deriving DecidableEq, Repr

inductive LoadsError where
  | decode | value | recursion
  deriving DecidableEq, Repr

def LoadsError.toPyError : LoadsError → PyError
  | decode => .decode
  | value => .value
  | recursion => .recursion

/-- The interpreter: `json.loads`, `datetime.fromisoformat`, `float` and `int` of a text,
and `str` of what is no text; `none` is a `ValueError`, and for `strJson` a
`RecursionError`. Before Python 3.12 a slice does not hash. -/
structure Python where
  loads : String → Except LoadsError Json
  fromisoformat : String → Option Datetime
  float : String → Option PyFloat
  int : String → Option Int
  strFloat : PyFloat → String
  strBytes : List UInt8 → String
  strDatetime : Datetime → String
  strJson : Json → Option String
  slicesHash : Bool

namespace Python

variable (py : Python)

/-- `json.loads`. -/
def loadsText (text : String) : Except PyError Json := (py.loads text).mapError LoadsError.toPyError

def strOfJson : Json → Except PyError String
  | .str s => .ok s
  | v => (py.strJson v).elim (.error .recursion) .ok

/-- `str(val)`. -/
def strOf : PyValue → Except PyError String
  | .none => .ok "None"
  | .bool b => .ok (if b then "True" else "False")
  | .int n => .ok (toString n)
  | .float x => .ok (py.strFloat x)
  | .str s => .ok s
  | .bytes raw => .ok (py.strBytes raw)
  | .datetime d => .ok (py.strDatetime d)
  | .list items => py.strOfJson (.arr items)
  | .dict fields => py.strOfJson (.obj fields)

/-- `int(str(val))`. -/
def intOf : PyValue → Except PyError Int
  | .int n => .ok n
  | val => do (py.int (← py.strOf val)).elim (.error .value) .ok

/-- `float(str(val))`. -/
def floatOf : PyValue → Except PyError PyFloat
  | .float x => .ok x
  | val => do (py.float (← py.strOf val)).elim (.error .value) .ok

/-- `int(v)` of a JSON value. -/
def intOfJson : Json → Except PyError Int
  | .bool b => .ok (if b then 1 else 0)
  | .int n => .ok n
  | .float text =>
      match py.float text with
      | some (.finite x) => .ok (if 0 ≤ x then ⌊x⌋ else ⌈x⌉)
      | some .nan | none => .error .value
      | some .inf | some .negInf => .error .overflow
  | .str s => (py.int s).elim (.error .value) .ok
  | .null | .arr _ | .obj _ => .error .type

end Python

/-- `bool(val)`. -/
def PyValue.truthy : PyValue → Bool
  | .none => false
  | .bool b => b
  | .int n => n != 0
  | .float x => x != .finite 0
  | .str s => s != ""
  | .bytes raw => raw != []
  | .datetime _ => true
  | .list items => !items.isEmpty
  | .dict fields => !fields.isEmpty

/-- `except (ValueError, TypeError)`. -/
def PyError.isValueOrType : PyError → Bool
  | decode | value | type => true
  | key | overflow | recursion => false

/-- `except (json.JSONDecodeError, TypeError)`. -/
def PyError.isDecodeOrType : PyError → Bool
  | decode | type => true
  | value | key | overflow | recursion => false

/-- A `try` whose `except` answers `default`. -/
def orElse {α : Type} (caught : PyError → Bool) (default : α) (x : Except PyError α) :
    Except PyError α :=
  match x with
  | .ok a => .ok a
  | .error error => if caught error then .ok default else .error error

section Parsers

variable (py : Python)

/-- The shift of `parse_dt`. -/
def shiftToUtc (d : Datetime) : Except PyError Datetime := d.toUtc.elim (.error .overflow) .ok

/-- `parse_dt`. -/
def parseDt : PyValue → Except PyError Datetime
  | .datetime d => shiftToUtc d
  | val => do
      match py.fromisoformat (← py.strOf val) with
      | none => .error .value
      | some d => shiftToUtc d

/-- `parse_dt_safe`. -/
def parseDtSafe {α : Type} (val : PyValue) (default : α) (parsed : Datetime → α) :
    Except PyError α :=
  orElse PyError.isValueOrType default ((parseDt py val).map parsed)

/-- `parse_optional_float`. -/
def parseOptionalFloat (raw : PyValue) : Except PyError (Option PyFloat) :=
  match raw with
  | .none => .ok none
  | raw => orElse PyError.isValueOrType none ((py.floatOf raw).map some)

/-- `parse_json_list`. -/
def parseJsonList (raw : PyValue) : Except PyError (List String) :=
  if !raw.truthy then .ok []
  else
    match raw with
    | .list items => items.mapM py.strOfJson
    | raw => orElse PyError.isDecodeOrType [] do
        match ← py.loadsText (← py.strOf raw) with
        | .arr items => items.mapM py.strOfJson
        | _ => .ok []

/-- `{str(k): f(v) for k, v in items}`. -/
def comprehend {α : Type} (f : Json → Except PyError α) (fields : List (String × Json)) :
    Except PyError (List (String × α)) :=
  fields.mapM fun field => (f field.2).map fun v => (field.1, v)

/-- `parse_json_dict_str`. -/
def parseJsonDictStr (raw : PyValue) : Except PyError (List (String × String)) :=
  if !raw.truthy then .ok []
  else
    match raw with
    | .dict fields => comprehend py.strOfJson fields
    | raw => orElse PyError.isDecodeOrType [] do
        match ← py.loadsText (← py.strOf raw) with
        | .obj fields => comprehend py.strOfJson fields
        | _ => .ok []

/-- `parse_json_dict_int`: the conversion is guarded apart from the reading. -/
def parseJsonDictInt (raw : PyValue) : Except PyError (List (String × Int)) :=
  if !raw.truthy then .ok []
  else do
    let candidate ←
      match raw with
      | .dict fields => .ok (.obj fields)
      | raw => orElse PyError.isDecodeOrType .null do py.loadsText (← py.strOf raw)
    match candidate with
    | .obj fields => orElse PyError.isValueOrType [] (comprehend py.intOfJson fields)
    | _ => .ok []

/-- `parse_dt_safe(raw, default=default) if raw else default`. -/
def timeOr (raw : PyValue) (default : Datetime) : Except PyError Datetime :=
  if raw.truthy then parseDtSafe py raw default id else .ok default

/-- `parse_dt_safe(raw, default=None) if raw else None`. -/
def timeOrAbsent (raw : PyValue) : Except PyError (Option Datetime) :=
  if raw.truthy then parseDtSafe py raw none some else .ok none

/-- `parse_validity_fields`. -/
def parseValidityFields (created validFrom invalidFrom : PyValue) (referenceTime : Datetime) :
    Except PyError (Datetime × Datetime × Option Datetime) := do
  let createdAt ← parseDtSafe py created referenceTime id
  let opened ← timeOr py validFrom createdAt
  let closed ← timeOrAbsent py invalidFrom
  return (createdAt, opened, closed)

end Parsers

end TrwMemory.Storage

namespace TrwMemory

open Library Storage

/-- The model library, on values that are not of the field's type, in its lax mode. -/
structure Pydantic where
  laxBool : Json → Option Bool
  laxInt : Json → Option Int
  laxDatetime : Json → Option Datetime
  dumpDatetime : Datetime → String

def MAX_PATTERN : Nat := 500
def MAX_COMMIT_HASH : Nat := 40
def MAX_GIT_URL : Nat := 2048
def MAX_SIGNATURE : Nat := 200

/-- A path that does not leave its root. -/
def relativePath (v : String) : Bool :=
  v != "" && v.toList.head? != some '/' && !(v.toList.splitOn '/').contains ['.', '.']

def dumpOption {α : Type} (dump : α → Json) : Option α → Json
  | none => .null
  | some a => dump a

def dumpRange (range : Int × Int) : Json := .arr [.int range.1, .int range.2]

/-- A field that may be absent or null. -/
def validateOption {α : Type} (f : Json → Option α) : Option Json → Option (Option α)
  | none | some .null => some none
  | some v => (f v).map some

/-- A text field with a default, checked only where it is given. -/
def validateStr (default : Option String) (valid : String → Bool) : Option Json → Option String
  | none => default
  | some (.str s) => if valid s then some s else none
  | some _ => none

theorem validateOption_dumpOption {α : Type} {f : Json → Option α} {dump : α → Json}
    (o : Option α) (hne : ∀ a ∈ o, dump a ≠ .null) (hf : ∀ a ∈ o, f (dump a) = some a) :
    validateOption f (some (dumpOption dump o)) = some o := by
  cases o with
  | none => rfl
  | some a =>
      have hne := hne a rfl
      rw [dumpOption, validateOption]
      · rw [hf a rfl]
        rfl
      · exact fun h => hne h

namespace Assertion

/-- `_validate_pattern`. -/
def validPattern (type : Option AssertionType) (v : String) : Bool :=
  !((type == some .grepPresent || type == some .grepAbsent) && pyBlank v) &&
    v.toList.length ≤ MAX_PATTERN

/-- What the validators accept. -/
def Valid (a : Assertion) : Prop :=
  validPattern (some a.type) a.pattern = true ∧ relativePath a.target = true ∧
    (∀ hash ∈ a.commitHash, hash.toList.length ≤ MAX_COMMIT_HASH) ∧
    ∀ url ∈ a.gitUrl, url.toList.length ≤ MAX_GIT_URL

/-- `model_dump(mode="json")`. -/
def dump (pydantic : Pydantic) (a : Assertion) : Json :=
  .obj [("type", .str a.type.text), ("pattern", .str a.pattern), ("target", .str a.target),
    ("last_result", dumpOption .bool a.lastResult),
    ("last_verified_at", dumpOption (fun d => .str (pydantic.dumpDatetime d)) a.lastVerifiedAt),
    ("last_evidence", .str a.lastEvidence),
    ("first_failed_at", dumpOption (fun d => .str (pydantic.dumpDatetime d)) a.firstFailedAt),
    ("commit_hash", dumpOption .str a.commitHash),
    ("line_range", dumpOption dumpRange a.lineRange), ("git_url", dumpOption .str a.gitUrl)]

def laxBool (pydantic : Pydantic) : Json → Option Bool
  | .bool b => some b
  | v => pydantic.laxBool v

def laxInt (pydantic : Pydantic) : Json → Option Int
  | .int n => some n
  | v => pydantic.laxInt v

def laxRange (pydantic : Pydantic) : Json → Option (Int × Int)
  | .arr [first, last] => do return (← laxInt pydantic first, ← laxInt pydantic last)
  | _ => none

def boundedStr (bound : Nat) : Json → Option String
  | .str s => if s.toList.length ≤ bound then some s else none
  | _ => none

/-- `model_validate(item, strict=False)`; `none` is a `ValidationError`. -/
def validate (pydantic : Pydantic) : Json → Option Assertion
  | .obj fields => do
      let type ←
        match Json.field? "type" fields with
        | some (.str v) => AssertionType.ofText v
        | _ => none
      return {
        type
        pattern := ← validateStr (some "") (validPattern (some type)) (Json.field? "pattern" fields)
        target := ← validateStr none relativePath (Json.field? "target" fields)
        lastResult := ← validateOption (laxBool pydantic) (Json.field? "last_result" fields)
        lastVerifiedAt :=
          ← validateOption pydantic.laxDatetime (Json.field? "last_verified_at" fields)
        lastEvidence :=
          ← validateStr (some "") (fun _ => true) (Json.field? "last_evidence" fields)
        firstFailedAt :=
          ← validateOption pydantic.laxDatetime (Json.field? "first_failed_at" fields)
        commitHash :=
          ← validateOption (boundedStr MAX_COMMIT_HASH) (Json.field? "commit_hash" fields)
        lineRange := ← validateOption (laxRange pydantic) (Json.field? "line_range" fields)
        gitUrl := ← validateOption (boundedStr MAX_GIT_URL) (Json.field? "git_url" fields) }
  | _ => none

/-- A timestamp as it is read back from its own dump. -/
def redate (pydantic : Pydantic) (o : Option Datetime) : Option (Option Datetime) :=
  validateOption pydantic.laxDatetime
    (some (dumpOption (fun d => .str (pydantic.dumpDatetime d)) o))

/-- An assertion as it is read back from its own dump. -/
def redated (pydantic : Pydantic) (a : Assertion) : Option Assertion := do
  let lastVerifiedAt ← redate pydantic a.lastVerifiedAt
  let firstFailedAt ← redate pydantic a.firstFailedAt
  return { a with lastVerifiedAt, firstFailedAt }

theorem boundedStr_dump {bound : Nat} {o : Option String}
    (h : ∀ s ∈ o, s.toList.length ≤ bound) :
    validateOption (boundedStr bound) (some (dumpOption .str o)) = some o :=
  validateOption_dumpOption o (fun _ _ => Json.noConfusion) fun s hs => if_pos (h s hs)

theorem laxRange_dump (pydantic : Pydantic) (o : Option (Int × Int)) :
    validateOption (laxRange pydantic) (some (dumpOption dumpRange o)) = some o :=
  validateOption_dumpOption o (fun _ _ => Json.noConfusion) fun _ _ => rfl

theorem laxBool_dump (pydantic : Pydantic) (o : Option Bool) :
    validateOption (laxBool pydantic) (some (dumpOption .bool o)) = some o :=
  validateOption_dumpOption o (fun _ _ => Json.noConfusion) fun _ _ => rfl

/-- An assertion comes back as it was, but for its timestamps. -/
theorem validate_dump (pydantic : Pydantic) {a : Assertion} (h : a.Valid) :
    validate pydantic (dump pydantic a) = redated pydantic a := by
  obtain ⟨hpattern, htarget, hhash, hurl⟩ := h
  simp only [validate, dump, Json.field?, List.find?_cons, String.reduceBEq,
    Option.map_some, AssertionType.ofText_text, validateStr, hpattern, htarget, if_true,
      boundedStr_dump hhash,
    boundedStr_dump hurl, laxRange_dump, laxBool_dump, Option.bind_eq_bind, Option.bind_some]
  rfl

end Assertion

namespace Anchor

/-- What the validators accept and leave as it is. -/
def Valid (a : Anchor) : Prop :=
  relativePath a.file = true ∧ pyBlank a.symbolName = false ∧
    a.signature.toList.length ≤ MAX_SIGNATURE

/-- `model_dump(mode="json")`. -/
def dump (a : Anchor) : Json :=
  .obj [("file", .str a.file), ("symbol_name", .str a.symbolName),
    ("symbol_type", .str a.symbolType.text), ("signature", .str a.signature),
    ("line_range", dumpOption dumpRange a.lineRange)]

/-- `_truncate_signature` runs before the field's own check; `none` is a list, which it
cuts and the check refuses. -/
def sliceSignature (py : Python) : Option Json → Except PyError (Option String)
  | none => .ok (some "")
  | some (.str s) => .ok (some (String.ofList (s.toList.take MAX_SIGNATURE)))
  | some (.arr _) => .ok none
  | some (.obj _) => .error (if py.slicesHash then .key else .type)
  | some _ => .error .type

/-- `_coerce_line_range`. A `ValueError` in it refuses the field, any other error is
passed on. -/
def coerceLineRange (py : Python) : Option Json → Except PyError (Option (Option (Int × Int)))
  | none | some .null => .ok (some none)
  | some (.arr [first, last]) =>
      orElse (· == .value) none do
        return some (some (← py.intOfJson first, ← py.intOfJson last))
  | some _ => .ok none

/-- `model_validate(item)`: the model is strict. The errors of the fields are collected,
and one that is no `ValueError` is raised where it occurs. -/
def validate (py : Python) : Json → Except PyError Anchor
  | .obj fields => do
      let signature ← sliceSignature py (Json.field? "signature" fields)
      let lineRange ← coerceLineRange py (Json.field? "line_range" fields)
      let built : Option Anchor := do
        return {
          file := ← validateStr none relativePath (Json.field? "file" fields)
          symbolName :=
            ← validateStr none (fun v => !pyBlank v) (Json.field? "symbol_name" fields)
          symbolType := ← SymbolType.ofText (← validateStr (some SymbolType.function.text)
            (fun _ => true) (Json.field? "symbol_type" fields))
          signature := ← signature
          lineRange := ← lineRange }
      built.elim (.error .value) .ok
  | _ => .error .value

theorem coerceLineRange_dump (py : Python) (o : Option (Int × Int)) :
    coerceLineRange py (some (dumpOption dumpRange o)) = .ok (some o) := by
  cases o <;> rfl

theorem validate_dump (py : Python) {a : Anchor} (h : a.Valid) :
    validate py (dump a) = .ok a := by
  obtain ⟨hfile, hsymbol, hsignature⟩ := h
  have hslice : sliceSignature py (some (.str a.signature)) = .ok (some a.signature) := by
    rw [sliceSignature, List.take_of_length_le hsignature, String.ofList_toList]
  simp only [validate, dump, Json.field?, List.find?_cons, String.reduceBEq, Option.map_some,
    hslice, coerceLineRange_dump, validateStr, hfile, hsymbol, Bool.not_false, if_true,
    SymbolType.ofText_text, Option.bind_eq_bind, Option.bind_some, bind_pure_comp]
  rfl

end Anchor

end TrwMemory

import TrwMemory.Storage.ListPaging
import TrwMemory.Storage.RowCodec

/-!
What each parser makes of the column that is written for it. The interpreter is any one
that reads JSON and timestamps as they are written; the other parameters stay open.

A row that was written of an entry, read back: what the rest of the development has as
`mapRow`, on the entry with its assertions as their dumps are read.
-/
namespace TrwMemory.Codec

open Library Storage

section Columns

/-- Lists of an entry hold objects, and these hold ranges. -/
def ENTRY_NESTING : Nat := 3

/-- The interpreter `py`, on texts that `json.dumps` and `isoformat` write. -/
def reading (py : Python) : Python :=
  { py with
    loads := fun text =>
      match Json.loads ENTRY_NESTING text with
      | some v => .ok v
      | none => py.loads text
    fromisoformat := fun text => (Datetime.fromisoformat text).or (py.fromisoformat text) }

variable (py : Python) (pydantic : Pydantic)

theorem loadsText_dumps {v : Json} (h : Json.Within ENTRY_NESTING v) :
    (reading py).loadsText (Json.dumps v) = .ok v := by
  rw [Python.loadsText, reading]
  dsimp only
  rw [Json.loads_dumps h]
  rfl

theorem truthy_dumps {v : Json} (h : Json.Within ENTRY_NESTING v) :
    (PyValue.str (Json.dumps v)).truthy = true := by
  obtain ⟨c, text, htext, -⟩ := Json.writeValue_start h
  rw [PyValue.truthy, bne_iff_ne]
  intro hempty
  rw [Json.writeValue, hempty] at htext
  cases htext

theorem within_strings (values : List String) :
    Json.Within ENTRY_NESTING (.arr (values.map .str)) := by
  intro v hv
  obtain ⟨s, -, rfl⟩ := List.mem_map.mp hv
  trivial

theorem mapM_strOfJson (values : List String) :
    (values.map Json.str).mapM py.strOfJson = .ok values := by
  induction values with
  | nil => rfl
  | cons s values ih =>
      rw [List.map_cons, List.mapM_cons, ih]
      rfl

theorem parseJsonList_listColumn (values : List String) :
    parseJsonList (reading py) (listColumn values) = .ok values := by
  have hwithin := within_strings values
  have htruthy := truthy_dumps hwithin
  unfold listColumn parseJsonList
  rw [htruthy]
  simp only [Bool.not_true, Bool.false_eq_true, if_false, Python.strOf, loadsText_dumps py hwithin,
    bind, Except.bind, mapM_strOfJson, orElse]

section Dictionaries

variable {α : Type}

theorem lookup_ofItems_keys (m : Finmap fun _ : String => α) (keys : List String) (key : String) :
    (ofItems (keys.filterMap fun key => (m.lookup key).map fun v => (key, v))).lookup key =
      if key ∈ keys then m.lookup key else none := by
  induction keys using List.reverseRecOn with
  | nil => rfl
  | append_singleton keys last ih =>
      rw [ofItems] at ih ⊢
      rw [List.filterMap_append, List.foldl_append]
      cases hlast : m.lookup last with
      | none =>
          simp only [List.filterMap_cons, hlast, Option.map_none, List.filterMap_nil,
            List.foldl_nil, ih, List.mem_append, List.mem_singleton]
          by_cases hkey : key = last
          · subst hkey
            simp [hlast]
          · simp [hkey]
      | some v =>
          simp only [List.filterMap_cons, hlast, Option.map_some, List.filterMap_nil,
            List.foldl_cons, List.foldl_nil, List.mem_append, List.mem_singleton]
          by_cases hkey : key = last
          · subst hkey
            simp [hlast]
          · rw [Finmap.lookup_insert_of_ne _ hkey, ih]
            simp [hkey]

/-- A dictionary is its items. -/
theorem ofItems_dictItems (m : Finmap fun _ : String => α) : ofItems (dictItems m) = m := by
  refine Finmap.ext_lookup fun key => ?_
  rw [dictItems, lookup_ofItems_keys]
  split
  · rfl
  · rename_i hkey
    rw [Finset.mem_sort, Finmap.mem_keys] at hkey
    exact (Finmap.lookup_eq_none.mpr hkey).symm

theorem comprehend_items {f : Json → Except PyError α} {json : α → Json}
    (hf : ∀ a, f (json a) = .ok a) (items : List (String × α)) :
    comprehend f (items.map fun item => (item.1, json item.2)) = .ok items := by
  rw [comprehend]
  induction items with
  | nil => rfl
  | cons item items ih =>
      rw [List.map_cons, List.mapM_cons, ih, hf]
      rfl

theorem within_items {json : α → Json} (hjson : ∀ a, Json.Within 2 (json a))
    (items : List (String × α)) :
    Json.Within ENTRY_NESTING (.obj (items.map fun item => (item.1, json item.2))) := by
  intro field hfield
  obtain ⟨item, -, rfl⟩ := List.mem_map.mp hfield
  exact hjson item.2

end Dictionaries

theorem parseJsonDictStr_dictColumn (m : Metadata) :
    parseJsonDictStr (reading py) (dictColumn .str m) = .ok (dictItems m) := by
  have hstr : ∀ s, Json.Within 2 (.str s) := fun _ => trivial
  have hwithin := within_items hstr (dictItems m)
  have htruthy := truthy_dumps hwithin
  have hread : ∀ s, (reading py).strOfJson (.str s) = .ok s := fun _ => rfl
  have hitems := comprehend_items hread (dictItems m)
  unfold dictColumn parseJsonDictStr
  rw [htruthy]
  simp only [Bool.not_true, Bool.false_eq_true, if_false, Python.strOf, loadsText_dumps py hwithin,
    bind, Except.bind, hitems, orElse]

theorem parseJsonDictInt_dictColumn (m : VectorClock) :
    parseJsonDictInt (reading py) (dictColumn .int m) = .ok (dictItems m) := by
  have hint : ∀ n, Json.Within 2 (.int n) := fun _ => trivial
  have hwithin := within_items hint (dictItems m)
  have htruthy := truthy_dumps hwithin
  have hread : ∀ n, (reading py).intOfJson (.int n) = .ok n := fun _ => rfl
  have hitems := comprehend_items hread (dictItems m)
  unfold dictColumn parseJsonDictInt
  rw [htruthy]
  simp only [Bool.not_true, Bool.false_eq_true, if_false, Python.strOf, loadsText_dumps py hwithin,
    bind, Except.bind, hitems, orElse]

theorem truthy_isoformat {d : Datetime} (h : d.InRange) :
    (PyValue.str d.isoformat).truthy = true := by
  rw [PyValue.truthy, bne_iff_ne]
  intro hempty
  have hread := Datetime.fromisoformat_isoformat h
  rw [hempty] at hread
  cases hread

theorem parseDtSafe_isoformat {α : Type} {d : Datetime} (h : d.InRange) (default : α)
    (parsed : Datetime → α) :
    parseDtSafe (reading py) (.str d.isoformat) default parsed = (shiftToUtc d).map parsed := by
  have hparse : parseDt (reading py) (.str d.isoformat) = shiftToUtc d := by
    unfold parseDt reading
    simp only [Python.strOf, bind, Except.bind, Datetime.fromisoformat_isoformat h, Option.some_or]
  rw [parseDtSafe, hparse, shiftToUtc]
  cases d.toUtc <;> rfl

/-- The shift of a timestamp that may be absent. -/
def shiftOption (o : Option Datetime) : Except PyError (Option Datetime) :=
  o.elim (.ok none) fun d => (shiftToUtc d).map some

theorem timeOrAbsent_timeColumn {o : Option Datetime} (h : ∀ d ∈ o, d.InRange) :
    timeOrAbsent (reading py) (timeColumn o) = shiftOption o := by
  cases o with
  | none => rfl
  | some d =>
      have hrange := h d rfl
      change timeOrAbsent (reading py) (.str d.isoformat) = (shiftToUtc d).map some
      rw [timeOrAbsent, truthy_isoformat hrange, if_pos rfl, parseDtSafe_isoformat py hrange]

theorem timeOr_isoformat {d : Datetime} (h : d.InRange) (default : Datetime) :
    timeOr (reading py) (.str d.isoformat) default = shiftToUtc d := by
  rw [timeOr, truthy_isoformat h, if_pos rfl, parseDtSafe_isoformat py h]
  cases shiftToUtc d <;> rfl

theorem parseValidityFields_columns {created validFrom : Datetime} {invalidFrom : Option Datetime}
    (hcreated : created.InRange) (hvalid : validFrom.InRange)
    (hinvalid : ∀ d ∈ invalidFrom, d.InRange) (now : Datetime) :
    parseValidityFields (reading py) (.str created.isoformat) (.str validFrom.isoformat)
        (timeColumn invalidFrom) now = do
      let created ← shiftToUtc created
      let opened ← shiftToUtc validFrom
      let closed ← shiftOption invalidFrom
      return (created, opened, closed) := by
  have hid : ∀ d, (shiftToUtc d).map id = shiftToUtc d := fun d => by cases shiftToUtc d <;> rfl
  rw [parseValidityFields, parseDtSafe_isoformat py hcreated, hid,
    timeOrAbsent_timeColumn py hinvalid]
  simp only [timeOr_isoformat py hvalid]

theorem textOf_str (s : String) : textOf py (.str s) = .ok s := by
  rw [textOf, PyValue.truthy]
  by_cases hs : s = ""
  · subst hs
    rfl
  · rw [bne_iff_ne.mpr hs]
    rfl

theorem textOrAbsent_textColumn (o : Option String) :
    textOrAbsent py (textColumn o) = .ok (textOrNone o) := by
  cases o with
  | none => rfl
  | some s =>
      change textOrAbsent py (.str s) = .ok (textOrNone (some s))
      rw [textOrAbsent, PyValue.truthy, textOrNone]
      by_cases hs : s = ""
      · subst hs
        rfl
      · simp [hs, Python.strOf, Except.map, Option.filter]

theorem countOf_int (n : Int) : countOf py (.int n) = .ok n := by
  rw [countOf, PyValue.truthy]
  by_cases hn : n = 0
  · subst hn
    rfl
  · rw [bne_iff_ne.mpr hn]
    rfl

theorem toCount_natCast (n : Nat) : toCount (n : Int) = some n := by
  rw [toCount, if_pos (Int.natCast_nonneg n), Int.toNat_natCast]

theorem parseOptionalFloat_column (o : Option Rat) :
    parseOptionalFloat py (o.elim .none fun x => .float (.finite x)) =
      .ok (o.map PyFloat.finite) := by
  cases o <;> rfl

theorem truthy_flagColumn (b : Bool) : (flagColumn b).truthy = b := by
  cases b <;> rfl

theorem pyStrip_type (m : MemoryType) : pyStrip m.text = m.text := by
  cases m <;> decide

theorem pyStrip_confidence (m : Confidence) : pyStrip m.text = m.text := by
  cases m <;> decide

theorem pyStrip_evidenceLevel (m : EvidenceLevel) : pyStrip m.text = m.text := by
  cases m <;> decide

theorem evidenceLevel_ne (m : EvidenceLevel) : m.text ≠ "" := by
  cases m <;> decide

theorem parseVerificationStatus_column (o : Option VerificationStatus) :
    parseVerificationStatus (textColumn (o.map VerificationStatus.text)) = o := by
  cases o with
  | none => rfl
  | some m => cases m <;> decide

theorem within_dumpRange (o : Option (Int × Int)) :
    Json.Within 1 (dumpOption dumpRange o) := by
  cases o with
  | none => trivial
  | some range =>
      intro v hv
      simp only [List.mem_cons, List.not_mem_nil, or_false] at hv
      rcases hv with rfl | rfl <;> trivial

theorem within_assertion (a : Assertion) : Json.Within 2 (Assertion.dump pydantic a) := by
  intro field hfield
  simp only [List.mem_cons, List.not_mem_nil, or_false] at hfield
  rcases hfield with rfl | rfl | rfl | rfl | rfl | rfl | rfl | rfl | rfl | rfl
  · trivial
  · trivial
  · trivial
  · cases a.lastResult <;> trivial
  · cases a.lastVerifiedAt <;> trivial
  · trivial
  · cases a.firstFailedAt <;> trivial
  · cases a.commitHash <;> trivial
  · exact within_dumpRange a.lineRange
  · cases a.gitUrl <;> trivial

theorem within_anchor (a : Anchor) : Json.Within 2 a.dump := by
  intro field hfield
  simp only [List.mem_cons, List.not_mem_nil, or_false] at hfield
  rcases hfield with rfl | rfl | rfl | rfl | rfl
  · trivial
  · trivial
  · trivial
  · trivial
  · exact within_dumpRange a.lineRange

end Columns

variable (py : Python) (pydantic : Pydantic)

section Lists

variable {α : Type} {dump : α → Json} {validate : Json → Except PyError α}

theorem parseModelList_dumps (hwithin : ∀ a, Json.Within 2 (dump a)) (items : List α) :
    parseModelList (reading py) validate (.str (Json.dumps (.arr (items.map dump)))) =
      orElse PyError.isValueOrType [] ((items.map dump).mapM validate) := by
  have hall : Json.Within ENTRY_NESTING (.arr (items.map dump)) := by
    intro v hv
    obtain ⟨a, -, rfl⟩ := List.mem_map.mp hv
    exact hwithin a
  rw [parseModelList, truthy_dumps hall]
  cases hempty : isEmptyArray (.str (Json.dumps (.arr (items.map dump)))) with
  | true =>
      have htext : Json.dumps (.arr (items.map dump)) = Json.dumps (.arr []) := by
        rw [beq_iff_eq.mp hempty]
        rfl
      have hnil : Json.Within ENTRY_NESTING (.arr []) := List.forall_mem_nil _
      have hloads := Json.loads_dumps hall
      rw [htext, Json.loads_dumps hnil] at hloads
      rw [← Json.arr.inj (Option.some.inj hloads)]
      rfl
  | false =>
      simp only [Bool.not_true, Bool.or_self, Bool.false_eq_true, if_false, Python.strOf,
        loadsText_dumps py hall, bind, Except.bind]

theorem mapM_dump {items : List α} (h : ∀ a ∈ items, validate (dump a) = .ok a) :
    (items.map dump).mapM validate = .ok items := by
  induction items with
  | nil => rfl
  | cons a items ih =>
      rw [List.forall_mem_cons] at h
      rw [List.map_cons, List.mapM_cons, h.1, ih h.2]
      rfl

end Lists

/-- A list of assertions as it is read back: one that fails loses the list. -/
def reread (assertions : List Assertion) : List Assertion :=
  (assertions.mapM (Assertion.redated pydantic)).getD []

theorem parseAssertions_dumps {assertions : List Assertion} (h : ∀ a ∈ assertions, a.Valid) :
    parseModelList (reading py) (validateAssertion pydantic)
        (.str (Json.dumps (.arr (assertions.map (Assertion.dump pydantic))))) =
      .ok (reread pydantic assertions) := by
  have hmap : (assertions.map (Assertion.dump pydantic)).mapM (validateAssertion pydantic) =
      (assertions.mapM (Assertion.redated pydantic)).elim (.error .value) .ok := by
    induction assertions with
    | nil => rfl
    | cons a assertions ih =>
        rw [List.forall_mem_cons] at h
        rw [List.map_cons, List.mapM_cons, List.mapM_cons, ih h.2, validateAssertion,
          Assertion.validate_dump pydantic h.1]
        cases Assertion.redated pydantic a with
        | none => rfl
        | some a => cases assertions.mapM (Assertion.redated pydantic) <;> rfl
  rw [parseModelList_dumps py (within_assertion pydantic), hmap, reread]
  cases assertions.mapM (Assertion.redated pydantic) <;> rfl

theorem parseAnchors_dumps {anchors : List Anchor} (h : ∀ a ∈ anchors, a.Valid) :
    parseModelList (reading py) (Anchor.validate (reading py))
        (.str (Json.dumps (.arr (anchors.map Anchor.dump)))) = .ok anchors := by
  rw [parseModelList_dumps py within_anchor,
    mapM_dump fun a ha => Anchor.validate_dump (reading py) (h a ha)]
  rfl

/-- What the model accepts, but for the checks that run on every read. -/
structure Written (e : MemoryEntry) : Prop where
  nudge : e.nudgeLine.toList.length ≤ 80
  assertions : ∀ a ∈ e.assertions, a.Valid
  anchors : ∀ a ∈ e.anchors, a.Valid
  times : ∀ d ∈ datetimes e, d.InRange

namespace Written

variable {e : MemoryEntry}

theorem createdAt (h : Written e) : e.createdAt.InRange := h.times _ (by simp [datetimes])

theorem updatedAt (h : Written e) : e.updatedAt.InRange := h.times _ (by simp [datetimes])

theorem validFrom (h : Written e) : e.validFrom.InRange := h.times _ (by simp [datetimes])

theorem invalidFrom (h : Written e) : ∀ d ∈ e.invalidFrom, d.InRange :=
  fun d hd => h.times d (by simp [datetimes, Option.mem_def.mp hd])

theorem lastAccessedAt (h : Written e) : ∀ d ∈ e.lastAccessedAt, d.InRange :=
  fun d hd => h.times d (by simp [datetimes, Option.mem_def.mp hd])

theorem lastSyncedAt (h : Written e) : ∀ d ∈ e.lastSyncedAt, d.InRange :=
  fun d hd => h.times d (by simp [datetimes, Option.mem_def.mp hd])

end Written

def MapError.toPyError : MapError → PyError
  | .overflow => .overflow
  | .invalid => .value

/-- The timestamps of an entry, moved to UTC. -/
def shifted (e : MemoryEntry) : Except PyError MemoryEntry := do
  let createdAt ← shiftToUtc e.createdAt
  let validFrom ← shiftToUtc e.validFrom
  let invalidFrom ← shiftOption e.invalidFrom
  let updatedAt ← shiftToUtc e.updatedAt
  let lastAccessedAt ← shiftOption e.lastAccessedAt
  let lastSyncedAt ← shiftOption e.lastSyncedAt
  return { e with createdAt, validFrom, invalidFrom, updatedAt, lastAccessedAt, lastSyncedAt }

theorem shiftToUtc_eq (d : Datetime) :
    shiftToUtc d = if d.toUtc.isSome then .ok d.parseDt else .error .overflow := by
  rw [shiftToUtc]
  cases h : d.toUtc with
  | none => rfl
  | some utc =>
      rw [Datetime.toUtc_eq h]
      rfl

theorem shiftOption_eq (o : Option Datetime) :
    shiftOption o =
      if o.toList.all (fun d => d.toUtc.isSome) then .ok (o.map Datetime.parseDt)
      else .error .overflow := by
  cases o with
  | none => rfl
  | some d =>
      change (shiftToUtc d).map some = _
      rw [shiftToUtc_eq]
      cases h : d.toUtc.isSome <;> simp [h, Except.map]

/-- Every timestamp can be shifted, or the shift overflows. -/
theorem shifted_eq (e : MemoryEntry) :
    shifted e =
      if (datetimes e).all (fun d => d.toUtc.isSome) then
        .ok { e with
          createdAt := e.createdAt.parseDt
          updatedAt := e.updatedAt.parseDt
          lastAccessedAt := e.lastAccessedAt.map Datetime.parseDt
          validFrom := e.validFrom.parseDt
          invalidFrom := e.invalidFrom.map Datetime.parseDt
          lastSyncedAt := e.lastSyncedAt.map Datetime.parseDt }
      else .error .overflow := by
  simp only [shifted, shiftToUtc_eq, shiftOption_eq, datetimes, List.all_append, List.all_cons,
    List.all_nil, Bool.and_true]
  cases e.createdAt.toUtc.isSome <;> cases e.updatedAt.toUtc.isSome <;>
    cases e.validFrom.toUtc.isSome <;>
    cases e.invalidFrom.toList.all (fun d => d.toUtc.isSome) <;>
    cases e.lastAccessedAt.toList.all (fun d => d.toUtc.isSome) <;>
    cases e.lastSyncedAt.toList.all (fun d => d.toUtc.isSome) <;> rfl

theorem truncateNudgeLine_short {v : String} (h : v.toList.length ≤ 80) :
    truncateNudgeLine v = v := if_pos h

/-- The numbers of an entry as they are written. -/
def numbersOf (e : MemoryEntry) : Numbers :=
  ⟨.finite e.importance, e.recurrence, e.accessCount, e.sessionCount, e.recallCount,
    e.anchorValidity.map .finite⟩

/-- The model's own checks, on an entry that is otherwise built. -/
def checked (e : MemoryEntry) : Except PyError MemoryEntry :=
  if validEntry e then .ok e else .error .value

theorem construct_numbersOf (e : MemoryEntry) (fields : MemoryEntry → MemoryEntry) :
    (construct e.id (numbersOf e) fields).elim (.error .value) .ok =
      checked (fields { MemoryEntry.ofDefaults e.id "" "" ⟨0, none⟩ e.id_ne with
        importance := e.importance
        recurrence := e.recurrence
        accessCount := e.accessCount
        sessionCount := e.sessionCount
        recallCount := e.recallCount
        anchorValidity := e.anchorValidity }) := by
  rw [construct, dif_neg e.id_ne, checked]
  simp only [numbersOf, toRat, toCount_natCast, Option.bind_eq_bind, Option.bind_some]
  cases e.anchorValidity with
  | none =>
      dsimp only [Option.map_none, Option.bind_some]
      split <;> rfl
  | some v =>
      dsimp only [Option.map_some, Option.bind_some]
      split <;> rfl

/-- An entry whose empty optional texts are absent. -/
def withoutEmpty (e : MemoryEntry) : MemoryEntry :=
  { e with
    invalidatedBy := textOrNone e.invalidatedBy
    consolidatedInto := textOrNone e.consolidatedInto
    remoteId := textOrNone e.remoteId }

theorem datetimes_withoutEmpty (e : MemoryEntry) : datetimes (withoutEmpty e) = datetimes e := rfl

theorem mapRow_eq (e : MemoryEntry) (h : e.nudgeLine.toList.length ≤ 80) :
    (mapRow e).mapError MapError.toPyError = (shifted (withoutEmpty e)).bind checked := by
  have hshifts : ((datetimes e).all fun d => d.toUtc.isSome) = shifts e := rfl
  rw [shifted_eq, datetimes_withoutEmpty, hshifts, mapRow, TrwMemory.rowToEntry]
  cases shifts e with
  | false => rfl
  | true =>
      have hread : { readBack e with nudgeLine := e.nudgeLine } = readBack e := by
        rw [readBack, truncateNudgeLine_short h]
      rw [if_pos rfl, if_pos rfl, Bool.true_and]
      change _ = checked { readBack e with nudgeLine := e.nudgeLine }
      rw [hread, checked]
      cases validEntry (readBack e) <;> rfl

theorem rowToEntry_entryToRow {e : MemoryEntry} (h : Written e) (now : Datetime) :
    rowToEntry (reading py) pydantic now (entryToRow pydantic e) =
      (mapRow { e with assertions := reread pydantic e.assertions }).mapError
        MapError.toPyError := by
  rw [mapRow_eq { e with assertions := reread pydantic e.assertions } h.nudge]
  simp only [rowToEntry, entryToRow, parseAssertions_dumps py pydantic h.assertions,
    parseValidityFields_columns py h.createdAt h.validFrom h.invalidFrom,
    parseDtSafe_isoformat py h.updatedAt, parseJsonDictStr_dictColumn, textOf_str,
    Python.strOf, parseJsonList_listColumn, Python.floatOf, memberOf, MemoryStatus.ofText_text,
    ProtectionTier.ofText_text, Option.elim_some, Python.intOf, textOrAbsent_textColumn,
    countOf_int, parseJsonDictInt_dictColumn, parseAnchors_dumps py h.anchors,
    parseOptionalFloat_column, timeOrAbsent_timeColumn py h.lastAccessedAt,
    timeOrAbsent_timeColumn py h.lastSyncedAt, truthy_flagColumn, parseVerificationStatus_column]
  simp only [bind, Except.bind, pure, Except.pure, pyStrip_type, pyStrip_confidence,
    pyStrip_evidenceLevel, canonical, MemoryType.ofText_text, Confidence.ofText_text,
    EvidenceLevel.ofText_text, evidenceLevel_ne, if_false, ofItems_dictItems, Source.ofText_text,
    truncateNudgeLine_short h.nudge, shifted, withoutEmpty]
  -- The shifts run in the order of the source, and the first that overflows decides.
  cases shiftToUtc e.createdAt with
  | error _ => rfl
  | ok createdAt =>
  cases shiftToUtc e.validFrom with
  | error _ => rfl
  | ok validFrom =>
  cases shiftOption e.invalidFrom with
  | error _ => rfl
  | ok invalidFrom =>
  cases shiftToUtc e.updatedAt with
  | error _ => rfl
  | ok updatedAt =>
  cases shiftOption e.lastAccessedAt with
  | error _ => rfl
  | ok lastAccessedAt =>
  cases shiftOption e.lastSyncedAt with
  | error _ => rfl
  | ok lastSyncedAt =>
  exact construct_numbersOf e _

end TrwMemory.Codec

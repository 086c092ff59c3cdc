import TrwMemory.Storage.YamlCodec

/-!
Which entries come back from both stores as they were. Datetimes are compared as instants,
a naive one read as UTC.
-/
namespace TrwMemory

open Storage

def Assertion.utc (a : Assertion) : Assertion :=
  { a with
    lastVerifiedAt := a.lastVerifiedAt.map Datetime.parseDt
    firstFailedAt := a.firstFailedAt.map Datetime.parseDt }

/-- An entry with every datetime moved to UTC, so that equality compares instants. -/
def MemoryEntry.utc (e : MemoryEntry) : MemoryEntry :=
  { e with
    createdAt := e.createdAt.parseDt
    updatedAt := e.updatedAt.parseDt
    lastAccessedAt := e.lastAccessedAt.map Datetime.parseDt
    validFrom := e.validFrom.parseDt
    invalidFrom := e.invalidFrom.map Datetime.parseDt
    lastSyncedAt := e.lastSyncedAt.map Datetime.parseDt
    assertions := e.assertions.map Assertion.utc }

namespace Codec

/-- An entry that the model accepts. It compares the ends of a window, and these are both
naive or both aware. -/
structure Accepted where
  entry : MemoryEntry
  written : Written entry
  valid : validEntry entry = true
  comparable : ∀ d ∈ entry.invalidFrom, d.offset.isSome = entry.validFrom.offset.isSome

section Properties

variable (py : Python) (pydantic : Pydantic) (now : Datetime) (e : MemoryEntry)

/-- `row_to_entry(entry_to_row(e))` is `e`. -/
def RowRoundTrips : Prop :=
  ∃ read, rowToEntry (reading py) pydantic now (entryToRow pydantic e) = .ok read ∧
    read.utc = e.utc

/-- `dict_to_entry(entry_to_dict(e)).entry` is `e`. -/
def DictRoundTrips : Prop :=
  ∃ parsed, dictToEntry (reading py) (entryToDict pydantic e) pydantic now = .ok parsed ∧
    parsed.entry.utc = e.utc

/-- No optional text is there and empty. -/
def NoEmptyText : Prop :=
  e.invalidatedBy ≠ some "" ∧ e.consolidatedInto ≠ some "" ∧ e.remoteId ≠ some ""

/-- Every timestamp is one of the years 1 to 9999 in UTC, too. -/
def Shiftable : Prop := ∀ d ∈ datetimes e, d.toUtc.isSome = true

/-- The model library reads a timestamp it wrote as the same instant. -/
def Redates (d : Datetime) : Prop :=
  (pydantic.laxDatetime (.str (pydantic.dumpDatetime d))).map Datetime.parseDt = some d.parseDt

def KeepsEvidence : Prop :=
  ∀ a ∈ e.assertions, (∀ d ∈ a.lastVerifiedAt, Redates pydantic d) ∧
    ∀ d ∈ a.firstFailedAt, Redates pydantic d

end Properties

section Lists

variable {α β : Type} {f : α → Option α} {g : α → β}

theorem mapM_getD_map_iff (items : List α) :
    ((items.mapM f).getD []).map g = items.map g ↔ ∀ a ∈ items, (f a).map g = some (g a) := by
  induction items with
  | nil => simp
  | cons a items ih =>
      rw [List.forall_mem_cons, ← ih, List.mapM_cons]
      cases ha : f a with
      | none => simp
      | some b =>
          cases hitems : items.mapM f with
          | some read => simp
          | none =>
              cases items with
              | nil => cases hitems
              | cons => simp

theorem filterMap_map_iff (items : List α) :
    (items.filterMap f).map g = items.map g ↔ ∀ a ∈ items, (f a).map g = some (g a) := by
  induction items with
  | nil => simp
  | cons a items ih =>
      rw [List.forall_mem_cons, ← ih]
      cases ha : f a with
      | none =>
          rw [List.filterMap_cons_none ha]
          refine ⟨fun h => ?_, fun h => nomatch h.1⟩
          have hlength := congrArg List.length h
          have hle := List.length_filterMap_le f items
          simp only [List.length_map, List.length_cons] at hlength
          omega
      | some b =>
          rw [List.filterMap_cons_some ha]
          simp

end Lists

variable (py : Python) (pydantic : Pydantic) (now : Datetime)

theorem redate_iff (o : Option Datetime) :
    (Assertion.redate pydantic o).map (Option.map Datetime.parseDt) =
        some (o.map Datetime.parseDt) ↔ ∀ d ∈ o, Redates pydantic d := by
  cases o with
  | none => simp [Assertion.redate, dumpOption, validateOption]
  | some d =>
      simp only [Option.mem_some_iff, forall_eq', Redates, Option.map_some]
      change ((pydantic.laxDatetime (.str (pydantic.dumpDatetime d))).map some).map _ = _ ↔ _
      cases pydantic.laxDatetime (.str (pydantic.dumpDatetime d)) <;> simp

theorem redated_iff (a : Assertion) :
    (Assertion.redated pydantic a).map Assertion.utc = some a.utc ↔
      (∀ d ∈ a.lastVerifiedAt, Redates pydantic d) ∧ ∀ d ∈ a.firstFailedAt, Redates pydantic d := by
  rw [← redate_iff, ← redate_iff, Assertion.redated]
  cases Assertion.redate pydantic a.lastVerifiedAt <;>
    cases Assertion.redate pydantic a.firstFailedAt <;>
    simp [Assertion.utc]

theorem reread_utc_iff (e : MemoryEntry) :
    (reread pydantic e.assertions).map Assertion.utc = e.assertions.map Assertion.utc ↔
      KeepsEvidence pydantic e :=
  (mapM_getD_map_iff e.assertions).trans (forall₂_congr fun a _ => redated_iff pydantic a)

theorem kept_utc_iff (e : MemoryEntry) :
    (kept pydantic e.assertions).map Assertion.utc = e.assertions.map Assertion.utc ↔
      KeepsEvidence pydantic e :=
  (filterMap_map_iff e.assertions).trans (forall₂_congr fun a _ => redated_iff pydantic a)

theorem textOrNone_eq_self {o : Option String} : textOrNone o = o ↔ o ≠ some "" := by
  cases o with
  | none => simp [textOrNone]
  | some s =>
      by_cases hs : s = ""
      · simp [textOrNone, hs]
      · simp [textOrNone, hs, Option.filter]

theorem map_parseDt_parseDt (o : Option Datetime) :
    (o.map Datetime.parseDt).map Datetime.parseDt = o.map Datetime.parseDt := by
  cases o <;> simp

/-- What a read changes, once datetimes are instants. -/
theorem utc_readBack_iff {e : MemoryEntry} (h : Written e) (recallCount : Nat)
    (assertions : List Assertion) :
    (readBack { e with recallCount, assertions }).utc = e.utc ↔
      NoEmptyText e ∧ recallCount = e.recallCount ∧
        assertions.map Assertion.utc = e.assertions.map Assertion.utc := by
  rw [NoEmptyText, ← textOrNone_eq_self, ← textOrNone_eq_self, ← textOrNone_eq_self]
  simp only [readBack, MemoryEntry.utc, truncateNudgeLine_short h.nudge, Datetime.parseDt_parseDt,
    map_parseDt_parseDt, MemoryEntry.mk.injEq, true_and, and_true]
  tauto

/-- The checks of the model hold of what is read. -/
theorem validEntry_readBack {e : MemoryEntry} (hvalid : validEntry e = true)
    (hempty : e.invalidatedBy ≠ some "") (recallCount : Nat) (assertions : List Assertion) :
    validEntry (readBack { e with recallCount, assertions }) = true := by
  rw [← hvalid]
  unfold validEntry validWindow readBack
  dsimp only
  rw [textOrNone_eq_self.mpr hempty]
  cases e.invalidFrom <;> simp

theorem mapRow_ok_iff {row e : MemoryEntry} :
    (mapRow row).mapError MapError.toPyError = .ok e ↔
      Shiftable row ∧ validEntry (readBack row) = true ∧ readBack row = e := by
  have hshifts : shifts row = ((datetimes row).all fun d => d.toUtc.isSome) := rfl
  rw [mapRow, TrwMemory.rowToEntry, Shiftable, ← List.all_eq_true, ← hshifts]
  cases shifts row with
  | false => simp [Except.mapError]
  | true => cases validEntry (readBack row) <;> simp [Except.mapError]

/-- A row whose count of recalls and assertions were replaced comes back as the entry. -/
theorem mapRow_utc_iff (e : Accepted) (recallCount : Nat) (assertions : List Assertion) :
    (∃ read, (mapRow { e.entry with recallCount, assertions }).mapError MapError.toPyError =
        .ok read ∧ read.utc = e.entry.utc) ↔
      Shiftable e.entry ∧ NoEmptyText e.entry ∧ recallCount = e.entry.recallCount ∧
        assertions.map Assertion.utc = e.entry.assertions.map Assertion.utc := by
  rw [← utc_readBack_iff e.written]
  constructor
  · rintro ⟨read, hread, hutc⟩
    obtain ⟨hshift, -, rfl⟩ := mapRow_ok_iff.mp hread
    exact ⟨hshift, hutc⟩
  · rintro ⟨hshift, hutc⟩
    have hempty := ((utc_readBack_iff e.written recallCount assertions).mp hutc).1.1
    exact ⟨_, mapRow_ok_iff.mpr
      ⟨hshift, validEntry_readBack e.valid hempty recallCount assertions, rfl⟩, hutc⟩

theorem rowRoundTrips_iff (e : Accepted) :
    RowRoundTrips py pydantic now e.entry ↔
      Shiftable e.entry ∧ NoEmptyText e.entry ∧ KeepsEvidence pydantic e.entry := by
  rw [RowRoundTrips, rowToEntry_entryToRow py pydantic e.written, ← reread_utc_iff]
  refine (mapRow_utc_iff e e.entry.recallCount (reread pydantic e.entry.assertions)).trans ?_
  simp only [true_and]

theorem dictRoundTrips_iff (e : Accepted) :
    DictRoundTrips py pydantic now e.entry ↔
      Shiftable e.entry ∧ NoEmptyText e.entry ∧ e.entry.recallCount = 0 ∧
        KeepsEvidence pydantic e.entry := by
  have hcount : e.entry.recallCount = 0 ↔ 0 = e.entry.recallCount := eq_comm
  rw [DictRoundTrips, dictToEntry_entryToDict py pydantic e.written, ← kept_utc_iff, hcount,
    ← mapRow_utc_iff e 0 (kept pydantic e.entry.assertions)]
  constructor
  · rintro ⟨parsed, hparsed, hutc⟩
    cases hread : (mapRow { e.entry with
        recallCount := 0, assertions := kept pydantic e.entry.assertions }).mapError
          MapError.toPyError with
    | error error =>
        rw [hread] at hparsed
        cases hparsed
    | ok read =>
        rw [hread] at hparsed
        refine ⟨read, rfl, ?_⟩
        rw [← Except.ok.inj hparsed] at hutc
        exact hutc
  · rintro ⟨read, hread, hutc⟩
    rw [hread]
    exact ⟨_, rfl, hutc⟩

/-- Both codecs give back exactly the entries whose timestamps stay in range in UTC, whose
optional texts are not empty, which were never recalled, and whose evidence the model
library reads as it was. -/
theorem codecs_roundTrip (e : Accepted) :
    RowRoundTrips py pydantic now e.entry ∧ DictRoundTrips py pydantic now e.entry ↔
      Shiftable e.entry ∧ NoEmptyText e.entry ∧ e.entry.recallCount = 0 ∧
        KeepsEvidence pydantic e.entry := by
  rw [rowRoundTrips_iff, dictRoundTrips_iff]
  tauto

/-- An interpreter that knows the texts of `reading` only. -/
def plainPython : Python where
  loads := fun _ => .error .decode
  fromisoformat := fun _ => none
  float := fun _ => none
  int := fun _ => none
  strFloat := fun _ => "0.5"
  strBytes := fun _ => "b''"
  strDatetime := Datetime.isoformat
  strJson := fun _ => none
  slicesHash := false

def isoPydantic : Pydantic where
  laxBool := fun _ => none
  laxInt := fun _ => none
  laxDatetime := fun
    | .str text => Datetime.fromisoformat text
    | _ => none
  dumpDatetime := Datetime.isoformat

def plainEntry : MemoryEntry := MemoryEntry.ofDefaults "m" "text" "default" ⟨0, some 0⟩ m_ne_empty

def accept (e : MemoryEntry) (hassertions : e.assertions = []) (hanchors : e.anchors = [])
    (hinvalid : e.invalidFrom = none) (hnudge : e.nudgeLine.toList.length ≤ 80)
    (htimes : ∀ d ∈ datetimes e, d.InRange) (hvalid : validEntry e = true) : Accepted where
  entry := e
  written := ⟨hnudge, by simp [hassertions], by simp [hanchors], htimes⟩
  valid := hvalid
  comparable := by simp [hinvalid]

def recalledEntry : Accepted :=
  accept { plainEntry with recallCount := 1 } rfl rfl rfl (by decide) (by decide)
    (by decide +kernel)

def remoteEntry : Accepted :=
  accept { plainEntry with remoteId := some "" } rfl rfl rfl (by decide) (by decide)
    (by decide +kernel)

def earlyEntry : Accepted :=
  accept { plainEntry with createdAt := ⟨0, some 3600000000⟩ } rfl rfl rfl (by decide) (by decide)
    (by decide +kernel)

/-- A count of recalls is lost by one store, an empty text by the other, and a row of the
first hour of year 1 cannot be read. -/
theorem codecs_lose :
    ¬DictRoundTrips plainPython isoPydantic ⟨0, some 0⟩ recalledEntry.entry ∧
      ¬RowRoundTrips plainPython isoPydantic ⟨0, some 0⟩ remoteEntry.entry ∧
      rowToEntry (reading plainPython) isoPydantic ⟨0, some 0⟩
        (entryToRow isoPydantic earlyEntry.entry) = .error .overflow := by
  rw [dictRoundTrips_iff, rowRoundTrips_iff, rowToEntry_entryToRow _ _ earlyEntry.written]
  refine ⟨fun h => absurd h.2.2.1 (by decide), fun h => h.2.1.2.2 rfl, ?_⟩
  decide +kernel

end Codec

end TrwMemory

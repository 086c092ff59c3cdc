import TrwMemory.Library.Verdicts
import TrwMemory.Retrieval.ValidityPrior
import TrwMemory.Security.EvidenceInvariant
import TrwMemory.Storage.RowCodec

/-!
The fetch of a query's rows (`storage/_resilient_fetch.py`). The driver decodes the texts of
all rows, or it raises; then the query runs again and each row is decoded from its bytes. A
row that cannot be decoded or mapped is left out, under a guard that lists what it catches.

The fetch that selects by validity (`storage/_temporal_fetch.py`,
`storage/_temporal_decode.py`). Rows come in batches and are dropped early on a few columns;
what is kept is mapped and offered to the selection, which stops the stream when its quota is
met. Beside it the selection from all rows, none dropped early. A batch whose texts the driver
cannot decode makes the stream begin again with a connection that hands out bytes; both decode
a row the same way, so the rows here are decoded from bytes at once.

That the second connection opens and selects the same rows is taken for granted. Logs and
counters are left out.

The early decisions about a row are those about its entry: the columns that are decoded
first are read again when the row is mapped, and to the same values.
-/
namespace TrwMemory.Codec

open Storage

/-- What a column of the file holds. -/
inductive SqlValue where
  | null
  | integer (n : Int)
  | real (x : PyFloat)
  | text (raw : List UInt8)
  | blob (raw : List UInt8)

/-- A value as the driver hands it out. -/
inductive Cell where
  | null
  | int (n : Int)
  | float (x : PyFloat)
  | str (s : String)
  | bytes (raw : List UInt8)

def Cell.toPyValue : Cell → PyValue
  | null => .none
  | int n => .int n
  | float x => .float x
  | str s => .str s
  | bytes raw => .bytes raw

/-- `decode("utf-8", errors="strict")`. -/
def decodeUtf8 (raw : List UInt8) : Option String := String.fromUTF8? ⟨raw.toArray⟩

namespace SqlValue

/-- The driver decodes a text. -/
def fetched : SqlValue → Option Cell
  | null => some .null
  | integer n => some (.int n)
  | real x => some (.float x)
  | text raw => (decodeUtf8 raw).map .str
  | blob raw => some (.bytes raw)

/-- `_decode_row_columns`: texts come as bytes, and what is bytes is decoded. -/
def decoded : SqlValue → Option Cell
  | null => some .null
  | integer n => some (.int n)
  | real x => some (.float x)
  | text raw | blob raw => (decodeUtf8 raw).map .str

end SqlValue

def EntryColumn.all : List EntryColumn := .id :: .ns :: .createdAt :: Column.all.map .of

theorem EntryColumn.mem_all (c : EntryColumn) : c ∈ EntryColumn.all := by
  cases c with
  | of c => simp [all, Column.mem_all]
  | _ => simp [all]

abbrev Cells := EntryColumn → Cell

def Cells.toRow (cells : Cells) : Row := fun c => (cells c).toPyValue

/-- A row of the file, with the time at which it is mapped. -/
structure RawRow where
  columns : EntryColumn → SqlValue
  now : Datetime

def RawRow.decode (how : SqlValue → Option Cell) (row : RawRow) : Option Cells :=
  if EntryColumn.all.all fun c => (how (row.columns c)).isSome then
    some fun c => (how (row.columns c)).getD .null
  else none

/-- `except (ValueError, TypeError, KeyError)`; the errors of a text's decoding are
`ValueError`s. -/
def quarantines : PyError → Bool
  | .decode | .value | .type | .key => true
  | .overflow | .recursion => false

section

variable (py : Python) (pydantic : Pydantic)

/-- A row under the guard: its entry, or none where it is quarantined. -/
def mapGuarded (now : Datetime) (cells : Cells) : Except PyError (Option MemoryEntry) :=
  orElse quarantines none
    ((rowToEntry py pydantic now cells.toRow).map fun e => some (servedView e))

/-- One row of either loop. -/
def fetchRow (how : SqlValue → Option Cell) (row : RawRow) :
    Except PyError (Option MemoryEntry) :=
  match row.decode how with
  | none => .ok none
  | some cells => mapGuarded py pydantic row.now cells

/-- `fetchall` raises where a text of any row is no UTF-8. -/
def decoding (rows : List RawRow) : SqlValue → Option Cell :=
  if rows.all fun row => (row.decode SqlValue.fetched).isSome then SqlValue.fetched
  else SqlValue.decoded

/-- What becomes of each row. -/
def fetchOutcomes (rows : List RawRow) : Except PyError (List (Option MemoryEntry)) :=
  rows.mapM (fetchRow py pydantic (decoding rows))

/-- `fetch_rows_resilient`. -/
def fetchRowsResilient (rows : List RawRow) : Except PyError (List MemoryEntry) :=
  (fetchOutcomes py pydantic rows).map List.reduceOption

/-- The entry of a row that is fetched on its own. -/
def entryAlone (row : RawRow) : Option MemoryEntry :=
  match fetchOutcomes py pydantic [row] with
  | .ok [outcome] => outcome
  | _ => none

/-- No row raises, and each has the outcome that it has on its own. -/
def FetchesEach (rows : List RawRow) : Prop :=
  fetchOutcomes py pydantic rows = .ok (rows.map (entryAlone py pydantic))

theorem fetchRowsResilient_each {rows : List RawRow} (h : FetchesEach py pydantic rows) :
    fetchRowsResilient py pydantic rows = .ok (rows.filterMap (entryAlone py pydantic)) := by
  rw [fetchRowsResilient, h]
  change Except.ok ((rows.map (entryAlone py pydantic)).filterMap id) = _
  rw [List.filterMap_map]
  rfl

end

open Retrieval

section

variable (py : Python) (pydantic : Pydantic) (dateFromisoformat : String → Option Int)
  (selection : TemporalSelection) (limit : Nat) (entryFilter : MemoryEntry → Bool)

/-- The columns that are decoded early. -/
def earlyWindow (cells : Cells) : Except PyError Window := do
  let (_, opened, closed) ← parseValidityFields py (cells .createdAt).toPyValue
    (cells (.of .validFrom)).toPyValue (cells (.of .invalidFrom)).toPyValue
    selection.referenceTime
  let expires ← textOf py (cells (.of .expires)).toPyValue
  return ⟨opened, closed, expires⟩

def earlyCanary (cells : Cells) : Except PyError Bool := do
  match selection.excludeSystemCanaries with
  | true =>
      let metadata ← parseJsonDictStr py (cells (.of .metadata)).toPyValue
      return isSystemCanary (ofItems metadata)
  | false => return false

/-- `TemporalMaterialization.retain`. -/
def retain (deferred : Nat) (cells : Cells) : Except PyError Bool := do
  match ← earlyCanary py selection cells with
  | true => return false
  | false =>
      let window ← earlyWindow py selection cells
      let eligible ← selection.eligible py dateFromisoformat window
      return eligible || (selection.includeSuperseded && deferred < limit)

/-- `TemporalMaterialization.accepted`. -/
def accepted (deferred : Nat) (e : MemoryEntry) : Except PyError Nat := do
  match ← selection.eligible py dateFromisoformat (windowOf e) with
  | true => return deferred
  | false => return deferred + 1

/-- What a decoded row contributes: an entry that passes the filter. -/
def mapFiltered (cells : Cells) : Except PyError (Option MemoryEntry) :=
  (mapGuarded py pydantic selection.referenceTime cells).map fun e => e.filter entryFilter

/-- `_decode_bytes_rows` with the early decisions, from a count of deferred entries. -/
def decodeRetained (deferred : Nat) : List RawRow → Except PyError (List MemoryEntry × Nat)
  | [] => .ok ([], deferred)
  | row :: rows =>
      match row.decode SqlValue.decoded with
      | none => decodeRetained deferred rows
      | some cells => do
          match ← retain py dateFromisoformat selection limit deferred cells with
          | false => decodeRetained deferred rows
          | true =>
              match ← mapFiltered py pydantic selection entryFilter cells with
              | none => decodeRetained deferred rows
              | some e =>
                  let deferred ← accepted py dateFromisoformat selection deferred e
                  let (entries, deferred) ← decodeRetained deferred rows
                  return (e :: entries, deferred)

/-- The stream and the selection that reads it. -/
def streamFrom (deferred : Nat) (selected : Selected) :
    List (List RawRow) → Except PyError Selected
  | [] => .ok selected
  | batch :: batches =>
      if selected.isFull limit then .ok selected
      else do
        let (entries, deferred) ← decodeRetained py pydantic dateFromisoformat selection limit
          entryFilter deferred batch
        let selected ← selectFrom (selection.eligible py dateFromisoformat) selection limit
          selected entries
        streamFrom deferred selected batches

/-- `_fetch_selection`. -/
def fetchSelection (batches : List (List RawRow)) : Except PyError (List MemoryEntry) :=
  if limit = 0 then .error .value
  else
    (streamFrom py pydantic dateFromisoformat selection limit entryFilter 0 ⟨[], []⟩ batches).map
      (Selected.finish limit)

/-- `_decode_bytes_rows` without them: all rows are mapped. -/
def decodeRows : List RawRow → Except PyError (List MemoryEntry)
  | [] => .ok []
  | row :: rows =>
      match row.decode SqlValue.decoded with
      | none => decodeRows rows
      | some cells => do
          let e ← mapFiltered py pydantic selection entryFilter cells
          let entries ← decodeRows rows
          return e.toList ++ entries

/-- The selection from all rows, fully decoded. -/
def selectDecoded (rows : List RawRow) : Except PyError (List MemoryEntry) := do
  let entries ← decodeRows py pydantic selection entryFilter rows
  select (selection.eligible py dateFromisoformat) selection limit entries

end

open Library Retrieval

variable (py : Python) (pydantic : Pydantic)

theorem lookup_ofItems_setDefault {items : List (String × String)} {key name v : String}
    (h : name ≠ key) :
    (ofItems (setDefault items key v)).lookup name = (ofItems items).lookup name := by
  rw [setDefault]
  split
  · rfl
  · rw [ofItems, List.foldl_append]
    exact Finmap.lookup_insert_of_ne _ h

theorem lookup_canonical {α : Type} {ofText : String → Option α} {fallback member : α}
    {v : String} {items items' : List (String × String)} {key name : String}
    (h : canonical ofText fallback key v items = (member, items')) (hname : name ≠ key) :
    (ofItems items').lookup name = (ofItems items).lookup name := by
  rw [canonical] at h
  split at h
  · rw [(Prod.mk.inj h).2]
  · rw [← (Prod.mk.inj h).2, lookup_ofItems_setDefault hname]

theorem isSystemCanary_congr {m m' : Metadata}
    (h : m.lookup "system_canary" = m'.lookup "system_canary") :
    isSystemCanary m = isSystemCanary m' := by
  rw [isSystemCanary, isSystemCanary, h]

/-- The window of an entry is that of its columns, and so is the mark of a canary. -/
def ReadEarly (now : Datetime) (row : Row) (e : MemoryEntry) : Prop :=
  ∃ createdAt items,
    parseValidityFields py (row .createdAt) (row (.of .validFrom)) (row (.of .invalidFrom)) now =
        .ok (createdAt, e.validFrom, e.invalidFrom) ∧
      textOf py (row (.of .expires)) = .ok e.expires ∧
      parseJsonDictStr py (row (.of .metadata)) = .ok items ∧
      isSystemCanary e.metadata = isSystemCanary (ofItems items)

theorem rowToEntry_readEarly (now : Datetime) (row : Row) :
    Yields (rowToEntry py pydantic now row) (ReadEarly py now row) := by
  refine .bind fun assertions _ => ?_
  refine .bind fun times htimes => ?_
  refine .bind fun updatedAt _ => ?_
  refine .bind fun metadata hmetadata => ?_
  refine .bind fun typeText _ => ?_
  refine .bind fun confidenceText _ => ?_
  refine .bind fun evidenceText _ => ?_
  -- The texts that are no member's are kept under other names.
  dsimp only
  generalize htype : canonical MemoryType.ofText _ _ _ metadata = typed
  obtain ⟨type, typed⟩ := typed
  dsimp only
  generalize hconfidence : canonical Confidence.ofText _ _ _ typed = marked
  obtain ⟨confidence, marked⟩ := marked
  dsimp only
  generalize hevidence : (if pyStrip evidenceText = "" then (EvidenceLevel.unknown, marked)
    else _) = levelled
  obtain ⟨evidenceLevel, levelled⟩ := levelled
  have hmarked := (lookup_canonical hconfidence (by decide : "system_canary" ≠ _)).trans
    (lookup_canonical htype (by decide))
  have hlevelled : (ofItems levelled).lookup "system_canary" =
      (ofItems metadata).lookup "system_canary" := by
    split at hevidence
    · obtain rfl := (Prod.mk.inj hevidence).2
      exact hmarked
    · exact (lookup_canonical hevidence (by decide)).trans hmarked
  refine .bind fun id _ => ?_
  refine .bind fun content _ => ?_
  refine .bind fun detail _ => ?_
  refine .bind fun tags _ => ?_
  refine .bind fun evidence _ => ?_
  refine .bind fun importance _ => ?_
  refine .bind fun status _ => ?_
  refine .bind fun recurrence _ => ?_
  refine .bind fun ns _ => ?_
  refine .bind fun lastAccessedAt _ => ?_
  refine .bind fun invalidatedBy _ => ?_
  refine .bind fun accessCount _ => ?_
  refine .bind fun sessionCount _ => ?_
  refine .bind fun source _ => ?_
  refine .bind fun sourceIdentity _ => ?_
  refine .bind fun clientProfile _ => ?_
  refine .bind fun modelId _ => ?_
  refine .bind fun mergedFrom _ => ?_
  refine .bind fun consolidatedFrom _ => ?_
  refine .bind fun consolidatedInto _ => ?_
  refine .bind fun vectorClock _ => ?_
  refine .bind fun remoteId _ => ?_
  refine .bind fun outcomeHistory _ => ?_
  refine .bind fun anchors _ => ?_
  refine .bind fun anchorValidity _ => ?_
  refine .bind fun nudgeLine _ => ?_
  refine .bind fun expires hexpires => ?_
  refine .bind fun taskType _ => ?_
  refine .bind fun domain _ => ?_
  refine .bind fun phaseOrigin _ => ?_
  refine .bind fun phaseAffinity _ => ?_
  refine .bind fun teamOrigin _ => ?_
  refine .bind fun protectionTier _ => ?_
  refine .bind fun syncHash _ => ?_
  refine .bind fun syncSeq _ => ?_
  refine .bind fun lastSyncedAt _ => ?_
  refine .bind fun recallCount _ => ?_
  refine .bind fun verificationCheckedAt _ => ?_
  intro e he
  obtain ⟨base, rfl⟩ := construct_eq_some (elim_eq_ok he)
  exact ⟨times.1, metadata, htimes, hexpires, hmetadata, isSystemCanary_congr hlevelled⟩

theorem windowOf_servedView (e : MemoryEntry) : windowOf (servedView e) = windowOf e := by
  obtain ⟨confidence, metadata, h⟩ := servedView_fields e
  rw [h]
  rfl

theorem isSystemCanary_servedView (e : MemoryEntry) :
    isSystemCanary (servedView e).metadata = isSystemCanary e.metadata := by
  cases h : violatesEvidenceInvariant e with
  | false => rw [servedView_of_conforms h]
  | true =>
      rw [servedView_of_violates h, isSystemCanary, isSystemCanary,
        Finmap.lookup_insert_of_ne _ (by decide)]

variable {py pydantic} {selection : TemporalSelection} {entryFilter : MemoryEntry → Bool}

/-- An entry that is mapped comes from a row that was read without an error. -/
theorem mapFiltered_mapped {cells : Cells} {e : MemoryEntry}
    (h : mapFiltered py pydantic selection entryFilter cells = .ok (some e)) :
    ∃ raw, rowToEntry py pydantic selection.referenceTime cells.toRow = .ok raw ∧
      e = servedView raw := by
  rw [mapFiltered, mapGuarded] at h
  cases hraw : rowToEntry py pydantic selection.referenceTime cells.toRow with
  | ok raw =>
      rw [hraw] at h
      have hfilter : (some (servedView raw)).filter entryFilter = some e := Except.ok.inj h
      exact ⟨raw, rfl, (Option.some.inj (Option.filter_eq_some_iff.mp hfilter).1).symm⟩
  | error error =>
      rw [hraw] at h
      cases error <;> cases h

/-- The early columns of a row that is mapped are those of its entry. -/
theorem mapFiltered_early {cells : Cells} {e : MemoryEntry}
    (h : mapFiltered py pydantic selection entryFilter cells = .ok (some e)) :
    earlyWindow py selection cells = .ok (windowOf e) ∧
      earlyCanary py selection cells =
        .ok (selection.excludeSystemCanaries && isSystemCanary e.metadata) := by
  obtain ⟨raw, hraw, rfl⟩ := mapFiltered_mapped h
  obtain ⟨createdAt, items, htimes, hexpires, hmetadata, hcanary⟩ :=
    rowToEntry_readEarly py pydantic _ _ raw hraw
  rw [windowOf_servedView, isSystemCanary_servedView, hcanary]
  constructor
  · unfold Cells.toRow at htimes hexpires
    rw [earlyWindow, htimes]
    change (textOf py (cells (.of .expires)).toPyValue >>= _) = _
    rw [hexpires]
    rfl
  · unfold Cells.toRow at hmetadata
    rw [earlyCanary]
    cases selection.excludeSystemCanaries with
    | false => rfl
    | true =>
        dsimp only
        rw [hmetadata]
        rfl

end TrwMemory.Codec

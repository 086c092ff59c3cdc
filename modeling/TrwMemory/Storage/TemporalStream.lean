import TrwMemory.Storage.CodecRoundTrips
import TrwMemory.Storage.JsonVerdicts
import TrwMemory.Storage.TemporalAgreement

/-!
Which rows raise through the fetch, and when each row has the outcome that it has alone.

The stream that drops rows early selects what the selection from all rows does, however the
rows fall into batches, unless an early decision raises. The decision is made before the row
is mapped under its guard, so that it raises on rows that are quarantined or filtered out where
all rows are mapped.
-/
namespace TrwMemory.Codec

open Library Storage

section Escapes

section Rows

variable (py : Python)

/-- The columns whose reading can fail, in the order in which they are read. -/
def rowVerdicts (cells : Cells) : List Verdict :=
  [evidenceVerdict py (fun _ => .fine) (cells (.of .assertions)),
    timeVerdict py (cells .createdAt),
    given (cells (.of .validFrom)) (timeVerdict py (cells (.of .validFrom))),
    given (cells (.of .invalidFrom)) (timeVerdict py (cells (.of .invalidFrom))),
    timeVerdict py (cells (.of .updatedAt)),
    jsonVerdict py (valuesVerdict py) (cells (.of .metadata)),
    jsonVerdict py (itemsVerdict py) (cells (.of .tags)),
    jsonVerdict py (itemsVerdict py) (cells (.of .evidence)),
    floatVerdict py (cells (.of .importance)),
    memberVerdict MemoryStatus.ofText (cells (.of .status)),
    intVerdict py (cells (.of .recurrence)),
    given (cells (.of .lastAccessedAt)) (timeVerdict py (cells (.of .lastAccessedAt))),
    intVerdict py (cells (.of .accessCount)),
    given (cells (.of .sessionCount)) (intVerdict py (cells (.of .sessionCount))),
    jsonVerdict py (itemsVerdict py) (cells (.of .mergedFrom)),
    jsonVerdict py (itemsVerdict py) (cells (.of .consolidatedFrom)),
    jsonVerdict py (clockVerdict py) (cells (.of .vectorClock)),
    jsonVerdict py (itemsVerdict py) (cells (.of .outcomeHistory)),
    evidenceVerdict py (anchorsVerdict py) (cells (.of .anchors)),
    jsonVerdict py (itemsVerdict py) (cells (.of .domain)),
    jsonVerdict py (itemsVerdict py) (cells (.of .phaseAffinity)),
    memberVerdict ProtectionTier.ofText (cells (.of .protectionTier)),
    given (cells (.of .syncSeq)) (intVerdict py (cells (.of .syncSeq))),
    given (cells (.of .lastSyncedAt)) (timeVerdict py (cells (.of .lastSyncedAt))),
    given (cells (.of .recallCount)) (intVerdict py (cells (.of .recallCount)))]

/-- The first column that cannot be read raises what no guard catches. -/
def Escapes (cells : Cells) : Prop := Verdict.first (rowVerdicts py cells) = .escaped

instance (cells : Cells) : Decidable (Escapes py cells) := inferInstanceAs (Decidable (_ = _))

theorem rowToEntry_follows (pydantic : Pydantic) (now : Datetime) (cells : Cells) :
    Follows quarantines (rowToEntry py pydantic now cells.toRow) (rowVerdicts py cells) := by
  refine .bind (verdict_assertions py pydantic _) fun assertions => ?_
  refine .bindAll (verdict_parseValidityFields py _ _ _ now) fun times => ?_
  refine .bind (verdict_parseDtSafe py _ now id) fun updatedAt => ?_
  refine .bind (verdict_parseJsonDictStr py _) fun metadata => ?_
  refine .skip (verdict_textOf py _) fun typeText => ?_
  refine .skip (verdict_textOf py _) fun confidenceText => ?_
  refine .skip (verdict_textOf py _) fun evidenceText => ?_
  refine .skip (verdict_strOf py _) fun id => ?_
  refine .skip (verdict_strOf py _) fun content => ?_
  refine .skip (verdict_textOf py _) fun detail => ?_
  refine .bind (verdict_parseJsonList py _) fun tags => ?_
  refine .bind (verdict_parseJsonList py _) fun evidence => ?_
  refine .bind (verdict_floatOf py _) fun importance => ?_
  refine .bind (verdict_memberOf _ _) fun status => ?_
  refine .bind (verdict_intOf py _) fun recurrence => ?_
  refine .skip (verdict_strOf py _) fun ns => ?_
  refine .bind (verdict_timeOrAbsent py _) fun lastAccessedAt => ?_
  refine .skip (verdict_textOrAbsent py _) fun invalidatedBy => ?_
  refine .bind (verdict_intOf py _) fun accessCount => ?_
  refine .bind (verdict_countOf py _) fun sessionCount => ?_
  refine .skip (verdict_strOf py _) fun source => ?_
  refine .skip (verdict_textOf py _) fun sourceIdentity => ?_
  refine .skip (verdict_textOf py _) fun clientProfile => ?_
  refine .skip (verdict_textOf py _) fun modelId => ?_
  refine .bind (verdict_parseJsonList py _) fun mergedFrom => ?_
  refine .bind (verdict_parseJsonList py _) fun consolidatedFrom => ?_
  refine .skip (verdict_textOrAbsent py _) fun consolidatedInto => ?_
  refine .bind (verdict_parseJsonDictInt py _) fun vectorClock => ?_
  refine .skip (verdict_textOrAbsent py _) fun remoteId => ?_
  refine .bind (verdict_parseJsonList py _) fun outcomeHistory => ?_
  refine .bind (verdict_anchors py _) fun anchors => ?_
  refine .skip (verdict_parseOptionalFloat py _) fun anchorValidity => ?_
  refine .skip (verdict_textOf py _) fun nudgeLine => ?_
  refine .skip (verdict_textOf py _) fun expires => ?_
  refine .skip (verdict_textOf py _) fun taskType => ?_
  refine .bind (verdict_parseJsonList py _) fun domain => ?_
  refine .skip (verdict_textOf py _) fun phaseOrigin => ?_
  refine .bind (verdict_parseJsonList py _) fun phaseAffinity => ?_
  refine .skip (verdict_textOf py _) fun teamOrigin => ?_
  refine .bind (verdict_memberOf _ _) fun protectionTier => ?_
  refine .skip (verdict_textOf py _) fun syncHash => ?_
  refine .bind (verdict_countOf py _) fun syncSeq => ?_
  refine .bind (verdict_timeOrAbsent py _) fun lastSyncedAt => ?_
  refine .bind (verdict_countOf py _) fun recallCount => ?_
  refine .skip (verdict_textOf py _) fun verificationCheckedAt => ?_
  exact .done (verdict_built _)

end Rows

variable (py : Python) (pydantic : Pydantic)

theorem mapGuarded_isOk_iff (now : Datetime) (cells : Cells) :
    (mapGuarded py pydantic now cells).isOk = true ↔ ¬Escapes py cells := by
  have hfollows := rowToEntry_follows py pydantic now cells
  rw [Follows] at hfollows
  rw [Escapes, ← hfollows, mapGuarded]
  cases rowToEntry py pydantic now cells.toRow with
  | ok e => exact ⟨fun _ h => (by cases h), fun _ => rfl⟩
  | error error => cases error <;> decide

/-- The entry of a row, if it is mapped to one. -/
def entryOf (now : Datetime) (cells : Cells) : Option MemoryEntry :=
  (mapGuarded py pydantic now cells).toOption.join

theorem mapGuarded_eq_ok_iff {now : Datetime} {cells : Cells} {outcome : Option MemoryEntry} :
    mapGuarded py pydantic now cells = .ok outcome ↔
      ¬Escapes py cells ∧ entryOf py pydantic now cells = outcome := by
  rw [← mapGuarded_isOk_iff py pydantic now, entryOf]
  cases mapGuarded py pydantic now cells with
  | ok o => simp [Except.isOk, Except.toBool, Except.toOption]
  | error error => simp [Except.isOk, Except.toBool]

/-- The row is decoded to cells that give the entry of `cells`, or neither gives one. -/
def ReadsAlike (how : SqlValue → Option Cell) (row : RawRow) : Prop :=
  ∀ cells, row.decode SqlValue.fetched = some cells →
    (row.decode how).bind (entryOf py pydantic row.now) = entryOf py pydantic row.now cells

/-- A row without BLOB columns reads alike. -/
theorem readsAlike_of_noBlob {how : SqlValue → Option Cell} {row : RawRow}
    (h : ∀ c, how (row.columns c) = (row.columns c).fetched) : ReadsAlike py pydantic how row := by
  have hsame : row.decode how = row.decode SqlValue.fetched := by
    rw [RawRow.decode, RawRow.decode]
    simp only [h]
  intro cells hcells
  rw [hsame, hcells]
  rfl

/-- A row that does not raise however it is decoded, nor changes with it. -/
def Unharmed (how : SqlValue → Option Cell) (row : RawRow) : Prop :=
  (∀ cells, row.decode how = some cells → ¬Escapes py cells) ∧ ReadsAlike py pydantic how row

theorem decoding_singleton (row : RawRow) :
    decoding [row] =
      if (row.decode SqlValue.fetched).isSome then SqlValue.fetched else SqlValue.decoded := by
  rw [decoding, List.all_cons, List.all_nil, Bool.and_true]

/-- What the driver cannot decode is not decoded from bytes. -/
theorem decode_decoded_none {row : RawRow} (h : row.decode SqlValue.fetched = none) :
    row.decode SqlValue.decoded = none := by
  unfold RawRow.decode at h ⊢
  split at h
  · cases h
  · rename_i hnot
    refine if_neg fun hall => hnot ?_
    refine List.all_eq_true.mpr fun c hc => ?_
    have hdecoded := List.all_eq_true.mp hall c hc
    cases hvalue : row.columns c with
    | text raw =>
        rw [hvalue] at hdecoded
        exact hdecoded
    | _ => rfl

theorem mapM_singleton {α β : Type} (f : α → Except PyError β) (a : α) :
    [a].mapM f = (f a).map fun b => [b] := by
  rw [List.mapM_cons, List.mapM_nil]
  cases f a <;> rfl

theorem entryAlone_eq (row : RawRow) :
    entryAlone py pydantic row =
      (row.decode SqlValue.fetched).bind (entryOf py pydantic row.now) := by
  rw [entryAlone, fetchOutcomes, mapM_singleton, decoding_singleton]
  cases hrow : row.decode SqlValue.fetched with
  | none =>
      rw [if_neg (by simp), fetchRow, decode_decoded_none hrow]
      rfl
  | some cells =>
      rw [Option.isSome_some, if_pos rfl, fetchRow, hrow]
      change _ = entryOf py pydantic row.now cells
      rw [entryOf]
      dsimp only
      cases mapGuarded py pydantic row.now cells <;> rfl

/-- A row is fetched with the outcome that it has alone exactly when it is unharmed. -/
theorem fetchRow_eq_alone_iff {how : SqlValue → Option Cell} {row : RawRow}
    (hhow : row.decode SqlValue.fetched = none → row.decode how = none) :
    fetchRow py pydantic how row = .ok (entryAlone py pydantic row) ↔
      Unharmed py pydantic how row := by
  rw [entryAlone_eq, fetchRow, Unharmed, ReadsAlike]
  cases hfetched : row.decode SqlValue.fetched with
  | none => simp [hhow hfetched]
  | some cells =>
      cases hrow : row.decode how with
      | none => simp
      | some decoded =>
          dsimp only
          rw [mapGuarded_eq_ok_iff]
          simp

theorem mapM_eq_ok_map_iff {α β : Type} {f : α → Except PyError β} {g : α → β} (items : List α) :
    items.mapM f = .ok (items.map g) ↔ ∀ a ∈ items, f a = .ok (g a) := by
  induction items with
  | nil => simp; rfl
  | cons a items ih =>
      rw [List.forall_mem_cons, ← ih, List.mapM_cons, List.map_cons]
      cases f a with
      | error error => simp [bind, Except.bind]
      | ok b => cases items.mapM f <;> simp [bind, Except.bind, pure, Except.pure]

theorem decoding_none (rows : List RawRow) (row : RawRow)
    (h : row.decode SqlValue.fetched = none) : row.decode (decoding rows) = none := by
  unfold decoding
  split
  · exact h
  · exact decode_decoded_none h

/-- Every row has the outcome that it has alone, and none raises, exactly when no row
escapes the guard, and none reads otherwise for having been decoded from its bytes. -/
theorem fetchesEach_iff (rows : List RawRow) :
    FetchesEach py pydantic rows ↔ ∀ row ∈ rows, Unharmed py pydantic (decoding rows) row :=
  (mapM_eq_ok_map_iff rows).trans
    (forall₂_congr fun row _ => fetchRow_eq_alone_iff py pydantic (decoding_none rows row))

/-- An entry as the file holds it. -/
def RawRow.ofEntry (e : MemoryEntry) : RawRow where
  columns := fun c =>
    match entryToRow isoPydantic e c with
    | .str s => .text s.toUTF8.toList
    | .int n => .integer n
    | .float x => .real x
    | _ => .null
  now := ⟨0, some 0⟩

/-- A row of the first hour of year 1 raises, and the row before it is not returned. -/
theorem earlyRow_raises :
    (fetchOutcomes (reading plainPython) isoPydantic [RawRow.ofEntry plainEntry]).isOk = true ∧
      ¬FetchesEach (reading plainPython) isoPydantic
        [RawRow.ofEntry plainEntry, RawRow.ofEntry earlyEntry.entry] := by
  refine ⟨by decide +kernel, fun heach => ?_⟩
  have hraises : (fetchOutcomes (reading plainPython) isoPydantic
      [RawRow.ofEntry plainEntry, RawRow.ofEntry earlyEntry.entry]).isOk = false := by
    decide +kernel
  rw [heach] at hraises
  cases hraises

end Escapes

open Retrieval

section

variable {py : Python} {pydantic : Pydantic} {dateFromisoformat : String → Option Int}
  {selection : TemporalSelection} {limit : Nat} {entryFilter : MemoryEntry → Bool}

theorem decodeRows_append (first rest : List RawRow) :
    decodeRows py pydantic selection entryFilter (first ++ rest) = do
      let entries ← decodeRows py pydantic selection entryFilter first
      let later ← decodeRows py pydantic selection entryFilter rest
      return entries ++ later := by
  induction first with
  | nil =>
      rw [List.nil_append, decodeRows]
      cases decodeRows py pydantic selection entryFilter rest <;> rfl
  | cons row first ih =>
      rw [List.cons_append, decodeRows, decodeRows]
      cases row.decode SqlValue.decoded with
      | none => exact ih
      | some cells =>
          dsimp only
          rw [ih]
          cases mapFiltered py pydantic selection entryFilter cells with
          | error error => rfl
          | ok mapped =>
              cases decodeRows py pydantic selection entryFilter first with
              | error error => rfl
              | ok entries =>
                  cases decodeRows py pydantic selection entryFilter rest with
                  | error error => rfl
                  | ok later =>
                      change Except.ok _ = Except.ok _
                      rw [List.append_assoc]

variable (py pydantic dateFromisoformat selection limit entryFilter) in
/-- The rows of the batches that the stream reads: it stops where the quota is met. -/
def reached (selected : Selected) : List (List RawRow) → List RawRow
  | [] => []
  | batch :: batches =>
      if selected.isFull limit then []
      else
        batch ++
          match decodeRows py pydantic selection entryFilter batch >>=
              selectFrom (selection.eligible py dateFromisoformat) selection limit selected with
          | .ok selected => reached selected batches
          | .error _ => []

theorem quiet_append {first rest : List RawRow} :
    Quiet py dateFromisoformat selection (first ++ rest) ↔
      Quiet py dateFromisoformat selection first ∧ Quiet py dateFromisoformat selection rest :=
  List.forall_mem_append

theorem streamFrom_iff {batches : List (List RawRow)} {deferred : Nat}
    {selected selected' : Selected} {entries : List MemoryEntry}
    (hcount : Counted selection limit deferred selected)
    (hrows : decodeRows py pydantic selection entryFilter batches.flatten = .ok entries)
    (hselect : selectFrom (selection.eligible py dateFromisoformat) selection limit selected
      entries =
      .ok selected') :
    (Quiet py dateFromisoformat selection
        (reached py pydantic dateFromisoformat selection limit entryFilter selected batches) →
      streamFrom py pydantic dateFromisoformat selection limit entryFilter deferred selected
        batches =
        .ok selected') ∧
    ((streamFrom py pydantic dateFromisoformat selection limit entryFilter deferred selected
        batches).isOk = true →
      Quiet py dateFromisoformat selection
        (reached py pydantic dateFromisoformat selection limit entryFilter selected batches)) := by
  induction batches generalizing deferred selected entries with
  | nil =>
      obtain rfl := Except.ok.inj hrows
      obtain rfl := Except.ok.inj hselect
      exact ⟨fun _ => rfl, fun _ => List.forall_mem_nil _⟩
  | cons batch batches ih =>
      rw [reached, streamFrom]
      cases hfull : selected.isFull limit with
      | true =>
          rw [selectFrom_full hfull] at hselect
          obtain rfl := Except.ok.inj hselect
          exact ⟨fun _ => rfl, fun _ => List.forall_mem_nil _⟩
      | false =>
          rw [if_neg Bool.false_ne_true, if_neg Bool.false_ne_true]
          rw [List.flatten_cons, decodeRows_append] at hrows
          obtain ⟨first, hfirst, hrows⟩ := bind_eq_ok hrows
          obtain ⟨rest, hrest, hentries⟩ := bind_eq_ok hrows
          obtain rfl := Except.ok.inj hentries
          rw [selectFrom_append] at hselect
          obtain ⟨between, hbetween, hlater⟩ := bind_eq_ok hselect
          have hreached : (decodeRows py pydantic selection entryFilter batch >>=
              selectFrom (selection.eligible py dateFromisoformat) selection limit selected) =
                .ok between := by
            rw [hfirst]
            exact hbetween
          rw [hreached]
          dsimp only
          rw [quiet_append]
          constructor
          · rintro ⟨hbatch, hlaterQuiet⟩
            obtain ⟨kept, after, hretained, hkept, hcount'⟩ :=
              decodeRetained_agrees hbatch hcount hfirst hbetween
            simp only [bind, Except.bind, hretained, hkept]
            exact (ih hcount' hrest hlater).1 hlaterQuiet
          · intro hok
            cases hretained : decodeRetained py pydantic dateFromisoformat selection limit
                entryFilter deferred batch with
            | error error =>
                rw [hretained] at hok
                cases hok
            | ok found =>
                have hbatch := decodeRetained_quiet hretained
                obtain ⟨kept, after, hagrees, hkept, hcount'⟩ :=
                  decodeRetained_agrees hbatch hcount hfirst hbetween
                simp only [bind, Except.bind, hagrees, hkept] at hok
                exact ⟨hbatch, (ih hcount' hrest hlater).2 hok⟩

variable (py pydantic dateFromisoformat selection limit entryFilter) in
/-- The rows of the batches up to the one that meets the quota. -/
def rowsRead (batches : List (List RawRow)) : List RawRow :=
  if limit = 0 then []
  else reached py pydantic dateFromisoformat selection limit entryFilter ⟨[], []⟩ batches

theorem counted_empty (selection : TemporalSelection) (limit : Nat) :
    Counted selection limit 0 ⟨[], []⟩ :=
  .inr fun _ => Nat.min_le_right limit 0

/-- Where the selection from all rows gives a list, the stream gives it exactly when no early
decision about a row that it reads raises. -/
theorem fetchSelection_iff {batches : List (List RawRow)} {entries : List MemoryEntry}
    (h : selectDecoded py pydantic dateFromisoformat selection limit entryFilter batches.flatten =
      .ok entries) :
    fetchSelection py pydantic dateFromisoformat selection limit entryFilter batches =
        .ok entries ↔
      Quiet py dateFromisoformat selection
        (rowsRead py pydantic dateFromisoformat selection limit entryFilter batches) := by
  obtain ⟨all, hrows, hselect⟩ := bind_eq_ok h
  rw [select] at hselect
  rw [fetchSelection, rowsRead]
  by_cases hlimit : limit = 0
  · rw [if_pos hlimit] at hselect
    cases hselect
  · rw [if_neg hlimit] at hselect
    rw [if_neg hlimit, if_neg hlimit]
    cases hfrom : selectFrom (selection.eligible py dateFromisoformat) selection limit ⟨[], []⟩
        all with
    | error error =>
        rw [hfrom] at hselect
        cases hselect
    | ok selected =>
        rw [hfrom] at hselect
        obtain rfl := Except.ok.inj hselect
        obtain ⟨hquiet, hraises⟩ := streamFrom_iff (counted_empty selection limit) hrows hfrom
        constructor
        · intro hstream
          refine hraises ?_
          cases hok : streamFrom py pydantic dateFromisoformat selection limit entryFilter 0
              ⟨[], []⟩ batches with
          | ok found => rfl
          | error error =>
              rw [hok] at hstream
              cases hstream
        · intro hread
          rw [hquiet hread]
          rfl

end

/-- What is open now, canaries included. -/
def currentSelection : TemporalSelection where
  asOf := none
  includeSuperseded := false
  excludeSystemCanaries := false
  referenceTime := ⟨0, some 0⟩

/-- A row of an unknown status, whose expiry is past the years in UTC. -/
def strayRow : RawRow :=
  let row := RawRow.ofEntry { plainEntry with expires := "9999-12-31T23:59:59-01:00" }
  { row with
    columns := fun
      | .of .status => .text "lost".toUTF8.toList
      | c => row.columns c }

def overflows {α : Type} : Except PyError α → Bool
  | .error .overflow => true
  | _ => false

theorem eq_of_overflows {α : Type} {r : Except PyError α} (h : overflows r = true) :
    r = .error .overflow := by
  unfold overflows at h
  split at h
  · rfl
  · cases h

/-- The selection from all rows leaves the stray row out; the stream gives nothing for it. -/
theorem strayRow_hides :
    ∃ entries, selectDecoded (reading plainPython) isoPydantic (fun _ => none) currentSelection 5
        (fun _ => true) [RawRow.ofEntry plainEntry, strayRow] = .ok entries ∧
      entries.map MemoryEntry.id = ["m"] ∧
      fetchSelection (reading plainPython) isoPydantic (fun _ => none) currentSelection 5
        (fun _ => true) [[RawRow.ofEntry plainEntry, strayRow]] = .error .overflow := by
  have hplain : ((selectDecoded (reading plainPython) isoPydantic (fun _ => none) currentSelection
      5 (fun _ => true) [RawRow.ofEntry plainEntry, strayRow]).map fun entries =>
        entries.map MemoryEntry.id).toOption = some ["m"] := by
    decide +kernel
  have hstream : overflows (fetchSelection (reading plainPython) isoPydantic (fun _ => none)
      currentSelection 5 (fun _ => true) [[RawRow.ofEntry plainEntry, strayRow]]) = true := by
    decide +kernel
  cases h : selectDecoded (reading plainPython) isoPydantic (fun _ => none) currentSelection 5
      (fun _ => true) [RawRow.ofEntry plainEntry, strayRow] with
  | error error =>
      rw [h] at hplain
      cases hplain
  | ok entries =>
      rw [h] at hplain
      exact ⟨entries, rfl, Option.some.inj hplain, eq_of_overflows hstream⟩

/-- A plain row in its own batch. -/
theorem fetchSelection_iff_plain :
    ∃ entries, selectDecoded (reading plainPython) isoPydantic (fun _ => none) currentSelection 5
        (fun _ => true) [RawRow.ofEntry plainEntry] = .ok entries ∧
      (fetchSelection (reading plainPython) isoPydantic (fun _ => none) currentSelection 5
          (fun _ => true) [[], [RawRow.ofEntry plainEntry]] = .ok entries ↔
        Quiet (reading plainPython) (fun _ => none) currentSelection
          (rowsRead (reading plainPython) isoPydantic (fun _ => none) currentSelection 5
            (fun _ => true) [[], [RawRow.ofEntry plainEntry]])) := by
  have hplain : (selectDecoded (reading plainPython) isoPydantic (fun _ => none) currentSelection
      5 (fun _ => true) [RawRow.ofEntry plainEntry]).isOk = true := by
    decide +kernel
  cases h : selectDecoded (reading plainPython) isoPydantic (fun _ => none) currentSelection 5
      (fun _ => true) [RawRow.ofEntry plainEntry] with
  | error error =>
      rw [h] at hplain
      cases hplain
  | ok entries => exact ⟨entries, rfl, fetchSelection_iff h⟩

end TrwMemory.Codec

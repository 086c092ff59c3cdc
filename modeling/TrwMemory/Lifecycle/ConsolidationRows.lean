import TrwMemory.Lifecycle.ConsolidationUndo

/-!
What archival and its undoing make of one row, as it is read: a row that nobody else writes reads
as it was or as archived into the new entry, a window that was closed stays as it was, and what is
undone reads as before but for the sync bookkeeping, which every write renews. The quarantine ledger
shows the row all the time, for it asks for none of the fields that are written.
-/
namespace TrwMemory.Lifecycle.Consolidator

open Library Library.Jobs Storage Sync Tools

variable {τ : Type} {c : Consolidator τ}

/-- An entry without its sync bookkeeping, which every write renews. -/
def unsynced (e : MemoryEntry) : MemoryEntry :=
  { e with syncSeq := 0, syncHash := "", lastSyncedAt := none }

/-- What archival makes of an entry; a window that is closed stays as it is. -/
def archivedView (id : String) (closeAt updatedAt : Datetime) (e : MemoryEntry) : MemoryEntry :=
  { e with
    consolidatedInto := some id
    status := .archived
    updatedAt
    invalidFrom := if e.invalidFrom.isNone then some closeAt else e.invalidFrom
    invalidatedBy := if e.invalidFrom.isNone then some id else e.invalidatedBy }

/-- A reading, in the parts that archival writes and the rest. -/
theorem unsynced_readBack (row : MemoryEntry) :
    unsynced (readBack row) =
      { readBack (beyondArchival row) with
        consolidatedInto := textOrNone row.consolidatedInto
        status := row.status
        updatedAt := row.updatedAt.parseDt
        invalidFrom := row.invalidFrom.map Datetime.parseDt
        invalidatedBy := textOrNone row.invalidatedBy } := rfl

theorem readBack_beyondArchival (row : MemoryEntry) :
    readBack (beyondArchival row) = readBack (beyondArchival (unsynced (readBack row))) := by
  simp only [readBack, beyondArchival, unsynced, Datetime.parseDt_parseDt, textOrNone_textOrNone,
    Option.map_map, truncateNudgeLine_truncateNudgeLine, Option.map_none, Function.comp_def]

theorem servedView_unsynced (e : MemoryEntry) :
    servedView (unsynced e) = unsynced (servedView e) := by
  have hsame : violatesEvidenceInvariant (unsynced e) = violatesEvidenceInvariant e := rfl
  cases h : violatesEvidenceInvariant e with
  | false => rw [servedView_of_conforms h, servedView_of_conforms (hsame.trans h)]
  | true =>
      rw [servedView_of_violates h, servedView_of_violates (hsame.trans h)]
      rfl

theorem servedView_archivedView (id : String) (closeAt updatedAt : Datetime) (e : MemoryEntry) :
    servedView (archivedView id closeAt updatedAt e) =
      archivedView id closeAt updatedAt (servedView e) := by
  have hsame : violatesEvidenceInvariant (archivedView id closeAt updatedAt e) =
    violatesEvidenceInvariant e := rfl
  cases h : violatesEvidenceInvariant e with
  | false => rw [servedView_of_conforms h, servedView_of_conforms (hsame.trans h)]
  | true =>
      rw [servedView_of_violates h, servedView_of_violates (hsame.trans h)]
      rfl

theorem validEntry_unsynced (e : MemoryEntry) : validEntry (unsynced e) = validEntry e := by
  unfold validEntry
  rfl

/-- The ledger asks for none of the fields that archival writes. -/
theorem blocks_beyondArchival (row : MemoryEntry) :
    c.blocks (servedView (readBack (beyondArchival row))) =
      c.blocks (servedView (readBack row)) := by
  have hsame : violatesEvidenceInvariant (readBack (beyondArchival row)) =
    violatesEvidenceInvariant (readBack row) := rfl
  cases h : violatesEvidenceInvariant (readBack row) with
  | false =>
      rw [servedView_of_conforms h, servedView_of_conforms (hsame.trans h)]
      rfl
  | true =>
      rw [servedView_of_violates h, servedView_of_violates (hsame.trans h)]
      rfl

/-- Two rows that read alike but for the bookkeeping are served alike. -/
theorem readRow_congr {row row' : MemoryEntry}
    (h : unsynced (readBack row) = unsynced (readBack row')) (hshifts : shifts row = shifts row') :
    (c.readRow (some row)).map (Option.map unsynced) =
      (c.readRow (some row')).map (Option.map unsynced) := by
  have hid : row.id = row'.id := by
    have hids := congrArg MemoryEntry.id h
    exact hids
  have hvalid : validEntry (readBack row) = validEntry (readBack row') := by
    rw [← validEntry_unsynced, h, validEntry_unsynced]
  have hserved : unsynced (servedView (readBack row)) = unsynced (servedView (readBack row')) := by
    rw [← servedView_unsynced, h, servedView_unsynced]
  have hblocks : c.blocks (servedView (readBack row)) = c.blocks (servedView (readBack row')) := by
    change c.blocks (unsynced (servedView (readBack row))) = _
    rw [hserved]
    rfl
  unfold readRow rowToEntry
  dsimp only
  rw [hvalid, hshifts]
  cases shifts row' && validEntry (readBack row') with
  | false =>
      rw [hid]
      rfl
  | true =>
      simp only [if_true]
      rw [hblocks]
      cases c.blocks (servedView (readBack row')) with
      | true => rfl
      | false => exact congrArg (Except.ok ∘ some) hserved

/-- A row that archival has written over `row₀`. -/
structure Archived (id : String) (closeAt : Datetime) (row₀ row : MemoryEntry) : Prop where
  beyond : readBack (beyondArchival row) = readBack (beyondArchival row₀)
  into : row.consolidatedInto = some id
  status : row.status = .archived
  window : (row.invalidFrom.map Datetime.parseDt, textOrNone row.invalidatedBy) =
    if row₀.invalidFrom.isNone then (some closeAt.parseDt, some id)
    else (row₀.invalidFrom.map Datetime.parseDt, textOrNone row₀.invalidatedBy)
  readable : rowToEntry row = some (readBack row)

/-- A row reads as another one, but for its sync bookkeeping. -/
structure SameRead (row₀ row : MemoryEntry) : Prop where
  view : unsynced (readBack row) = unsynced (readBack row₀)
  shift : shifts row = shifts row₀

/-- A row reads as the one that was there, or as that one archived. -/
inductive Standing (id : String) (closeAt : Datetime) (row₀ row : MemoryEntry) : Prop
  | kept (same : SameRead row₀ row)
  | archived (h : Archived id closeAt row₀ row)

section Row

variable {id : String} {closeAt : Datetime} {row₀ row : MemoryEntry}

theorem Standing.beyond (h : Standing id closeAt row₀ row) :
    readBack (beyondArchival row) = readBack (beyondArchival row₀) := by
  cases h with
  | kept same => rw [readBack_beyondArchival row, same.view, ← readBack_beyondArchival]
  | archived h => exact h.beyond

/-- A window that was closed is as it was. -/
theorem Standing.closed (h : Standing id closeAt row₀ row)
    (hclosed : row₀.invalidFrom.isNone = false) :
    row.invalidFrom.map Datetime.parseDt = row₀.invalidFrom.map Datetime.parseDt ∧
      textOrNone row.invalidatedBy = textOrNone row₀.invalidatedBy := by
  cases h with
  | kept same =>
      have hview := same.view
      rw [unsynced_readBack, unsynced_readBack] at hview
      exact ⟨congrArg MemoryEntry.invalidFrom hview, congrArg MemoryEntry.invalidatedBy hview⟩
  | archived h =>
      have hwindow := h.window
      rw [if_neg (by rw [hclosed]; exact Bool.false_ne_true)] at hwindow
      exact Prod.mk.injEq .. ▸ hwindow

theorem beyond_updated {digest : SyncContent → String} {existing : MemoryEntry} {fields : Patch}
    {now : Datetime} (h : Standing id closeAt row₀ row)
    (hfields : ∀ col ∉ archivalColumns, fields col = none) :
    readBack (beyondArchival (row.patched (updateFields digest existing fields now))) =
      readBack (beyondArchival row₀) := by
  rw [beyondArchival_updated digest row existing now hfields, h.beyond]

theorem textOrNone_ne {text : String} (h : text ≠ "") : textOrNone (some text) = some text := by
  rw [textOrNone, Option.filter_some, if_pos (bne_iff_ne.mpr h)]

/-- Archival of a row that stands so. -/
theorem archived_of_close {digest : SyncContent → String} {existing entry : MemoryEntry}
    {now : Datetime} (hid : id ≠ "") (h : Standing id closeAt row₀ row)
    (hentry : entry = servedView (readBack row₀))
    (hread : rowToEntry (row.patched (updateFields digest existing
      (closeFields id closeAt now entry) now)) =
        some (readBack (row.patched (updateFields digest existing
          (closeFields id closeAt now entry) now)))) :
    Archived id closeAt row₀
      (row.patched (updateFields digest existing (closeFields id closeAt now entry) now)) := by
  have hopen : entry.invalidFrom.isNone = row₀.invalidFrom.isNone := by
    obtain ⟨confidence, metadata, hserved⟩ := servedView_fields (readBack row₀)
    rw [hentry, hserved]
    exact Option.isNone_map
  have hother : ∀ col ∉ ownColumns, updateFields digest existing (closeFields id closeAt now entry)
      now col = closeFields id closeAt now entry col := fun col hcol =>
    updateFields_other digest existing _ now hcol
  refine ⟨beyond_updated h fun col hcol => closeFields_other hcol, ?_, ?_, ?_, hread⟩
  · simp only [MemoryEntry.patched, hother .consolidatedInto (by decide)]
    unfold closeFields
    split <;> rfl
  · simp only [MemoryEntry.patched, hother .status (by decide)]
    unfold closeFields
    split <;> rfl
  · simp only [MemoryEntry.patched, hother .invalidFrom (by decide),
      hother .invalidatedBy (by decide)]
    unfold closeFields
    rw [hopen]
    cases hwas : row₀.invalidFrom.isNone with
    | true =>
        change (some closeAt.parseDt, textOrNone (some id)) = (some closeAt.parseDt, some id)
        rw [textOrNone_ne hid]
    | false =>
        obtain ⟨hfrom, hby⟩ := h.closed hwas
        exact Prod.ext hfrom hby

theorem updateFields_updatedAt (digest : SyncContent → String) (existing : MemoryEntry)
    (fields : Patch) (now : Datetime) (h : fields.names .updatedAt = true) :
    updateFields digest existing fields now .updatedAt = fields .updatedAt := by
  have hdated : datedFields fields now = fields := by
    unfold datedFields
    rw [h]
    rfl
  cases hn : namesSync fields with
  | true => rw [updateFields_named digest existing fields now hn, hdated]
  | false =>
      rw [updateFields_unnamed digest existing fields now hn, hdated,
        Patch.set_other _ _ (by decide), Patch.set_other _ _ (by decide),
        Patch.set_other _ _ (by decide)]

/-- What is put back of a row that is still archived into the entry. -/
theorem undoFields_archived {entry current : MemoryEntry}
    (hinto : current.consolidatedInto = some id) (hstatus : current.status = .archived) :
    let undo := undoFields id entry current
    undo .consolidatedInto = some entry.consolidatedInto ∧ undo .status = some entry.status ∧
      undo .updatedAt = some entry.updatedAt ∧
      undo .invalidFrom =
        (if current.invalidatedBy = some id then some entry.invalidFrom else none) ∧
      undo .invalidatedBy =
        if current.invalidatedBy = some id then some entry.invalidatedBy else none := by
  intro undo
  unfold undo undoFields
  rw [if_pos hinto, if_pos hstatus]
  split <;> simp [Patch.set_other, Patch.none]

/-- The undoing of an archival. -/
theorem kept_of_undo {digest : SyncContent → String} {existing entry current : MemoryEntry}
    {now : Datetime} (hid : id ≠ "") (h : Archived id closeAt row₀ row)
    (hentry : entry = servedView (readBack row₀)) (hcurrent : current = servedView (readBack row)) :
    unsynced (readBack (row.patched (updateFields digest existing (undoFields id entry current)
      now))) = unsynced (readBack row₀) := by
  have hother : ∀ col ∉ ownColumns, updateFields digest existing (undoFields id entry current)
      now col = undoFields id entry current col := fun col hcol =>
    updateFields_other digest existing _ now hcol
  obtain ⟨confidence, metadata, hserved⟩ := servedView_fields (readBack row)
  obtain ⟨confidence₀, metadata₀, hserved₀⟩ := servedView_fields (readBack row₀)
  have hinto : current.consolidatedInto = some id := by
    rw [hcurrent, hserved]
    change textOrNone row.consolidatedInto = some id
    rw [h.into, textOrNone_ne hid]
  have hstatus : current.status = .archived := by
    rw [hcurrent, hserved]
    exact h.status
  have hby : current.invalidatedBy = textOrNone row.invalidatedBy := by rw [hcurrent, hserved]; rfl
  obtain ⟨hundoInto, hundoStatus, hundoUpdated, hundoFrom, hundoBy⟩ :=
    undoFields_archived hinto hstatus
  have hupdated := updateFields_updatedAt digest existing (undoFields id entry current) now
    (by rw [Patch.names, hundoUpdated]; rfl)
  rw [unsynced_readBack, unsynced_readBack, beyond_updated (Standing.archived h)
    fun col hcol => undoFields_other hcol]
  simp only [MemoryEntry.patched, hother .consolidatedInto (by decide), hother .status (by decide),
    hother .invalidFrom (by decide), hother .invalidatedBy (by decide), hupdated, hundoInto,
    hundoStatus, hundoUpdated, hundoFrom, hundoBy, Option.getD_some, hby]
  have hwindow : ((if textOrNone row.invalidatedBy = some id then some entry.invalidFrom
        else none).getD row.invalidFrom).map Datetime.parseDt =
          row₀.invalidFrom.map Datetime.parseDt ∧
      textOrNone ((if textOrNone row.invalidatedBy = some id then some entry.invalidatedBy
        else none).getD row.invalidatedBy) = textOrNone row₀.invalidatedBy := by
    split
    · rw [hentry, hserved₀]
      simp only [Option.getD_some, readBack, Option.map_map, textOrNone_textOrNone,
        Function.comp_def, Datetime.parseDt_parseDt, and_self]
    · rename_i hnot
      cases hwas : row₀.invalidFrom.isNone with
      | true =>
          have hwindow := h.window
          rw [if_pos hwas] at hwindow
          exact absurd (congrArg Prod.snd hwindow) hnot
      | false => exact (Standing.archived h).closed hwas
  rw [hwindow.1, hwindow.2, hentry, hserved₀]
  simp only [readBack, textOrNone_textOrNone, Datetime.parseDt_parseDt]

end Row

/-- A row that stands so is served as the one that was there is. -/
theorem Standing.served {id : String} {closeAt : Datetime} {row₀ row e₀ : MemoryEntry}
    (h : Standing id closeAt row₀ row) (hread : c.readRow (some row₀) = .ok (some e₀)) :
    c.readRow (some row) = .ok (some (servedView (readBack row))) := by
  cases h with
  | kept same =>
      have hview := readRow_congr (c := c) same.view same.shift
      rw [hread] at hview
      cases hrow : c.readRow (some row) with
      | error error => rw [hrow] at hview; cases hview
      | ok found =>
          cases found with
          | none => rw [hrow] at hview; cases hview
          | some e =>
              obtain ⟨stored, existing, hstored, hback, -, rfl⟩ := readRow_some hrow
              obtain rfl := Option.some.inj hstored
              rw [rowToEntry_eq hback]
  | archived h =>
      obtain ⟨stored, existing, hstored, hback, hblocks, -⟩ := readRow_some hread
      obtain rfl := Option.some.inj hstored
      rw [rowToEntry_eq hback] at hblocks
      have hsame :
          c.blocks (servedView (readBack row)) = c.blocks (servedView (readBack row₀)) := by
        have hbeyond := congrArg (fun e => c.blocks (servedView e)) h.beyond
        have hserved : ∀ r : MemoryEntry, c.blocks (servedView (readBack (beyondArchival r))) =
            c.blocks (servedView (readBack r)) := fun r => blocks_beyondArchival r
        rwa [hserved, hserved] at hbeyond
      rw [readRow, h.readable]
      dsimp only
      rw [hsame, hblocks]
      rfl

end TrwMemory.Lifecycle.Consolidator

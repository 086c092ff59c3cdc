import TrwMemory.Library.Transition
import TrwMemory.Storage.RowWrites

/-!
A revision-numbered acknowledgement (`DeltaTracker.mark_synced`,
`memory_sync_mark_synced`). One row, its writers, and a client that reads pages of
the dirty feed and acknowledges the `sync_seq` of a page. `mark_synced` compares
nothing but that number, and `store` takes it from the writer's copy.

Contents are compared as they are served, since that is what a page carries.
-/
namespace TrwMemory.Sync

open Library.Transition Storage

/-- What a page shows of a row, and what it is compared with. -/
def servedContent (e : MemoryEntry) : SyncContent := syncContent (servedView e)

/-- The row of one `(namespace, id)`, and the pages read so far. -/
structure FeedState where
  row : Option MemoryEntry
  pages : List (Int × SyncContent)

inductive FeedEvent where
  | readPage
  | store (entry : MemoryEntry)
  | update (fields : Patch) (now : Datetime)
  | markSynced (seq : Int) (blocks : MemoryEntry → Bool) (now : Datetime)

/-- The fields of the mark. -/
def syncedAt (now : Datetime) : Patch := Patch.none.set .lastSyncedAt (some now)

/-- The mark of a row that was read as `current`, and whether it was counted. -/
def markRow (digest : SyncContent → String) (stored current : MemoryEntry)
    (blocks : MemoryEntry → Bool) (expected : Option Int) (now : Datetime) : MemoryEntry × Nat :=
  if blocks (servedView current) || some current.syncSeq != expected then (stored, 0)
  else
    match updateRow digest stored (syncedAt now) now with
    | .ok marked => (marked, 1)
    | .error _ => (stored, 0)

/-- `mark_synced` of one id. A failed read or update is logged and skipped. -/
def markSynced (digest : SyncContent → String) (row : Option MemoryEntry)
    (blocks : MemoryEntry → Bool) (expected : Option Int) (now : Datetime) :
    Option MemoryEntry × Nat :=
  match row with
  | none => (none, 0)
  | some stored =>
      match rowToEntry stored with
      | none => (some stored, 0)
      | some current =>
          let marked := markRow digest stored current blocks expected now
          (some marked.1, marked.2)

namespace FeedState

/-- A client reads a page, somebody writes the row, or the client acknowledges a
number it read. A refused write leaves the row as it is. -/
def step (digest : SyncContent → String) (s : FeedState) : FeedEvent → Option FeedState
  | .readPage =>
      match s.row.bind rowToEntry with
      | none => none
      | some e =>
          if e.lastSyncedAt.isNone && 0 < e.syncSeq then
            some { s with pages := s.pages ++ [(e.syncSeq, servedContent e)] }
          else none
  | .store entry =>
      match storeRow digest s.row entry with
      | .ok row => some { s with row := some row }
      | .error _ => some s
  | .update fields now =>
      match s.row with
      | none => some s
      | some stored =>
          match updateRow digest stored fields now with
          | .ok row => some { s with row := some row }
          | .error _ => some s
  | .markSynced seq blocks now =>
      if seq ∈ s.pages.map Prod.fst then
        some { s with row := (markSynced digest s.row blocks (some seq) now).1 }
      else none

def start (row : Option MemoryEntry) : FeedState := ⟨row, []⟩

def dirty (s : FeedState) : Bool := s.row.any fun row => row.lastSyncedAt.isNone

def clean (s : FeedState) : Bool := s.row.any fun row => row.lastSyncedAt.isSome

end FeedState

def dirtyFeedMachine (digest : SyncContent → String) : Machine FeedState FeedEvent :=
  ⟨FeedState.step digest⟩

/-- The number and the content of a write that is not refused: `store` counts from
its copy, `update` from the row unless it names a sync field. -/
def FeedState.proposed (digest : SyncContent → String) (s : FeedState) :
    FeedEvent → Option (Int × SyncContent)
  | .store entry =>
      if (storeRow digest s.row entry).isOk then
        some (entry.syncSeq + 1, servedContent (readBack entry))
      else none
  | .update fields now =>
      match s.row with
      | none => none
      | some row =>
          if !fields.fields.isEmpty && (updateRow digest row fields now).isOk then
            some (updateSeq row fields, servedContent (readBack (row.patched fields)))
          else none
  | .readPage | .markSynced _ _ _ => none

/-- No write gives the row a number under which pages carried only other content. -/
def KeepsNumbers (digest : SyncContent → String) (s : FeedState) (e : FeedEvent) : Prop :=
  ∀ w ∈ s.proposed digest e, w.1 ∈ s.pages.map Prod.fst → w ∈ s.pages

instance (digest : SyncContent → String) (s : FeedState) (e : FeedEvent) :
    Decidable (KeepsNumbers digest s e) :=
  inferInstanceAs
    (Decidable (∀ w ∈ s.proposed digest e, w.1 ∈ s.pages.map Prod.fst → w ∈ s.pages))

/-- The served content of an entry depends on its hashed fields and evidence level. -/
theorem servedContent_congr {e e' : MemoryEntry} (hcontent : syncContent e = syncContent e')
    (hlevel : e.evidenceLevel = e'.evidenceLevel) : servedContent e = servedContent e' := by
  have hconfidence : e.confidence = e'.confidence := congrArg SyncContent.confidence hcontent
  have hmetadata : e.metadata = e'.metadata := congrArg SyncContent.metadata hcontent
  have hviolates : violatesEvidenceInvariant e = violatesEvidenceInvariant e' := by
    rw [violatesEvidenceInvariant, violatesEvidenceInvariant, hconfidence, hlevel]
  cases hv : violatesEvidenceInvariant e' with
  | false =>
      rw [servedContent, servedContent, servedView_of_conforms (hviolates.trans hv),
        servedView_of_conforms hv, hcontent]
  | true =>
      rw [servedContent, servedContent, servedView_of_violates (hviolates.trans hv),
        servedView_of_violates hv]
      have hrest : { syncContent e with
            confidence := .unverified
            metadata := e.metadata.insert SERVED_CONFIDENCE_DEMOTED_KEY "true" } =
          { syncContent e' with
            confidence := .unverified
            metadata := e'.metadata.insert SERVED_CONFIDENCE_DEMOTED_KEY "true" } := by
        rw [hcontent, hmetadata]
      exact hrest

theorem evidenceLevel_updateFields (digest : SyncContent → String) (row existing : MemoryEntry)
    (fields : Patch) (now : Datetime) :
    (readBack (row.patched (updateFields digest existing fields now))).evidenceLevel =
      (readBack (row.patched fields)).evidenceLevel := by
  have hother := updateFields_other digest existing fields now
    (by decide : Column.evidenceLevel ∉ ownColumns)
  simp only [readBack, MemoryEntry.patched, hother]

/-- A committed update that is not a plain read has the proposed number and content. -/
theorem updateRow_proposed (digest : SyncContent → String) {row existing : MemoryEntry}
    (fields : Patch) (now : Datetime) (hread : rowToEntry row = some existing) :
    let written := row.patched (updateFields digest existing fields now)
    (readBack written).syncSeq = updateSeq row fields ∧
      servedContent (readBack written) = servedContent (readBack (row.patched fields)) := by
  have hseq : existing.syncSeq = row.syncSeq := by
    rw [rowToEntry_eq hread]
    rfl
  exact ⟨patched_updateFields_syncSeq digest row existing fields now hseq,
    servedContent_congr (syncContent_updateFields digest row existing fields now)
      (evidenceLevel_updateFields digest row existing fields now)⟩

/-- If the row's number was on a page, the row's content was on a page of that number. -/
def FeedState.Sound (s : FeedState) : Prop :=
  ∀ row e, s.row = some row → rowToEntry row = some e →
    e.syncSeq ∈ s.pages.map Prod.fst → (e.syncSeq, servedContent e) ∈ s.pages

theorem sound_start (row : Option MemoryEntry) : (FeedState.start row).Sound := by
  intro stored e _ _ hmem
  simp [FeedState.start] at hmem

variable {digest : SyncContent → String} {s t : FeedState}

theorem sound_readPage (digest : SyncContent → String)
    (hstep : s.step digest .readPage = some t) : t.Sound := by
  simp only [FeedState.step] at hstep
  cases hread : s.row.bind rowToEntry with
  | none => simp [hread] at hstep
  | some shown =>
      simp only [hread] at hstep
      split at hstep
      · obtain rfl := Option.some.inj hstep
        intro row e hrow he hmem
        have hshown : shown = e := by
          rw [show s.row = some row from hrow, Option.bind_some, he] at hread
          exact (Option.some.inj hread).symm
        subst hshown
        exact List.mem_append_right _ (List.mem_singleton_self _)
      · cases hstep

theorem sound_store (hs : s.Sound) {entry : MemoryEntry}
    (hkeeps : KeepsNumbers digest s (.store entry))
    (hstep : s.step digest (.store entry) = some t) : t.Sound := by
  simp only [FeedState.step] at hstep
  cases hstored : storeRow digest s.row entry with
  | error _ =>
      rw [hstored] at hstep
      exact Option.some.inj hstep ▸ hs
  | ok written =>
      rw [hstored] at hstep
      obtain rfl := Option.some.inj hstep
      obtain rfl := storeRow_ok hstored
      intro row e hrow he hmem
      obtain rfl := Option.some.inj hrow
      obtain rfl := rowToEntry_eq he
      have hproposed : s.proposed digest (.store entry) =
          some ((readBack (stampSync digest entry)).syncSeq,
            servedContent (readBack (stampSync digest entry))) := by
        simp only [FeedState.proposed, hstored]
        exact congrArg (fun c => some (entry.syncSeq + 1, c)) (servedContent_congr rfl rfl)
      exact hkeeps _ hproposed hmem

theorem sound_update (hs : s.Sound) {fields : Patch} {now : Datetime}
    (hkeeps : KeepsNumbers digest s (.update fields now))
    (hstep : s.step digest (.update fields now) = some t) : t.Sound := by
  simp only [FeedState.step] at hstep
  cases hrow : s.row with
  | none =>
      rw [hrow] at hstep
      exact Option.some.inj hstep ▸ hs
  | some stored =>
      rw [hrow] at hstep
      cases hwritten : updateRow digest stored fields now with
      | error _ =>
          simp only [hwritten] at hstep
          exact Option.some.inj hstep ▸ hs
      | ok written =>
          simp only [hwritten] at hstep
          obtain rfl := Option.some.inj hstep
          intro row e hrow' he hmem
          obtain rfl := Option.some.inj hrow'
          rcases updateRow_ok hwritten with ⟨-, rfl⟩ | ⟨hfields, existing, hread, rfl, -⟩
          · exact hs _ e hrow he hmem
          · obtain rfl := rowToEntry_eq he
            obtain ⟨hseq, hcontent⟩ := updateRow_proposed digest fields now hread
            have hproposed : s.proposed digest (.update fields now) =
                some (updateSeq stored fields,
                  servedContent (readBack (stored.patched fields))) := by
              simp only [FeedState.proposed, hrow, hfields, hwritten]
              rfl
            rw [hseq, hcontent]
            exact hkeeps _ hproposed (hseq ▸ hmem)

/-- What an acknowledgement does to the row when it does anything. -/
theorem markSynced_cases (digest : SyncContent → String) (row : Option MemoryEntry)
    (blocks : MemoryEntry → Bool) (seq : Int) (now : Datetime) :
    (markSynced digest row blocks (some seq) now).1 = row ∨
      ∃ stored current marked, row = some stored ∧ rowToEntry stored = some current ∧
        current.syncSeq = seq ∧ updateRow digest stored (syncedAt now) now = .ok marked ∧
        (markSynced digest row blocks (some seq) now).1 = some marked := by
  cases row with
  | none => exact .inl rfl
  | some stored =>
      cases hread : rowToEntry stored with
      | none => exact .inl (by simp only [markSynced, hread])
      | some current =>
          have hmarked : (markSynced digest (some stored) blocks (some seq) now).1 =
              some (markRow digest stored current blocks (some seq) now).1 := by
            simp only [markSynced, hread]
          rw [hmarked]
          by_cases hskip : (blocks (servedView current) || some current.syncSeq != some seq) = true
          · rw [markRow, if_pos hskip]
            exact .inl rfl
          · have hseq : current.syncSeq = seq := by
              simp only [Bool.or_eq_true, bne_iff_ne, ne_eq, Option.some.injEq, not_or,
                not_not] at hskip
              exact hskip.2
            rw [markRow, if_neg hskip]
            cases hmark : updateRow digest stored (syncedAt now) now with
            | error _ => exact .inl rfl
            | ok marked => exact .inr ⟨stored, current, marked, rfl, hread, hseq, hmark, rfl⟩

/-- The mark leaves the number and the content as they were. -/
theorem marked_unchanged {stored current marked : MemoryEntry} {now : Datetime}
    (hread : rowToEntry stored = some current)
    (hmark : updateRow digest stored (syncedAt now) now = .ok marked) :
    (readBack marked).syncSeq = current.syncSeq ∧
      servedContent (readBack marked) = servedContent current := by
  obtain rfl := rowToEntry_eq hread
  rcases updateRow_ok hmark with ⟨-, rfl⟩ | ⟨-, existing, hread', rfl, -⟩
  · exact ⟨rfl, rfl⟩
  · obtain ⟨hseq, hcontent⟩ := updateRow_proposed digest (syncedAt now) now hread'
    have hnumber : updateSeq stored (syncedAt now) = stored.syncSeq := by
      have hnamed : namesSync (syncedAt now) = true := by rfl
      rw [updateSeq, if_pos hnamed]
      rfl
    exact ⟨hseq.trans hnumber, hcontent.trans (servedContent_congr rfl rfl)⟩

theorem sound_markSynced (hs : s.Sound) {seq : Int} {blocks : MemoryEntry → Bool} {now : Datetime}
    (hstep : s.step digest (.markSynced seq blocks now) = some t) : t.Sound := by
  simp only [FeedState.step] at hstep
  split at hstep
  · obtain rfl := Option.some.inj hstep
    rcases markSynced_cases digest s.row blocks seq now with
      hsame | ⟨stored, current, marked, hrow, hread, -, hmark, hsome⟩
    · intro row e hrow
      exact hs row e (hsame ▸ hrow)
    · intro row e hrow' he hmem
      obtain rfl : marked = row := Option.some.inj (hsome.symm.trans hrow')
      obtain rfl := rowToEntry_eq he
      obtain ⟨hseq, hcontent⟩ := marked_unchanged hread hmark
      rw [hseq] at hmem
      rw [hseq, hcontent]
      exact hs stored current hrow hread hmem
  · cases hstep

theorem sound_preserved (digest : SyncContent → String) :
    (dirtyFeedMachine digest).Preserves (KeepsNumbers digest) FeedState.Sound := by
  intro s e t hs hkeeps hstep
  cases e with
  | readPage => exact sound_readPage digest hstep
  | store entry => exact sound_store hs hkeeps hstep
  | update fields now => exact sound_update hs hkeeps hstep
  | markSynced seq blocks now => exact sound_markSynced hs hstep

/-- From every starting row and in every run whose writes keep their numbers, an
acknowledgement that turns the row clean names a page that showed this content. -/
theorem markSynced_acknowledges_read (digest : SyncContent → String) (row : Option MemoryEntry)
    {events : List FeedEvent}
    (hkeeps : (dirtyFeedMachine digest).Guarded (KeepsNumbers digest) (.start row) events)
    (hrun : (dirtyFeedMachine digest).run (.start row) events = some s)
    {seq : Int} {blocks : MemoryEntry → Bool} {now : Datetime}
    (hack : (dirtyFeedMachine digest).step s (.markSynced seq blocks now) = some t)
    (hdirty : s.dirty = true) (hclean : t.clean = true) :
    ∃ stored e, s.row = some stored ∧ rowToEntry stored = some e ∧
      (seq, servedContent e) ∈ s.pages := by
  have hs : s.Sound := (dirtyFeedMachine digest).run_preserves (sound_preserved digest)
    (sound_start row) hkeeps hrun
  simp only [dirtyFeedMachine, FeedState.step] at hack
  split at hack
  · rename_i hread
    obtain rfl := Option.some.inj hack
    rcases markSynced_cases digest s.row blocks seq now with
      hsame | ⟨stored, current, marked, hrow, hcurrent, rfl, -, -⟩
    · -- an acknowledgement that did nothing has not cleaned the row
      simp only [FeedState.dirty, FeedState.clean, hsame] at hdirty hclean
      cases hrow : s.row with
      | none =>
          rw [hrow] at hdirty
          cases hdirty
      | some stored =>
          rw [hrow] at hdirty hclean
          cases hsynced : stored.lastSyncedAt <;> simp [hsynced] at hdirty hclean
    · exact ⟨stored, current, hrow, hcurrent, hs stored current hrow hcurrent hread⟩
  · cases hack

/-- A digest for runs on fixed inputs. -/
def textDigest (c : SyncContent) : String := "sha256:" ++ c.content

def draft (content : String) (seq : Int) : MemoryEntry :=
  { MemoryEntry.ofDefaults "a" content "south" ⟨0, some 0⟩ a_ne_empty with syncSeq := seq }

def acknowledgeSeq (seq : Int) : FeedEvent := .markSynced seq (fun _ => false) ⟨5, some 0⟩

def freshEdit : List FeedEvent :=
  [.store (draft "first" 0), .readPage, .store (draft "second" 1), .readPage]

def freshEdited : FeedState := (dirtyFeedMachine textDigest).endState (.start none) freshEdit

theorem freshEdit_acknowledged :
    ∃ stored e, freshEdited.row = some stored ∧ rowToEntry stored = some e ∧
      (2, servedContent e) ∈ freshEdited.pages :=
  markSynced_acknowledges_read textDigest none
    (by decide +kernel :
      (dirtyFeedMachine textDigest).Guarded (KeepsNumbers textDigest) (.start none) freshEdit)
    ((dirtyFeedMachine textDigest).run_endState _ _ (by decide +kernel))
    ((dirtyFeedMachine textDigest).step_endState freshEdited (acknowledgeSeq 2)
      (by decide +kernel))
    (by decide +kernel) (by decide +kernel)

/-- A copy from before the first store reuses its number. -/
def staleEdit : List FeedEvent :=
  [.store (draft "first" 0), .readPage, .store (draft "second" 0)]

def staleEdited : FeedState := (dirtyFeedMachine textDigest).endState (.start none) staleEdit

/-- The page of the first content acknowledges the second, which no page showed. -/
theorem stale_edit_marked_clean :
    (dirtyFeedMachine textDigest).run (.start none) staleEdit = some staleEdited ∧
      staleEdited.pages = [(1, servedContent (draft "first" 0))] ∧
      staleEdited.row.map servedContent = some (servedContent (draft "second" 0)) ∧
      servedContent (draft "second" 0) ≠ servedContent (draft "first" 0) ∧
      staleEdited.dirty = true ∧
      (((dirtyFeedMachine textDigest).step staleEdited (acknowledgeSeq 1)).any
        FeedState.clean) = true := by
  refine ⟨(dirtyFeedMachine textDigest).run_endState _ _ (by decide +kernel), ?_, ?_, ?_, ?_, ?_⟩
  all_goals decide +kernel

end TrwMemory.Sync

import TrwMemory.Security.QuarantineReview

/-!
A quarantine call that raised after some of its writes, and the same call again. An intake
can always be repeated. A review is recognised by its log, which is written before the
ledger, and an approval by the row it has put in the active store: a review that failed
between these writes cannot be completed. Exactly which attempts can be repeated is
`retried_iff`.
-/
namespace TrwMemory.Security

open Library.Keyed Storage Sync

inductive QuarantineCall where
  | intake (e : MemoryEntry)
  | review (transactional : Bool) (call : ReviewCall)

def callWrites (config : ReviewConfig) (clock : Nat → Datetime) (s : QuarantineState) :
    QuarantineCall → List QuarantineWrite
  | .intake e => intakeWrites config clock e
  | .review transactional call => (reviewScript config clock transactional s call).2

/-- The call raises after `made` of its writes, or later. -/
def attempt (config : ReviewConfig) (clock : Nat → Datetime) (c : QuarantineCall) (made : Nat)
    (s : QuarantineState) : QuarantineState :=
  applyAll config ((callWrites config clock s c).take made) s

/-- The call without a failure. -/
def perform (config : ReviewConfig) (clock : Nat → Datetime) (c : QuarantineCall)
    (s : QuarantineState) : QuarantineState :=
  applyAll config (callWrites config clock s c) s

/-- The latest decision on a key. -/
def verdict (ledger : List StoredRow) (key : LedgerKey) : Option LedgerDecision :=
  (buildIndex ledger key).map LedgerRow.decision

/-- The same active store, quarantine store and verdicts. -/
structure SameOutcome (s t : QuarantineState) : Prop where
  active : s.active.SameEntries t.active
  held : s.held.SameEntries t.held
  verdict : ∀ key, verdict s.ledger key = verdict t.ledger key

/-- The held entry that a review of the key acts on. -/
def pendingEntry (s : QuarantineState) (k : RowKey) : Option MemoryEntry :=
  match resolvedStatus s.reviews k with
  | some _ => none
  | none => s.held.get k

/-- The ledger holds the decision on every key of the entry. -/
def Recorded (config : ReviewConfig) (ledger : List StoredRow) (e : MemoryEntry)
    (decision : LedgerDecision) : Prop :=
  ∀ key ∈ (LedgerIdentity.of config.contentDigest e "" []).identityKeys,
    verdict ledger key = some decision

/-- An approval that is admitted failed before or after all of its writes, or where only its
ledger row was to come and the ledger already told the same; a rejection did not fail before
a ledger row that tells something new. -/
def RetriesCleanly (config : ReviewConfig) (s : QuarantineState) (made : Nat) :
    QuarantineCall → Prop
  | .intake _ => True
  | .review transactional call =>
      ∀ entry, pendingEntry s call.key = some entry →
        match call.decision with
        | .approve =>
            (config.screen.run entry).isOk = true → transactional = true →
              s.active.holdsId call.key = false →
              made = 0 ∨ 4 ≤ made ∨ made ≠ 1 ∧ Recorded config s.ledger entry .approved
        | .reject => made ≠ 2 ∨ Recorded config s.ledger entry .rejected

/-- The identity of an entry, for which no derived ids are known, is read back from its row. -/
theorem verdict_concat (config : ReviewConfig) (ledger : List StoredRow) (e : MemoryEntry)
    (decision : LedgerDecision) (reason actor : String) (now : Datetime) (key : LedgerKey) :
    verdict (ledger ++ [appendedRow ledger (ledgerAppend config e decision reason actor now)]) key =
      if key ∈ (LedgerIdentity.of config.contentDigest e "" []).identityKeys then some decision
      else verdict ledger key := by
  have hkeys := identityKeys_readRow (a := ledgerAppend config e decision reason actor now) ledger
    (fun id hid => (by cases hid))
  rw [verdict, buildIndex, List.map_append, List.map_cons, List.map_nil,
    Library.LatestIndex.build_concat, hkeys, ledgerAppend]
  split <;> rfl

/-- A verdict that is appended twice is one. -/
theorem verdict_again (config : ReviewConfig) {ledger ledger' : List StoredRow} (e : MemoryEntry)
    (decision : LedgerDecision) (reason reason' actor actor' : String) (now now' : Datetime)
    (h : ∀ key, key ∉ (LedgerIdentity.of config.contentDigest e "" []).identityKeys →
      verdict ledger' key = verdict ledger key) (key : LedgerKey) :
    verdict (ledger' ++
        [appendedRow ledger' (ledgerAppend config e decision reason actor now)]) key =
      verdict (ledger ++
        [appendedRow ledger (ledgerAppend config e decision reason' actor' now')]) key := by
  rw [verdict_concat, verdict_concat]
  split
  · rfl
  · rename_i hkey
    exact h key hkey

theorem recorded_iff (config : ReviewConfig) (ledger : List StoredRow) (e : MemoryEntry)
    (decision : LedgerDecision) (reason actor : String) (now : Datetime) :
    (∀ key, verdict ledger key =
      verdict (ledger ++ [appendedRow ledger (ledgerAppend config e decision reason actor now)])
        key) ↔ Recorded config ledger e decision := by
  constructor
  · intro h key hkey
    rw [h, verdict_concat, if_pos hkey]
  · intro h key
    rw [verdict_concat]
    split
    · rename_i hkey
      exact h key hkey
    · rfl

theorem SameOutcome.refl (s : QuarantineState) : SameOutcome s s :=
  ⟨.rfl, .rfl, fun _ => rfl⟩

/-- The two states differ in their review log only. -/
structure SameButLog (s t : QuarantineState) : Prop where
  active : s.active = t.active
  held : s.held = t.held
  ledger : s.ledger = t.ledger

theorem SameButLog.same {s t : QuarantineState} (h : SameButLog s t) : SameOutcome s t where
  active := h.active ▸ .rfl
  held := h.held ▸ .rfl
  verdict := fun _ => by rw [h.ledger]

/-- A write of the log. -/
def OnlyLogs (writes : List QuarantineWrite) : Prop :=
  ∀ write ∈ writes, ∃ row, write = .appendReview row

theorem sameButLog_applyAll (config : ReviewConfig) {writes : List QuarantineWrite}
    (h : OnlyLogs writes) (s : QuarantineState) : SameButLog (applyAll config writes s) s := by
  induction writes generalizing s with
  | nil => exact ⟨rfl, rfl, rfl⟩
  | cons write writes ih =>
      obtain ⟨row, rfl⟩ := h write List.mem_cons_self
      have hrest := ih (fun w hw => h w (List.mem_cons_of_mem _ hw))
        (QuarantineWrite.apply config s (.appendReview row))
      exact ⟨hrest.active, hrest.held, hrest.ledger⟩

theorem onlyLogs_nil : OnlyLogs [] := fun _ h => (by cases h)

theorem onlyLogs_single (row : ReviewRow) : OnlyLogs [.appendReview row] :=
  fun _ h => ⟨row, List.mem_singleton.mp h⟩

theorem onlyLogs_take {writes : List QuarantineWrite} (h : OnlyLogs writes) (made : Nat) :
    OnlyLogs (writes.take made) := fun write hwrite => h write (List.mem_of_mem_take hwrite)

/-- A call that only logs, whatever its retry finds, can be repeated. -/
theorem retried_onlyLogs {config : ReviewConfig} {clock clock' : Nat → Datetime}
    {c : QuarantineCall} {s : QuarantineState} (made : Nat)
    (h : ∀ clock, OnlyLogs (callWrites config clock s c))
    (h' : OnlyLogs (callWrites config clock' (attempt config clock c made s) c)) :
    SameOutcome (perform config clock' c (attempt config clock c made s))
      (perform config clock' c s) := by
  have hretry := sameButLog_applyAll config h' (attempt config clock c made s)
  have hfirst := sameButLog_applyAll config (onlyLogs_take (h clock) made) s
  have honce := sameButLog_applyAll config (h clock') s
  exact SameButLog.same
    ⟨hretry.active.trans (hfirst.active.trans honce.active.symm),
      hretry.held.trans (hfirst.held.trans honce.held.symm),
      hretry.ledger.trans (hfirst.ledger.trans honce.ledger.symm)⟩

theorem retried_intake (config : ReviewConfig) (clock clock' : Nat → Datetime) (e : MemoryEntry)
    (made : Nat) (s : QuarantineState) :
    SameOutcome (perform config clock' (.intake e) (attempt config clock (.intake e) made s))
      (perform config clock' (.intake e) s) := by
  have hheld : ((s.held.store config.syncDigest (heldEntry e (clock 0))).store config.syncDigest
      (heldEntry e (clock' 0))).SameEntries
        (s.held.store config.syncDigest (heldEntry e (clock' 0))) :=
    s.held.store_again config.syncDigest (rowKey_heldEntry e (clock 0))
  rcases made with _ | _ | _ | made
  · exact .refl _
  · exact ⟨.rfl, hheld, fun _ => rfl⟩
  · exact ⟨.rfl, hheld, fun _ => rfl⟩
  · rw [attempt, callWrites, List.take_of_length_le (by simp [intakeWrites])]
    refine ⟨.rfl, hheld, ?_⟩
    exact verdict_again config e _ _ _ _ _ _ _ fun key hkey =>
      (verdict_concat ..).trans (if_neg hkey)

theorem reviewScript_pending {config : ReviewConfig} {clock : Nat → Datetime}
    {transactional : Bool} {s : QuarantineState} {call : ReviewCall} {entry : MemoryEntry}
    (h : pendingEntry s call.key = some entry) :
    reviewScript config clock transactional s call =
      match call.decision with
      | .approve => approveScript config clock transactional s.active call entry
      | .reject => rejectScript config clock call entry := by
  unfold pendingEntry at h
  split at h
  · cases h
  · rename_i hlog
    cases hdecision : call.decision <;> simp only [reviewScript, hlog, h, hdecision]

theorem reviewScript_idle {config : ReviewConfig} {clock : Nat → Datetime}
    {transactional : Bool} {s : QuarantineState} {call : ReviewCall}
    (h : pendingEntry s call.key = none) :
    (reviewScript config clock transactional s call).2 = [] := by
  cases hlog : resolvedStatus s.reviews call.key with
  | some status => simp only [reviewScript, hlog]
  | none =>
      simp only [pendingEntry, hlog] at h
      simp only [reviewScript, hlog, h]

theorem rowKey_pending {s : QuarantineState} {k : RowKey} {entry : MemoryEntry}
    (h : pendingEntry s k = some entry) : rowKey entry = k := by
  unfold pendingEntry at h
  split at h
  · cases h
  · exact s.held.rowKey_get h

/-- The review is over in the log. -/
theorem pendingEntry_logged {s : QuarantineState} (row : ReviewRow)
    (h : row.decision.resolves = true) :
    pendingEntry { s with reviews := s.reviews ++ [row] } row.key = none := by
  have hlog : (resolvedStatus (s.reviews ++ [row]) row.key).isSome = true := by
    rw [resolvedStatus_concat, if_pos ⟨rfl, h⟩]
    cases resolvedStatus s.reviews row.key <;> rfl
  obtain ⟨status, hstatus⟩ := Option.isSome_iff_exists.mp hlog
  rw [pendingEntry, hstatus]

section Reviews

variable {config : ReviewConfig} (clock clock' : Nat → Datetime) (transactional : Bool)
  {s : QuarantineState} {call : ReviewCall} {entry : MemoryEntry}

/-- What is left of an attempt is the outcome when nothing is pending any more. -/
theorem perform_idle (h : pendingEntry s call.key = none) :
    perform config clock (.review transactional call) s = s := by
  rw [perform, callWrites, reviewScript_idle h]
  rfl

theorem rejectedEntry_marked (e : MemoryEntry) (reviewerId : String) :
    (rejectedEntry (rejectedEntry e reviewerId) reviewerId).metadata =
      (rejectedEntry e reviewerId).metadata := by
  apply Finmap.ext_lookup
  intro key
  simp only [rejectedEntry]
  by_cases hstatus : key = "security_status"
  · rw [hstatus, Finmap.lookup_insert, Finmap.lookup_insert]
  · rw [Finmap.lookup_insert_of_ne _ hstatus, Finmap.lookup_insert_of_ne _ hstatus]
    by_cases hdecision : key = "review_decision"
    · rw [hdecision, Finmap.lookup_insert, Finmap.lookup_insert]
    · rw [Finmap.lookup_insert_of_ne _ hdecision, Finmap.lookup_insert_of_ne _ hdecision]
      by_cases hreviewer : key = "reviewed_by"
      · rw [hreviewer, Finmap.lookup_insert, Finmap.lookup_insert]
      · rw [Finmap.lookup_insert_of_ne _ hreviewer, Finmap.lookup_insert_of_ne _ hreviewer,
          Finmap.lookup_insert_of_ne _ hstatus, Finmap.lookup_insert_of_ne _ hdecision,
          Finmap.lookup_insert_of_ne _ hreviewer]

/-- A row that was rejected is marked already. -/
theorem rejectedEntry_stored (digest : SyncContent → String) (e : MemoryEntry)
    (reviewerId : String) :
    rejectedEntry (stampSync digest (rejectedEntry e reviewerId)) reviewerId =
      stampSync digest (rejectedEntry e reviewerId) := by
  have hmetadata : (rejectedEntry (stampSync digest (rejectedEntry e reviewerId))
      reviewerId).metadata = (rejectedEntry e reviewerId).metadata :=
    rejectedEntry_marked e reviewerId
  have hparts : ∀ r : MemoryEntry, rejectedEntry r reviewerId =
      { r with metadata := (rejectedEntry r reviewerId).metadata } := fun _ => rfl
  rw [hparts (stampSync digest _), hmetadata]
  rfl

/-- The marks of a review are not part of an identity. -/
theorem of_rejectedEntry (digest : SyncContent → String) (e : MemoryEntry) (reviewerId : String) :
    LedgerIdentity.of config.contentDigest (stampSync digest (rejectedEntry e reviewerId)) "" [] =
      LedgerIdentity.of config.contentDigest e "" [] := by
  have hsource : entrySource (stampSync digest (rejectedEntry e reviewerId)) = entrySource e := by
    rw [entrySource, entrySource, stampSync, rejectedEntry,
      Finmap.lookup_insert_of_ne _ (by decide),
      Finmap.lookup_insert_of_ne _ (by decide), Finmap.lookup_insert_of_ne _ (by decide)]
  rw [LedgerIdentity.of, LedgerIdentity.of, hsource]
  rfl

variable (config) in
/-- The state after the first write of a rejection. -/
theorem pendingEntry_rejected (h : pendingEntry s call.key = some entry) :
    pendingEntry
        { s with held := s.held.store config.syncDigest (rejectedEntry entry call.reviewerId) }
        call.key =
      some (stampSync config.syncDigest (rejectedEntry entry call.reviewerId)) := by
  have hkey := rowKey_pending h
  unfold pendingEntry at h ⊢
  split at h
  · cases h
  · rename_i hlog
    simp only [hlog]
    obtain ⟨row, hrow, rfl⟩ := Option.map_eq_some_iff.mp h
    rw [EntryStore.get, EntryStore.find_store, rowKey_rejectedEntry, hkey, if_pos rfl,
      Option.map_some]
    exact congrArg some (readOf_stampSync config.syncDigest row _)

theorem retried_reject (made : Nat) (h : pendingEntry s call.key = some entry)
    (hdecision : call.decision = .reject) :
    SameOutcome
        (perform config clock' (.review transactional call)
          (attempt config clock (.review transactional call) made s))
        (perform config clock' (.review transactional call) s) ↔
      made ≠ 2 ∨ Recorded config s.ledger entry .rejected := by
  have hwrites : ∀ clock, callWrites config clock s (.review transactional call) =
      (rejectScript config clock call entry).2 := by
    intro clock
    rw [callWrites, reviewScript_pending h, hdecision]
  rw [attempt, hwrites]
  rcases made with _ | _ | _ | made
  · exact ⟨fun _ => .inl (by decide), fun _ => .refl _⟩
  · refine ⟨fun _ => .inl (by decide), fun _ => ?_⟩
    have hpending := pendingEntry_rejected config h
    rw [perform, perform, hwrites, callWrites]
    change SameOutcome (applyAll config (reviewScript config clock' transactional
      { s with held := s.held.store config.syncDigest (rejectedEntry entry call.reviewerId) }
      call).2 _) _
    rw [reviewScript_pending hpending, hdecision, rejectScript, rejectedEntry_stored,
      ledgerAppend, of_rejectedEntry]
    have hkey : rowKey (rejectedEntry entry call.reviewerId) =
        rowKey (stampSync config.syncDigest (rejectedEntry entry call.reviewerId)) := rfl
    have hheld : ((s.held.store config.syncDigest (rejectedEntry entry call.reviewerId)).store
        config.syncDigest (stampSync config.syncDigest
          (rejectedEntry entry call.reviewerId))).SameEntries
            (s.held.store config.syncDigest (rejectedEntry entry call.reviewerId)) :=
      (s.held.store_again config.syncDigest hkey).trans (s.held.store_stamped _ _)
    exact ⟨.rfl, hheld, fun _ => rfl⟩
  · -- the log is closed and the ledger has not been told
    have hidle : pendingEntry (applyAll config
        ((rejectScript config clock call entry).2.take 2) s) call.key = none :=
      pendingEntry_logged ⟨call.key, .obsoletePoisoned, call.reviewerId, clock 0⟩ rfl
    rw [perform_idle clock' transactional hidle, perform, hwrites]
    have hrecorded := recorded_iff config s.ledger entry .rejected "review reject"
      call.reviewerId (clock' 1)
    constructor
    · exact fun hsame => .inr (hrecorded.mp hsame.verdict)
    · intro hcond
      exact ⟨.rfl, .rfl, hrecorded.mpr (hcond.resolve_left fun hne => hne rfl)⟩
  · refine ⟨fun _ => .inl (by omega), fun _ => ?_⟩
    rw [List.take_of_length_le (by simp [rejectScript])]
    have hidle : pendingEntry (applyAll config (rejectScript config clock call entry).2 s)
        call.key = none :=
      pendingEntry_logged ⟨call.key, .obsoletePoisoned, call.reviewerId, clock 0⟩ rfl
    rw [perform_idle clock' transactional hidle, perform, hwrites]
    exact ⟨.rfl, .rfl, verdict_again config entry _ _ _ _ _ _ _ fun _ _ => rfl⟩

/-- An approval that only logs, whatever the log and the counters have become. -/
theorem retried_withheld {made : Nat} (h : pendingEntry s call.key = some entry)
    (hdecision : call.decision = .approve)
    (hlogs : ∀ clock, OnlyLogs (approveScript config clock transactional s.active call entry).2) :
    SameOutcome
      (perform config clock' (.review transactional call)
        (attempt config clock (.review transactional call) made s))
      (perform config clock' (.review transactional call) s) := by
  have hwrites : ∀ clock, callWrites config clock s (.review transactional call) =
      (approveScript config clock transactional s.active call entry).2 := by
    intro clock
    rw [callWrites, reviewScript_pending h, hdecision]
  have hfirst := sameButLog_applyAll config (onlyLogs_take (hlogs clock) made) s
  have hattempt : attempt config clock (.review transactional call) made s =
      applyAll config ((approveScript config clock transactional s.active call entry).2.take made)
        s := by rw [attempt, hwrites]
  refine retried_onlyLogs made (fun clock => by rw [hwrites]; exact hlogs clock) ?_
  rw [hattempt]
  generalize applyAll config _ s = s' at hfirst
  rw [callWrites]
  cases hpending : pendingEntry s' call.key with
  | none =>
      rw [reviewScript_idle hpending]
      exact onlyLogs_nil
  | some entry' =>
      have hentry : entry' = entry := by
        unfold pendingEntry at h hpending
        split at h
        · cases h
        · split at hpending
          · cases hpending
          · rw [hfirst.held, h] at hpending
            exact (Option.some.inj hpending).symm
      rw [reviewScript_pending hpending, hdecision, hentry, hfirst.active]
      exact hlogs clock'

/-- Which approvals make more than a row of the log. -/
theorem approveScript_cases (config : ReviewConfig) (transactional : Bool) (active : EntryStore)
    (call : ReviewCall) (entry : MemoryEntry) :
    (((config.screen.run entry).isOk = true → transactional = true →
        active.holdsId call.key = true) ∧
      ∀ clock, OnlyLogs (approveScript config clock transactional active call entry).2) ∨
    ∃ revalidated, config.screen.run entry = .ok revalidated ∧ transactional = true ∧
      active.holdsId call.key = false ∧
      ∀ clock, (approveScript config clock transactional active call entry).2 =
        [.storeActive (approvedEntry revalidated call.reviewerId), .deleteHeld call.key,
          .appendReview ⟨call.key, .active, call.reviewerId, clock 0⟩,
          .appendLedger
            (ledgerAppend config entry .approved "review approve" call.reviewerId (clock 1))] := by
  cases hscreen : config.screen.run entry with
  | error reason =>
      refine .inl ⟨fun h => (by cases h), fun clock => ?_⟩
      rw [approveScript, hscreen]
      exact onlyLogs_single _
  | ok revalidated =>
      cases htransactional : transactional with
      | false =>
          refine .inl ⟨fun _ h => (by cases h), fun clock => ?_⟩
          rw [approveScript, hscreen]
          exact onlyLogs_nil
      | true =>
          cases hactive : active.holdsId call.key with
          | true =>
              refine .inl ⟨fun _ _ => rfl, fun clock => ?_⟩
              simp only [approveScript, hscreen, hactive]
              exact onlyLogs_single _
          | false =>
              refine .inr ⟨revalidated, rfl, rfl, rfl, fun clock => ?_⟩
              simp only [approveScript, hscreen, hactive]
              rfl

/-- The row that an approval has put in the active store refuses its repetition. -/
theorem approveScript_conflict {active : EntryStore} {revalidated : MemoryEntry}
    (hscreen : config.screen.run entry = .ok revalidated)
    (hactive : active.holdsId call.key = true) :
    approveScript config clock true active call entry =
      (.conflict, [.appendReview ⟨call.key, .approveConflict, call.reviewerId, clock 0⟩]) := by
  simp only [approveScript, hscreen, hactive]
  rfl

theorem retried_admitted {made : Nat} (h : pendingEntry s call.key = some entry)
    (hdecision : call.decision = .approve) {revalidated : MemoryEntry}
    (hscreen : config.screen.run entry = .ok revalidated)
    (hwrites : ∀ clock, callWrites config clock s (.review true call) =
      [.storeActive (approvedEntry revalidated call.reviewerId), .deleteHeld call.key,
        .appendReview ⟨call.key, .active, call.reviewerId, clock 0⟩,
        .appendLedger
          (ledgerAppend config entry .approved "review approve" call.reviewerId (clock 1))]) :
    SameOutcome
        (perform config clock' (.review true call)
          (attempt config clock (.review true call) made s))
        (perform config clock' (.review true call) s) ↔
      made = 0 ∨ 4 ≤ made ∨ made ≠ 1 ∧ Recorded config s.ledger entry .approved := by
  have hkey : rowKey (approvedEntry revalidated call.reviewerId) = call.key :=
    (config.screen.keeps _ _ hscreen).trans (rowKey_pending h)
  have hgone : (s.held.delete call.key).table.find call.key = none := by
    rw [EntryStore.find_delete, if_pos (beq_self_eq_true _)]
  have hrecorded := recorded_iff config s.ledger entry .approved "review approve"
    call.reviewerId (clock' 1)
  have honce : perform config clock' (.review true call) s = applyAll config
      [.storeActive (approvedEntry revalidated call.reviewerId), .deleteHeld call.key,
        .appendReview ⟨call.key, .active, call.reviewerId, clock' 0⟩,
        .appendLedger
          (ledgerAppend config entry .approved "review approve" call.reviewerId (clock' 1))] s := by
    rw [perform, hwrites]
  rw [attempt, hwrites]
  rcases made with _ | _ | _ | _ | made
  · exact ⟨fun _ => .inl rfl, fun _ => .refl _⟩
  · -- the retry finds the row that the attempt has made active
    have hpending : pendingEntry
        { s with active := s.active.store config.syncDigest
                  (approvedEntry revalidated call.reviewerId) } call.key = some entry := h
    have hactive : (s.active.store config.syncDigest
        (approvedEntry revalidated call.reviewerId)).holdsId call.key = true := by
      rw [EntryStore.holdsId, EntryStore.find_store, hkey, if_pos rfl]
      rfl
    refine iff_of_false ?_ (by omega)
    intro hsame
    have hheld := hsame.held call.key
    rw [honce] at hheld
    change Option.map _ ((applyAll config (reviewScript config clock' true
      { s with active := s.active.store config.syncDigest
                (approvedEntry revalidated call.reviewerId) } call).2 _).held.table.find call.key) =
      Option.map _ ((s.held.delete call.key).table.find call.key) at hheld
    rw [hgone, reviewScript_pending hpending, hdecision] at hheld
    dsimp only at hheld
    rw [approveScript_conflict clock' hscreen hactive] at hheld
    have hnone : s.held.table.find call.key = none := Option.map_eq_none_iff.mp hheld
    rw [pendingEntry, EntryStore.get, hnone] at h
    cases hlog : resolvedStatus s.reviews call.key <;> simp [hlog] at h
  · -- the row is active and out of the queue, and the ledger has not been told
    have hidle : pendingEntry (applyAll config
        [.storeActive (approvedEntry revalidated call.reviewerId), .deleteHeld call.key] s)
        call.key = none := by
      unfold pendingEntry
      split
      · rfl
      · exact congrArg (Option.map readOf) hgone
    change SameOutcome (perform config clock' (.review true call) (applyAll config
      [.storeActive (approvedEntry revalidated call.reviewerId), .deleteHeld call.key] s)) _ ↔ _
    rw [perform_idle clock' true hidle, honce]
    refine ⟨fun hsame => .inr (.inr ⟨by decide, hrecorded.mp hsame.verdict⟩), fun hcond => ?_⟩
    exact ⟨.rfl, .rfl, hrecorded.mpr ((hcond.resolve_left (by omega)).resolve_left (by omega)).2⟩
  · have hidle : pendingEntry (applyAll config
        [.storeActive (approvedEntry revalidated call.reviewerId), .deleteHeld call.key,
          .appendReview ⟨call.key, .active, call.reviewerId, clock 0⟩] s) call.key = none :=
      pendingEntry_logged ⟨call.key, .active, call.reviewerId, clock 0⟩ rfl
    change SameOutcome (perform config clock' (.review true call) (applyAll config
      [.storeActive (approvedEntry revalidated call.reviewerId), .deleteHeld call.key,
        .appendReview ⟨call.key, .active, call.reviewerId, clock 0⟩] s)) _ ↔ _
    rw [perform_idle clock' true hidle, honce]
    refine ⟨fun hsame => .inr (.inr ⟨by decide, hrecorded.mp hsame.verdict⟩), fun hcond => ?_⟩
    exact ⟨.rfl, .rfl, hrecorded.mpr ((hcond.resolve_left (by omega)).resolve_left (by omega)).2⟩
  · rw [List.take_of_length_le (by simp)]
    have hidle : pendingEntry (applyAll config
        [.storeActive (approvedEntry revalidated call.reviewerId), .deleteHeld call.key,
          .appendReview ⟨call.key, .active, call.reviewerId, clock 0⟩,
          .appendLedger
            (ledgerAppend config entry .approved "review approve" call.reviewerId (clock 1))] s)
        call.key = none :=
      pendingEntry_logged ⟨call.key, .active, call.reviewerId, clock 0⟩ rfl
    rw [perform_idle clock' true hidle, honce]
    refine ⟨fun _ => .inr (.inl (by omega)), fun _ => ⟨.rfl, .rfl, ?_⟩⟩
    exact verdict_again config entry _ _ _ _ _ _ _ fun _ _ => rfl

theorem retried_approve (made : Nat) (h : pendingEntry s call.key = some entry)
    (hdecision : call.decision = .approve) :
    SameOutcome
        (perform config clock' (.review transactional call)
          (attempt config clock (.review transactional call) made s))
        (perform config clock' (.review transactional call) s) ↔
      ((config.screen.run entry).isOk = true → transactional = true →
        s.active.holdsId call.key = false →
        made = 0 ∨ 4 ≤ made ∨ made ≠ 1 ∧ Recorded config s.ledger entry .approved) := by
  rcases approveScript_cases config transactional s.active call entry with
    ⟨hwithheld, hlogs⟩ | ⟨revalidated, hscreen, htransactional, hactive, hwrites⟩
  · refine iff_of_true (retried_withheld clock clock' transactional h hdecision hlogs) ?_
    intro hok htransactional hactive
    rw [hwithheld hok htransactional] at hactive
    cases hactive
  · subst htransactional
    rw [retried_admitted clock clock' h hdecision hscreen fun clock => by
      rw [callWrites, reviewScript_pending h, hdecision]; exact hwrites clock]
    rw [hscreen]
    exact ⟨fun hcond _ _ _ => hcond, fun hcond => hcond rfl rfl hactive⟩

end Reviews

/-- From every state, whatever call raised and after whatever number of its writes: the same
call reaches what one call without a failure reaches exactly when the attempt left no review
half told. -/
theorem retried_iff (config : ReviewConfig) (clock clock' : Nat → Datetime) (c : QuarantineCall)
    (made : Nat) (s : QuarantineState) :
    SameOutcome (perform config clock' c (attempt config clock c made s))
        (perform config clock' c s) ↔ RetriesCleanly config s made c := by
  cases c with
  | intake e => exact iff_of_true (retried_intake config clock clock' e made s) trivial
  | review transactional call =>
      cases hpending : pendingEntry s call.key with
      | none =>
          have hnothing : attempt config clock (.review transactional call) made s = s := by
            rw [attempt, callWrites, reviewScript_idle hpending, List.take_nil]
            rfl
          rw [hnothing]
          refine iff_of_true (.refl _) ?_
          intro entry hentry
          rw [hpending] at hentry
          cases hentry
      | some entry =>
          rw [RetriesCleanly]
          cases hdecision : call.decision with
          | approve =>
              rw [retried_approve clock clock' transactional made hpending hdecision]
              constructor
              · intro hcond entry' hentry'
                obtain rfl := Option.some.inj (hpending.symm.trans hentry')
                simpa only [hdecision] using hcond
              · intro hcond
                simpa only [hdecision] using hcond entry hpending
          | reject =>
              rw [retried_reject clock clock' transactional made hpending hdecision]
              constructor
              · intro hcond entry' hentry'
                obtain rfl := Option.some.inj (hpending.symm.trans hentry')
                simpa only [hdecision] using hcond
              · intro hcond
                simpa only [hdecision] using hcond entry hpending

/-- One row is held. -/
def oneHeld : QuarantineState :=
  perform reviewed noon (.intake (submission "first")) ⟨.empty, .empty, [], []⟩

/-- An approval raises once the active store has the row. -/
def halfApproved : QuarantineState :=
  attempt reviewed noon (.review true (reviewOf .approve)) 1 oneHeld

/-- An intake raises before its ledger row, and the rejection of its row before its own. -/
def halfRejected : QuarantineState :=
  attempt reviewed noon (.review true (reviewOf .reject)) 2
    (attempt reviewed noon (.intake (submission "first")) 1 ⟨.empty, .empty, [], []⟩)

/-- The approval is in conflict with itself while the ledger blocks the row; the rejected row
is over in the log and never blocked. -/
theorem halfApproved_stuck :
    (reviewScript reviewed noon true halfApproved (reviewOf .approve)).1 = .conflict ∧
      ¬ SameOutcome (perform reviewed noon (.review true (reviewOf .approve)) halfApproved)
        (perform reviewed noon (.review true (reviewOf .approve)) oneHeld) ∧
      verdict (perform reviewed noon (.review true (reviewOf .approve)) halfApproved).ledger
        (.id "project:south" "a") = some .quarantined ∧
      (reviewScript reviewed noon true halfRejected (reviewOf .reject)).1 =
        .alreadyResolved .obsoletePoisoned ∧
      verdict (perform reviewed noon (.review true (reviewOf .reject)) halfRejected).ledger
        (.id "project:south" "a") = none := by
  have hblocked : verdict (perform reviewed noon (.review true (reviewOf .approve))
      halfApproved).ledger (.id "project:south" "a") = some .quarantined := by decide +kernel
  have hadmitted : verdict (perform reviewed noon (.review true (reviewOf .approve))
      oneHeld).ledger (.id "project:south" "a") = some .approved := by decide +kernel
  refine ⟨by decide +kernel, ?_, hblocked, by decide +kernel, by decide +kernel⟩
  intro hsame
  have hverdict := hsame.verdict (.id "project:south" "a")
  rw [hblocked, hadmitted] at hverdict
  cases hverdict

end TrwMemory.Security

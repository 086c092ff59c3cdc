import TrwMemory.Security.QuarantineReview

/-!
Histories of a quarantine store. The review log is keyed by `(namespace, id)` and is never
cleared, so a row that is taken in after an earlier row of its key was decided finds that
decision: exactly the histories without such an intake leave every undecided row open to a
review. A rejection of the row that is held is final in every history.
-/
namespace TrwMemory.Security

open Library.Transition Storage

/-- A call with the number of writes it made before it ended or raised. `others` is what
other callers made of the active store and of the ledger. -/
inductive QuarantineEvent where
  | intake (clock : Nat → Datetime) (e : MemoryEntry) (made : Nat)
  | review (clock : Nat → Datetime) (transactional : Bool) (call : ReviewCall) (made : Nat)
  | forget (k : RowKey)
  | forgetOf (ns : String) (actor : Option String)
  | others (active : EntryStore) (ledger : List StoredRow)

/-- `decided` is the decision recorded for a key since its latest intake. -/
structure ReviewHistory where
  state : QuarantineState
  decided : RowKey → Option ReviewDecision

def ReviewHistory.start (active : EntryStore) (ledger : List StoredRow) : ReviewHistory :=
  ⟨⟨active, .empty, [], ledger⟩, fun _ => none⟩

/-- The writes end a review. -/
def endsReview (writes : List QuarantineWrite) : Bool :=
  writes.any fun
    | .appendReview row => row.decision.resolves
    | _ => false

/-- The writes that a review makes of its script. -/
def reviewMade (config : ReviewConfig) (clock : Nat → Datetime) (transactional : Bool)
    (s : QuarantineState) (call : ReviewCall) (made : Nat) : List QuarantineWrite :=
  (reviewScript config clock transactional s call).2.take made

def historyStep (config : ReviewConfig) (s : ReviewHistory) : QuarantineEvent → ReviewHistory
  | .intake clock e made =>
      ⟨applyAll config ((intakeWrites config clock e).take made) s.state,
        if made = 0 then s.decided else Function.update s.decided (rowKey e) none⟩
  | .review clock transactional call made =>
      let writes := reviewMade config clock transactional s.state call made
      ⟨applyAll config writes s.state,
        if endsReview writes then Function.update s.decided call.key (some call.decision)
        else s.decided⟩
  | .forget k => ⟨{ s.state with held := deleteHeldById s.state.held k }, s.decided⟩
  | .forgetOf ns actor => ⟨{ s.state with held := deleteHeldOf s.state.held ns actor }, s.decided⟩
  | .others active ledger => ⟨{ s.state with active, ledger }, s.decided⟩

def historyMachine (config : ReviewConfig) : Machine ReviewHistory QuarantineEvent where
  step s event := some (historyStep config s event)

/-- The review acts on the row it is asked about. -/
def ReviewAnswer.Acts : ReviewAnswer → Prop
  | .alreadyResolved _ | .notFound => False
  | _ => True

/-- A held row without a decision is decided by any review of its key; no approval
activates a row that was rejected. -/
structure ReviewHistory.Reviewable (config : ReviewConfig) (s : ReviewHistory) : Prop where
  opened : ∀ call : ReviewCall, s.state.held.holdsId call.key = true → s.decided call.key = none →
    ∀ clock transactional, (reviewScript config clock transactional s.state call).1.Acts
  final : ∀ call : ReviewCall, s.decided call.key = some .reject →
    ∀ clock transactional, (reviewScript config clock transactional s.state call).2 = []

/-- No decision on an earlier row of the key is in the log when an intake writes its row. -/
def FreshIntake (s : ReviewHistory) : QuarantineEvent → Prop
  | .intake _ e made => made = 0 ∨ resolvedStatus s.state.reviews (rowKey e) = none
  | _ => True

section Calls

variable {config : ReviewConfig} {clock : Nat → Datetime} {transactional : Bool}
  {s : QuarantineState} {call : ReviewCall}

theorem reviewScript_resolved {status : ReviewStatus}
    (h : resolvedStatus s.reviews call.key = some status) :
    reviewScript config clock transactional s call = (.alreadyResolved status, []) := by
  rw [reviewScript, h]

theorem approveScript_acts (active : EntryStore) (entry : MemoryEntry) :
    (approveScript config clock transactional active call entry).1.Acts := by
  unfold approveScript
  split
  · trivial
  · split
    · trivial
    · split <;> trivial

theorem reviewScript_acts (hlog : resolvedStatus s.reviews call.key = none)
    (hheld : s.held.holdsId call.key = true) :
    (reviewScript config clock transactional s call).1.Acts := by
  cases hget : s.held.get call.key with
  | none =>
      rw [s.held.get_eq_none.mp hget] at hheld
      cases hheld
  | some entry =>
      rw [reviewScript, hlog]
      simp only [hget]
      cases call.decision with
      | approve => exact approveScript_acts s.active entry
      | reject => trivial

/-- What a review may have written when it ends or raises. -/
structure ReviewWrites (config : ReviewConfig) (s : QuarantineState) (call : ReviewCall)
    (writes : List QuarantineWrite) : Prop where
  held : ∀ k, (applyAll config writes s).held.holdsId k = true → s.held.holdsId k = true
  reviews : ∀ k, resolvedStatus (applyAll config writes s).reviews k = none ↔
    resolvedStatus s.reviews k = none ∧ (endsReview writes = true → k ≠ call.key)

variable (config) in
theorem reviewWrites_nil : ReviewWrites config s call [] where
  held := fun _ h => h
  reviews := fun _ => ⟨fun h => ⟨h, fun hend => (by cases hend)⟩, fun h => h.1⟩

variable (s call) in
theorem resolved_or (status : ReviewStatus) (reviewerId : String) (now : Datetime) (k : RowKey) :
    resolvedStatus (s.reviews ++ [⟨call.key, status, reviewerId, now⟩]) k = none ↔
      resolvedStatus s.reviews k = none ∧ (status.resolves = true → k ≠ call.key) := by
  rw [resolvedStatus_concat, Option.or_eq_none_iff]
  apply and_congr_right
  intro _
  rw [ite_eq_right_iff]
  constructor
  · intro h hres hk
    have hnone := h ⟨hk.symm, hres⟩
    cases hnone
  · rintro h ⟨hk, hres⟩
    exact absurd hk.symm (h hres)

/-- A row that is stored again under a key that is held. -/
theorem holdsId_store {held : EntryStore} {entry : MemoryEntry} {k : RowKey}
    (hheld : held.holdsId (rowKey entry) = true)
    (h : (held.store config.syncDigest entry).holdsId k = true) : held.holdsId k = true := by
  rw [EntryStore.holdsId, EntryStore.find_store] at h
  split at h
  · rename_i hk
    rw [hk, hheld]
  · exact h

theorem holdsId_delete {held : EntryStore} {k k' : RowKey}
    (h : (held.delete k').holdsId k = true) : held.holdsId k = true := by
  rw [EntryStore.holdsId, EntryStore.find_delete] at h
  split at h
  · cases h
  · exact h

theorem reviewWrites_approve {entry : MemoryEntry} (made : Nat) :
    ReviewWrites config s call
      ((approveScript config clock transactional s.active call entry).2.take made) := by
  have hopen : ∀ status : ReviewStatus, status.resolves = false →
      ReviewWrites config s call
        (List.take made [.appendReview ⟨call.key, status, call.reviewerId, clock 0⟩]) := by
    intro status hstatus
    cases made with
    | zero => exact reviewWrites_nil config
    | succ made =>
        rw [List.take_of_length_le (by simp)]
        refine ⟨fun _ h => h, fun k => ?_⟩
        have hlog := resolved_or s call status call.reviewerId (clock 0) k
        simpa [applyAll, endsReview, QuarantineWrite.apply] using hlog
  unfold approveScript
  split
  · exact hopen .approveBlocked rfl
  · split
    · rw [List.take_nil]
      exact reviewWrites_nil config
    · split
      · exact hopen .approveConflict rfl
      · -- the decision is logged by the third write, after the row has left the queue
        rcases made with _ | _ | _ | made
        · exact reviewWrites_nil config
        · exact ⟨fun _ h => h, (reviewWrites_nil config).reviews⟩
        · exact ⟨fun _ h => holdsId_delete h, (reviewWrites_nil config).reviews⟩
        · have hlog := resolved_or s call .active call.reviewerId (clock 0)
          cases made with
          | zero => exact ⟨fun _ h => holdsId_delete h, hlog⟩
          | succ made =>
              rw [List.take_of_length_le (by simp)]
              exact ⟨fun _ h => holdsId_delete h, hlog⟩

theorem reviewWrites_reject {entry : MemoryEntry} (hget : s.held.get call.key = some entry)
    (made : Nat) :
    ReviewWrites config s call ((rejectScript config clock call entry).2.take made) := by
  have hheld : ∀ k, (s.held.store config.syncDigest (rejectedEntry entry call.reviewerId)).holdsId k
      = true → s.held.holdsId k = true := by
    intro k h
    apply holdsId_store ?_ h
    rw [rowKey_rejectedEntry, s.held.rowKey_get hget, ← EntryStore.get_isSome, hget]
    rfl
  rcases made with _ | _ | made
  · exact reviewWrites_nil config
  · exact ⟨hheld, (reviewWrites_nil config).reviews⟩
  · have hlog := resolved_or s call .obsoletePoisoned call.reviewerId (clock 0)
    cases made with
    | zero => exact ⟨hheld, hlog⟩
    | succ made =>
        rw [rejectScript, List.take_of_length_le (by simp)]
        exact ⟨hheld, hlog⟩

theorem reviewWrites_made (made : Nat) :
    ReviewWrites config s call (reviewMade config clock transactional s call made) := by
  unfold reviewMade reviewScript
  split
  · rw [List.take_nil]
    exact reviewWrites_nil config
  · split
    · rw [List.take_nil]
      exact reviewWrites_nil config
    · rename_i entry hget
      split
      · exact reviewWrites_approve made
      · exact reviewWrites_reject hget made

end Calls

/-- The row and the log of an intake that wrote its row. -/
theorem intake_made (config : ReviewConfig) (clock : Nat → Datetime) (s : QuarantineState)
    (e : MemoryEntry) {made : Nat} (hmade : made ≠ 0) :
    (∀ k, (applyAll config ((intakeWrites config clock e).take made) s).held.holdsId k =
        (decide (k = rowKey e) || s.held.holdsId k)) ∧
      ∀ k, resolvedStatus (applyAll config ((intakeWrites config clock e).take made) s).reviews k =
        resolvedStatus s.reviews k := by
  have hheld : ∀ k, (s.held.store config.syncDigest (heldEntry e (clock 0))).holdsId k =
      (decide (k = rowKey e) || s.held.holdsId k) := by
    intro k
    rw [EntryStore.holdsId, EntryStore.find_store, rowKey_heldEntry, EntryStore.holdsId]
    by_cases hk : k = rowKey e <;> simp [hk]
  have hlog : ∀ k, resolvedStatus
      (s.reviews ++ [⟨rowKey e, .quarantined, "system", clock 1⟩]) k =
        resolvedStatus s.reviews k := by
    intro k
    rw [resolvedStatus_concat, if_neg (fun h => by cases h.2), Option.or_none]
  rcases made with _ | _ | made
  · exact absurd rfl hmade
  · exact ⟨hheld, fun _ => rfl⟩
  · cases made with
    | zero => exact ⟨hheld, hlog⟩
    | succ made =>
        rw [List.take_of_length_le (by simp [intakeWrites])]
        exact ⟨hheld, hlog⟩

/-- The log tells of a held row what was decided since its intake. -/
structure ReviewHistory.Told (s : ReviewHistory) : Prop where
  logged : ∀ k, s.decided k ≠ none → resolvedStatus s.state.reviews k ≠ none
  current : ∀ k, s.state.held.holdsId k = true → s.decided k = none →
    resolvedStatus s.state.reviews k = none

theorem told_start (active : EntryStore) (ledger : List StoredRow) :
    (ReviewHistory.start active ledger).Told :=
  ⟨fun _ h => absurd rfl h, fun _ _ _ => rfl⟩

theorem reviewable_of_told {config : ReviewConfig} {s : ReviewHistory} (h : s.Told) :
    s.Reviewable config := by
  refine ⟨?_, ?_⟩
  · intro call hheld hdecided clock transactional
    exact reviewScript_acts (h.current call.key hheld hdecided) hheld
  · intro call hdecided clock transactional
    obtain ⟨status, hstatus⟩ := Option.ne_none_iff_exists'.mp
      (h.logged call.key (by rw [hdecided]; exact Option.some_ne_none _))
    rw [reviewScript_resolved hstatus]

theorem told_review {config : ReviewConfig} {s : ReviewHistory} (h : s.Told)
    (clock : Nat → Datetime) (transactional : Bool) (call : ReviewCall) (made : Nat) :
    (historyStep config s (.review clock transactional call made)).Told := by
  have hw : ReviewWrites config s.state call
      (reviewMade config clock transactional s.state call made) := reviewWrites_made made
  rw [historyStep]
  generalize reviewMade config clock transactional s.state call made = writes at hw
  cases hend : endsReview writes with
  | false =>
      refine ⟨?_, ?_⟩
      · intro k hk hnone
        exact h.logged k hk ((hw.reviews k).mp hnone).1
      · intro k hheld hk
        refine (hw.reviews k).mpr ⟨h.current k (hw.held k hheld) hk, fun hend' => ?_⟩
        rw [hend] at hend'
        cases hend'
  | true =>
      rw [if_pos rfl]
      refine ⟨?_, ?_⟩
      · intro k hk hnone
        obtain ⟨hold, hne⟩ := (hw.reviews k).mp hnone
        dsimp only at hk
        rw [Function.update_of_ne (hne hend)] at hk
        exact h.logged k hk hold
      · intro k hheld hk
        dsimp only at hk
        rw [Function.update_apply] at hk
        split at hk
        · cases hk
        · rename_i hne
          exact (hw.reviews k).mpr ⟨h.current k (hw.held k hheld) hk, fun _ => hne⟩

theorem told_intake {config : ReviewConfig} {s : ReviewHistory} (h : s.Told)
    (clock : Nat → Datetime) (e : MemoryEntry) (made : Nat)
    (hfresh : made = 0 ∨ resolvedStatus s.state.reviews (rowKey e) = none) :
    (historyStep config s (.intake clock e made)).Told := by
  rw [historyStep]
  by_cases hmade : made = 0
  · simp only [hmade, List.take_zero, if_true]
    exact h
  · obtain ⟨hheld, hlog⟩ := intake_made config clock s.state e hmade
    have hnone := hfresh.resolve_left hmade
    rw [if_neg hmade]
    refine ⟨?_, ?_⟩
    · intro k hk
      dsimp only at hk ⊢
      rw [hlog]
      by_cases hkey : k = rowKey e
      · rw [hkey, Function.update_self] at hk
        exact absurd rfl hk
      · rw [Function.update_of_ne hkey] at hk
        exact h.logged k hk
    · intro k hheldk hk
      dsimp only at hheldk hk ⊢
      rw [hlog]
      by_cases hkey : k = rowKey e
      · rw [hkey, hnone]
      · rw [Function.update_of_ne hkey] at hk
        rw [hheld, decide_eq_false hkey, Bool.false_or] at hheldk
        exact h.current k hheldk hk

/-- A call that starts in a told history, an intake on an undecided key, leaves one. -/
theorem told_preserved (config : ReviewConfig) :
    (historyMachine config).Preserves FreshIntake ReviewHistory.Told := by
  intro s event t hs hfresh hstep
  obtain rfl := Option.some.inj hstep
  cases event with
  | intake clock e made => exact told_intake hs clock e made hfresh
  | review clock transactional call made => exact told_review hs clock transactional call made
  | forget k => exact ⟨hs.logged, fun k' hk' => hs.current k' (holdsId_deleteHeldById hk')⟩
  | forgetOf ns actor => exact ⟨hs.logged, fun k' hk' => hs.current k' (holdsId_foldl_delete hk')⟩
  | others active ledger => exact ⟨hs.logged, hs.current⟩

/-- The row of an intake after a decision cannot be decided. -/
theorem stuck_intake (config : ReviewConfig) (s : ReviewHistory) (event : QuarantineEvent)
    (h : ¬ FreshIntake s event) :
    ∃ t, (historyMachine config).step s event = some t ∧ ¬ t.Reviewable config := by
  refine ⟨_, rfl, ?_⟩
  intro hreview
  cases event with
  | intake clock e made =>
      rw [FreshIntake, not_or] at h
      obtain ⟨hmade, hresolved⟩ := h
      obtain ⟨hheld, hlog⟩ := intake_made config clock s.state e hmade
      obtain ⟨status, hstatus⟩ := Option.ne_none_iff_exists'.mp hresolved
      have hkey : ReviewCall.key ⟨e.id, .reject, "", some e.ns⟩ = rowKey e := rfl
      have hacts := hreview.opened ⟨e.id, .reject, "", some e.ns⟩
        (by rw [hkey]; exact (hheld _).trans (by simp))
        (by rw [hkey, historyStep, if_neg hmade]; exact Function.update_self ..) clock true
      have hstuck :
          reviewScript config clock true (historyStep config s (.intake clock e made)).state
          ⟨e.id, .reject, "", some e.ns⟩ = (.alreadyResolved status, []) :=
        reviewScript_resolved ((hlog _).trans hstatus)
      rw [hstuck] at hacts
      exact hacts
  | review _ _ _ _ | forget _ | forgetOf _ _ | others _ _ => exact h trivial

/-- From an empty quarantine store, over any active store and ledger: all along a history
every held row can be decided and every rejection is final exactly when no intake wrote its
row under a key whose review log already held a decision. -/
theorem held_rows_decidable_iff (config : ReviewConfig) (active : EntryStore)
    (ledger : List StoredRow) (events : List QuarantineEvent) :
    (historyMachine config).Along (ReviewHistory.Reviewable config) (.start active ledger) events ↔
      (historyMachine config).Guarded FreshIntake (.start active ledger) events :=
  ⟨(historyMachine config).guarded_of_along (stuck_intake config),
    (historyMachine config).along_of_guarded (told_preserved config) (fun _ => reviewable_of_told)
      (told_start active ledger)⟩

/-- A row is held, rejected and forgotten, and its id is held again. -/
def heldAgain : List QuarantineEvent :=
  [.intake noon (submission "first") 3, .review noon true (reviewOf .reject) 3,
    .forget ⟨"project:south", "a"⟩, .intake noon (submission "second") 3]

def heldAgainEnd : ReviewHistory :=
  (historyMachine reviewed).endState (.start .empty []) heldAgain

/-- The second row is listed and blocked, and no review can decide it. -/
theorem heldAgain_stuck :
    (historyMachine reviewed).run (.start .empty []) heldAgain = some heldAgainEnd ∧
      (heldAgainEnd.state.held.get ⟨"project:south", "a"⟩).map MemoryEntry.content = some "second" ∧
      heldAgainEnd.decided ⟨"project:south", "a"⟩ = none ∧
      (∀ decision, (reviewScript reviewed noon true heldAgainEnd.state (reviewOf decision)).1 =
        .alreadyResolved .obsoletePoisoned) ∧
      ¬ (historyMachine reviewed).Along (ReviewHistory.Reviewable reviewed) (.start .empty [])
        heldAgain := by
  have hanswer : ∀ decision,
      (reviewScript reviewed noon true heldAgainEnd.state (reviewOf decision)).1 =
        .alreadyResolved .obsoletePoisoned := by
    intro decision
    cases decision <;> decide +kernel
  refine ⟨rfl, by decide +kernel, by decide +kernel, hanswer, ?_⟩
  intro halong
  have hend : heldAgainEnd.Reviewable reviewed := (halong.2 _ rfl).2 _ rfl |>.2 _ rfl |>.2 _ rfl
  have hacts := hend.opened (reviewOf .approve) (by decide +kernel) (by decide +kernel) noon true
  rw [hanswer] at hacts
  exact hacts

end TrwMemory.Security

import TrwMemory.Embeddings.VectorRuns
import TrwMemory.Lifecycle.CorrectionRows
import TrwMemory.Storage.YamlNamespaces

/-!
Corrections by several callers serialise: in every interleaving of their steps, with anything
raised at any point, the store is that of the committed corrections in their order. A call that
is raised out of after its commit has written; and where a store has no transactions, a call
writes over what was written since it read.
-/
namespace TrwMemory.Lifecycle

open Library.Keyed Library.Transition Storage Sync Tools Embeddings

section Runs

variable {τ : Type} [DecidableEq τ] {digest : SyncContent → String} {d : Digests}
  {token : MemoryEntry → τ} {overlong : LearningPatch τ → Bool} {calls : Nat → CorrectionCall τ}
  {first : Db}

/-- A success is reported after a commit, and after one nothing else but what is raised. -/
def CallPhase.sound : CallPhase → Bool
  | readingPrior _ outcome | closing _ outcome | refreshing outcome => outcome.isSuccess
  | done committed outcome =>
      if committed then outcome.isSuccess || outcome == .failed else !outcome.isSuccess
  | called | encoded | writing | written _ _ _ => true

variable (digest d token calls) in
/-- What holds in every reachable state: who is in the transaction holds the lock, its copy is
the correction of the store as it is, and the store is that of the commits. -/
structure CallsKept (first : Db) (s : CorrectionState) : Prop where
  committed : Committed digest d token calls first s.commits s.store
  lock : ∀ c, (s.phase c).holdsLock = true → s.lock = some c
  written : ∀ c working outcome now, s.phase c = .written working outcome now →
    transact digest d token calls c now s.store = (working, outcome) ∧
      (outcome.isSuccess = false → working = s.store)
  history : ∀ c, c ∈ s.commits.map Prod.fst ↔ (s.phase c).hasCommitted = true
  nodup : (s.commits.map Prod.fst).Nodup
  sound : ∀ c, (s.phase c).sound = true

variable {s t : CorrectionState} {c : Nat} {q : CallPhase}

theorem callsKept_start (store other : Db) :
    CallsKept digest d token calls store (.start store other) where
  committed := .start
  lock := by simp [CorrectionState.start, CallPhase.holdsLock]
  written := by simp [CorrectionState.start]
  history := by simp [CorrectionState.start, CallPhase.hasCommitted]
  nodup := List.nodup_nil
  sound := fun _ => rfl

/-- A step of one call that leaves the store. -/
theorem CallsKept.enter (h : CallsKept digest d token calls first s) (hstore : t.store = s.store)
    (hcommits : t.commits = s.commits) (hphase : t.phase = Function.update s.phase c q)
    (hlock : ∀ c', (t.phase c').holdsLock = true → t.lock = some c')
    (hq : q.hasCommitted = (s.phase c).hasCommitted)
    (hwritten : ∀ working outcome now, q = .written working outcome now →
      transact digest d token calls c now s.store = (working, outcome) ∧
        (outcome.isSuccess = false → working = s.store))
    (hsound : q.sound = true) : CallsKept digest d token calls first t where
  committed := by
    rw [hstore, hcommits]
    exact h.committed
  lock := hlock
  written := by
    intro c' working outcome now hw
    rw [hstore]
    rw [hphase] at hw
    by_cases hc : c' = c
    · subst hc
      rw [Function.update_self] at hw
      exact hwritten working outcome now hw
    · rw [Function.update_of_ne hc] at hw
      exact h.written c' working outcome now hw
  history := by
    intro c'
    rw [hcommits, hphase, h.history]
    by_cases hc : c' = c
    · subst hc
      rw [Function.update_self, hq]
    · rw [Function.update_of_ne hc]
  nodup := by
    rw [hcommits]
    exact h.nodup
  sound := by
    intro c'
    rw [hphase]
    by_cases hc : c' = c
    · rw [hc, Function.update_self, hsound]
    · rw [Function.update_of_ne hc, h.sound]

/-- Who holds the lock is the only one. -/
theorem CallsKept.lock_unique (h : CallsKept digest d token calls first s) {c' : Nat}
    (hc : (s.phase c).holdsLock = true) (hc' : (s.phase c').holdsLock = true) : c' = c :=
  Option.some.inj ((h.lock c' hc').symm.trans (h.lock c hc))

/-- A step outside the transaction. -/
theorem CallsKept.enter_outside (h : CallsKept digest d token calls first s)
    (hstore : t.store = s.store) (hcommits : t.commits = s.commits) (ht : t.lock = s.lock)
    (hphase : t.phase = Function.update s.phase c q) (hq : q.holdsLock = false)
    (hcommitted : q.hasCommitted = (s.phase c).hasCommitted) (hsound : q.sound = true) :
    CallsKept digest d token calls first t := by
  refine h.enter hstore hcommits hphase (fun c' hc' => ?_) hcommitted (fun _ _ _ hw => ?_) hsound
  · rw [hphase] at hc'
    by_cases hc : c' = c
    · subst hc
      rw [Function.update_self, hq] at hc'
      cases hc'
    · rw [Function.update_of_ne hc] at hc'
      rw [ht]
      exact h.lock c' hc'
  · rw [hw] at hq
    cases hq

/-- The transaction is rolled back. -/
theorem CallsKept.enter_release (h : CallsKept digest d token calls first s)
    (hstore : t.store = s.store) (hcommits : t.commits = s.commits)
    (hphase : t.phase = Function.update s.phase c q) (hheld : (s.phase c).holdsLock = true)
    (hq : q.holdsLock = false) (hcommitted : q.hasCommitted = (s.phase c).hasCommitted)
    (hsound : q.sound = true) : CallsKept digest d token calls first t := by
  refine h.enter hstore hcommits hphase (fun c' hc' => ?_) hcommitted (fun _ _ _ hw => ?_) hsound
  · rw [hphase] at hc'
    by_cases hc : c' = c
    · subst hc
      rw [Function.update_self, hq] at hc'
      cases hc'
    · rw [Function.update_of_ne hc] at hc'
      exact absurd (h.lock_unique hheld hc') hc
  · rw [hw] at hq
    cases hq

theorem callsKept_encode (h : CallsKept digest d token calls first s)
    (hstep : encodeStep overlong calls c s = some t) : CallsKept digest d token calls first t := by
  unfold encodeStep at hstep
  cases hphase : s.phase c with
  | called =>
      rw [hphase] at hstep
      dsimp only at hstep
      split at hstep
      · obtain rfl := Option.some.inj hstep
        exact h.enter_outside rfl rfl rfl rfl rfl (by rw [hphase]; rfl) rfl
      · split at hstep
        · obtain rfl := Option.some.inj hstep
          exact h.enter_outside rfl rfl rfl rfl rfl (by rw [hphase]; rfl) rfl
        · obtain rfl := Option.some.inj hstep
          exact h.enter_outside rfl rfl rfl rfl rfl (by rw [hphase]; rfl) rfl
  | encoded | writing | written _ _ _ | readingPrior _ _ | closing _ _ | refreshing _ | done _ _ =>
      simp [hphase] at hstep

theorem callsKept_begin (h : CallsKept digest d token calls first s)
    (hstep : beginStep c s = some t) : CallsKept digest d token calls first t := by
  unfold beginStep at hstep
  split at hstep
  · rename_i hphase hfree
    obtain rfl := Option.some.inj hstep
    refine h.enter rfl rfl rfl (fun c' hc' => ?_) (by rw [hphase]; rfl) (by simp) rfl
    dsimp only [CorrectionState.enter] at hc' ⊢
    by_cases hc : c' = c
    · rw [hc]
    · rw [Function.update_of_ne hc] at hc'
      rw [h.lock c' hc'] at hfree
      cases hfree
  · cases hstep

theorem callsKept_correct {now : Datetime} (h : CallsKept digest d token calls first s)
    (hserved : staysServed digest (calls c).rules (calls c).w (calls c).blocks (calls c).entry
      (calls c).patch now s.store = true)
    (hstep : correctStep digest d token calls c now s = some t) :
    CallsKept digest d token calls first t := by
  unfold correctStep at hstep
  split at hstep
  · rename_i hphase
    have hheld : (s.phase c).holdsLock = true := by rw [hphase]; rfl
    split at hstep
    · obtain rfl := Option.some.inj hstep
      exact h.enter_release rfl rfl rfl hheld rfl (by rw [hphase]; rfl) rfl
    · rename_i working outcome hfailed htransact
      obtain rfl := Option.some.inj hstep
      refine h.enter rfl rfl rfl (fun c' hc' => ?_) (by rw [hphase]; rfl) ?_ rfl
      · dsimp only [CorrectionState.enter] at hc' ⊢
        by_cases hc : c' = c
        · rw [hc]
          exact h.lock c hheld
        · rw [Function.update_of_ne hc] at hc'
          exact h.lock c' hc'
      · intro working' outcome' now' hw
        obtain ⟨rfl, rfl, rfl⟩ := CallPhase.written.inj hw
        exact ⟨htransact, fun hfailure => unchanged_of_not_success hfailure htransact hserved⟩
  · cases hstep

/-- The store becomes the copy, which is the correction of the store. -/
theorem callsKept_commit (h : CallsKept digest d token calls first s)
    (hstep : commitStep calls c s = some t) : CallsKept digest d token calls first t := by
  unfold commitStep at hstep
  split at hstep
  · rename_i working outcome now hphase
    have hheld : (s.phase c).holdsLock = true := by rw [hphase]; rfl
    obtain ⟨htransact, hunchanged⟩ := h.written c working outcome now hphase
    split at hstep
    · rename_i hsuccess
      obtain rfl := Option.some.inj hstep
      have hoffLock : (afterCommit (calls c) outcome).holdsLock = false := by
        unfold afterCommit
        split <;> rfl
      have hafter : (afterCommit (calls c) outcome).hasCommitted = true := by
        unfold afterCommit
        split <;> rfl
      have hnone : ∀ c', (Function.update s.phase c (afterCommit (calls c) outcome) c').holdsLock =
          false := by
        intro c'
        by_cases hc : c' = c
        · rw [hc, Function.update_self, hoffLock]
        · rw [Function.update_of_ne hc]
          exact Bool.eq_false_iff.mpr fun hc' => hc (h.lock_unique hheld hc')
      have hsound : (afterCommit (calls c) outcome).sound = true := by
        unfold afterCommit
        split
        · exact hsuccess
        · exact hsuccess
      have hnew : c ∉ s.commits.map Prod.fst := by
        rw [h.history, hphase]
        exact Bool.false_ne_true
      exact
        { committed := h.committed.commit htransact hsuccess
          lock := fun c' hc' => absurd (hc'.symm.trans (hnone c')) (by decide)
          written := fun c' working' outcome' now' hw => by
            have hheld' : _ = true := congrArg CallPhase.holdsLock hw
            exact absurd (hheld'.symm.trans (hnone c')) (by decide)
          history := fun c' => by
            dsimp only [CorrectionState.enter, CorrectionState.release]
            rw [List.map_append, List.mem_append, h.history]
            by_cases hc : c' = c
            · subst hc
              simp [hafter]
            · rw [Function.update_of_ne hc]
              simp [hc]
          nodup := by
            dsimp only
            rw [List.map_append, List.nodup_append]
            refine ⟨h.nodup, by simp, ?_⟩
            intro a ha b hb hab
            rw [List.map_singleton, List.mem_singleton] at hb
            rw [hab, hb] at ha
            exact hnew ha
          sound := fun c' => by
            dsimp only [CorrectionState.enter, CorrectionState.release]
            by_cases hc : c' = c
            · rw [hc, Function.update_self, hsound]
            · rw [Function.update_of_ne hc, h.sound] }
    · rename_i hfailure
      obtain rfl := Option.some.inj hstep
      exact h.enter_release (hunchanged (by simpa using hfailure)) rfl rfl hheld rfl
        (by rw [hphase]; rfl) (by simpa [CallPhase.sound] using hfailure)
  · cases hstep

theorem callsKept_readPrior (h : CallsKept digest d token calls first s)
    (hstep : readPriorStep calls c s = some t) : CallsKept digest d token calls first t := by
  unfold readPriorStep at hstep
  split at hstep
  · rename_i k outcome hphase
    have hcommitted : true = (s.phase c).hasCommitted := by rw [hphase]; rfl
    have hsound := h.sound c
    rw [hphase] at hsound
    split at hstep
    · obtain rfl := Option.some.inj hstep
      exact h.enter_outside rfl rfl rfl rfl rfl hcommitted rfl
    · obtain rfl := Option.some.inj hstep
      exact h.enter_outside rfl rfl rfl rfl rfl hcommitted hsound
    · split at hstep
      · obtain rfl := Option.some.inj hstep
        exact h.enter_outside rfl rfl rfl rfl rfl hcommitted hsound
      · obtain rfl := Option.some.inj hstep
        exact h.enter_outside rfl rfl rfl rfl rfl hcommitted hsound
  · cases hstep

theorem callsKept_closePrior {now : Datetime} (h : CallsKept digest d token calls first s)
    (hstep : closePriorStep digest calls c now s = some t) :
    CallsKept digest d token calls first t := by
  unfold closePriorStep at hstep
  split at hstep
  · rename_i k outcome hphase
    have hcommitted : true = (s.phase c).hasCommitted := by rw [hphase]; rfl
    dsimp only at hstep
    split at hstep
    · obtain rfl := Option.some.inj hstep
      exact h.enter_outside rfl rfl rfl rfl rfl hcommitted rfl
    · obtain rfl := Option.some.inj hstep
      exact h.enter_outside rfl rfl rfl rfl rfl hcommitted rfl
  · cases hstep

theorem callsKept_refresh (h : CallsKept digest d token calls first s)
    (hstep : refreshStep c s = some t) : CallsKept digest d token calls first t := by
  unfold refreshStep at hstep
  split at hstep
  · rename_i outcome hphase
    obtain rfl := Option.some.inj hstep
    have hsound := h.sound c
    rw [hphase] at hsound
    exact h.enter_outside rfl rfl rfl rfl rfl (by rw [hphase]; rfl)
      (by simpa [CallPhase.sound] using .inl hsound)
  · cases hstep

theorem callsKept_raise (h : CallsKept digest d token calls first s)
    (hstep : raiseStep c s = some t) : CallsKept digest d token calls first t := by
  unfold raiseStep at hstep
  cases hphase : s.phase c with
  | called | encoded | readingPrior _ _ | closing _ _ | refreshing _ =>
      rw [hphase] at hstep
      obtain rfl := Option.some.inj hstep
      exact h.enter_outside rfl rfl rfl rfl rfl (by rw [hphase]; rfl) rfl
  | writing | written _ _ _ =>
      rw [hphase] at hstep
      obtain rfl := Option.some.inj hstep
      exact h.enter_release rfl rfl rfl (by rw [hphase]; rfl) rfl (by rw [hphase]; rfl) rfl
  | done _ _ =>
      rw [hphase] at hstep
      cases hstep

variable (digest d token overlong calls)

/-- A row that is corrected is served after its update. -/
def Serves (s : CorrectionState) : CorrectionEvent → Prop
  | .correct c now => staysServed digest (calls c).rules (calls c).w (calls c).blocks
      (calls c).entry (calls c).patch now s.store = true
  | .encode _ | .begin _ | .commit _ | .readPrior _ | .closePrior _ _ | .refresh _ | .raise _ =>
      True

instance (s : CorrectionState) (e : CorrectionEvent) : Decidable (Serves digest calls s e) := by
  cases e <;> unfold Serves <;> infer_instance

theorem callsKept_preserved (first : Db) :
    (correctionMachine digest d token overlong calls).Preserves (Serves digest calls)
      (CallsKept digest d token calls first) := by
  intro s e t h hserves hstep
  cases e with
  | encode c => exact callsKept_encode h hstep
  | begin c => exact callsKept_begin h hstep
  | correct c now => exact callsKept_correct h hserves hstep
  | commit c => exact callsKept_commit h hstep
  | readPrior c => exact callsKept_readPrior h hstep
  | closePrior c now => exact callsKept_closePrior h hstep
  | refresh c => exact callsKept_refresh h hstep
  | raise c => exact callsKept_raise h hstep

/-- Only a commit writes the store, and only the close of a prior the other one. -/
theorem correction_frames {e : CorrectionEvent}
    (hstep : (correctionMachine digest d token overlong calls).step s e = some t) :
    (t.store = s.store ∨ ∃ c, e = .commit c) ∧
      (t.other = s.other ∨ ∃ c now, e = .closePrior c now) := by
  cases e with
  | encode c =>
      have hframe : t.store = s.store ∧ t.other = s.other := by
        simp only [correctionMachine, encodeStep] at hstep
        grind [CorrectionState.enter]
      exact ⟨.inl hframe.1, .inl hframe.2⟩
  | begin c =>
      have hframe : t.store = s.store ∧ t.other = s.other := by
        simp only [correctionMachine, beginStep] at hstep
        grind [CorrectionState.enter]
      exact ⟨.inl hframe.1, .inl hframe.2⟩
  | correct c now =>
      have hframe : t.store = s.store ∧ t.other = s.other := by
        simp only [correctionMachine, correctStep] at hstep
        grind [CorrectionState.enter, CorrectionState.release]
      exact ⟨.inl hframe.1, .inl hframe.2⟩
  | commit c =>
      refine ⟨.inr ⟨c, rfl⟩, .inl ?_⟩
      simp only [correctionMachine, commitStep] at hstep
      grind [CorrectionState.enter, CorrectionState.release]
  | readPrior c =>
      have hframe : t.store = s.store ∧ t.other = s.other := by
        simp only [correctionMachine, readPriorStep] at hstep
        grind [CorrectionState.enter]
      exact ⟨.inl hframe.1, .inl hframe.2⟩
  | closePrior c now =>
      refine ⟨.inl ?_, .inr ⟨c, now, rfl⟩⟩
      simp only [correctionMachine, closePriorStep] at hstep
      grind [CorrectionState.enter]
  | refresh c =>
      have hframe : t.store = s.store ∧ t.other = s.other := by
        simp only [correctionMachine, refreshStep] at hstep
        grind [CorrectionState.enter]
      exact ⟨.inl hframe.1, .inl hframe.2⟩
  | raise c =>
      have hframe : t.store = s.store ∧ t.other = s.other := by
        simp only [correctionMachine, raiseStep] at hstep
        grind [CorrectionState.enter, CorrectionState.release]
      exact ⟨.inl hframe.1, .inl hframe.2⟩

/-- A commit moves no end of validity that is set. -/
theorem endsKept_commit (h : CallsKept digest d token calls first s)
    (hstep : commitStep calls c s = some t) : EndsKept s.store t.store := by
  unfold commitStep at hstep
  split at hstep
  · rename_i working outcome now hphase
    obtain ⟨htransact, hunchanged⟩ := h.written c working outcome now hphase
    split at hstep
    · rename_i hsuccess
      obtain rfl := Option.some.inj hstep
      obtain ⟨_, _, _, _, hcorrects⟩ := transact_corrects htransact hsuccess
      exact hcorrects.endsKept
    · rename_i hfailure
      obtain rfl := Option.some.inj hstep
      exact endsKept_of_memories (congrArg Db.memories (hunchanged (by simpa using hfailure)))
  · cases hstep

/-- A prior of another store is still open when it is closed: no closer has committed since it
was read. -/
def ClosesOpen (s : CorrectionState) : CorrectionEvent → Prop
  | .closePrior c _ =>
      match s.phase c with
      | .closing k _ => ∀ row ∈ s.other.memories.find k, row.invalidFrom = none
      | _ => True
  | .encode _ | .begin _ | .correct _ _ | .commit _ | .readPrior _ | .refresh _ | .raise _ => True

instance (s : CorrectionState) (e : CorrectionEvent) : Decidable (ClosesOpen s e) := by
  cases e with
  | closePrior c now =>
      unfold ClosesOpen
      dsimp only
      split <;> infer_instance
  | encode _ | begin _ | correct _ _ | commit _ | readPrior _ | refresh _ | raise _ =>
      exact isTrue trivial

omit [DecidableEq τ] in
theorem endsKept_closePrior {now : Datetime} (hopen : ClosesOpen s (.closePrior c now))
    (hstep : closePriorStep digest calls c now s = some t) : EndsKept s.other t.other := by
  unfold closePriorStep at hstep
  split at hstep
  · rename_i k outcome hphase
    simp only [ClosesOpen, hphase] at hopen
    dsimp only at hstep
    split at hstep
    · obtain rfl := Option.some.inj hstep
      exact endsKept_of_memories rfl
    · rename_i closed served hupdate
      obtain rfl := Option.some.inj hstep
      rcases backendUpdate_patched hupdate with ⟨rfl, -⟩ | ⟨row, existing, hpatched⟩
      · exact endsKept_of_memories rfl
      · exact endsKept_patched hpatched (.inr (hopen row hpatched.found))
  · cases hstep

theorem ends_preserved (first : Db) (mid : CorrectionState) :
    (correctionMachine digest d token overlong calls).Preserves (Serves digest calls)
      (fun s => CallsKept digest d token calls first s ∧ EndsKept mid.store s.store) := by
  rintro s e t ⟨hkept, hends⟩ hserves hstep
  refine ⟨callsKept_preserved digest d token overlong calls first s e t hkept hserves hstep, ?_⟩
  rcases (correction_frames digest d token overlong calls hstep).1 with hsame | ⟨c, rfl⟩
  · rwa [hsame]
  · exact hends.trans (endsKept_commit digest d token calls hkept hstep)

theorem otherEnds_preserved (mid : CorrectionState) :
    (correctionMachine digest d token overlong calls).Preserves ClosesOpen
      (fun s => EndsKept mid.other s.other) := by
  intro s e t hends hopen hstep
  rcases (correction_frames digest d token overlong calls hstep).2 with hsame | ⟨c, now, rfl⟩
  · rwa [hsame]
  · exact hends.trans (endsKept_closePrior digest calls hopen hstep)

/-- What the calls have made of the store by a state of their run. -/
structure Serialised (first : Db) (s : CorrectionState) : Prop where
  /-- The rows are those of the committed calls, made one after another in their order. -/
  serial : ∃ db, Serial digest d token calls first s.commits db ∧ db.memories = s.store.memories
  /-- The store is that of the committed corrections, so the others have left nothing. -/
  store : Committed digest d token calls first s.commits s.store
  history : ∀ c, c ∈ s.commits.map Prod.fst ↔ (s.phase c).hasCommitted = true
  once : (s.commits.map Prod.fst).Nodup
  /-- A call with success has committed; one that has committed reports that, or it raised. -/
  reports : ∀ c committed outcome, s.phase c = .done committed outcome →
    (outcome.isSuccess = true → committed = true) ∧
      (committed = true → outcome.isSuccess = true ∨ outcome = .failed)
  /-- A tag that a committed call adds stays until a later one names the whole list. -/
  tags : ∀ before c now after added, s.commits = before ++ (c, now) :: after →
    (calls c).patch.tagsAdd = some added →
    (∀ later ∈ after, rowKey (calls later.1).entry = rowKey (calls c).entry →
      (calls later.1).patch.tags = none) →
    HasTags s.store (rowKey (calls c).entry) added
  ends : EndsKept first s.store
  vectors : LiveVectors first →
    (∀ commit ∈ s.commits, (calls commit.1).w.backend.vecAvailable = true) → LiveVectors s.store

/-- In every state of every run in which no correction makes its row one that the ledger
hides. From any moment of the run on, no end of validity in the store is moved; nor is one in the
other store, where each close finds its prior open. -/
theorem corrections_serialise {store other : Db} {before after : List CorrectionEvent}
    {mid s : CorrectionState}
    (hserves : (correctionMachine digest d token overlong calls).Guarded (Serves digest calls)
      (.start store other) (before ++ after))
    (hbefore : (correctionMachine digest d token overlong calls).run (.start store other) before =
      some mid)
    (hafter : (correctionMachine digest d token overlong calls).run mid after = some s) :
    Serialised digest d token calls store s ∧ EndsKept mid.store s.store ∧
      ((correctionMachine digest d token overlong calls).Guarded ClosesOpen mid after →
        EndsKept mid.other s.other) := by
  obtain ⟨hguard, hrest⟩ := (correctionMachine digest d token overlong calls).guarded_append
    _ _ _ _ hserves
  have hmid := (correctionMachine digest d token overlong calls).run_preserves
    (callsKept_preserved digest d token overlong calls store) (callsKept_start store other)
    hguard hbefore
  obtain ⟨hkept, hends⟩ := (correctionMachine digest d token overlong calls).run_preserves
    (ends_preserved digest d token overlong calls store mid) ⟨hmid, endsKept_of_memories rfl⟩
    (hrest mid hbefore) hafter
  have hserialised : Serialised digest d token calls store s :=
    { serial := hkept.committed.serial
      store := hkept.committed
      history := hkept.history
      once := hkept.nodup
      reports := fun c committed outcome hphase => by
        have hsound := hkept.sound c
        rw [hphase, CallPhase.sound] at hsound
        cases committed <;> simp_all
      tags := fun _ _ _ _ _ hcommits hadd hunnamed =>
        hkept.committed.hasTags hcommits hadd hunnamed
      ends := hkept.committed.endsKept
      vectors := fun hlive havail => hkept.committed.liveVectors havail hlive }
  refine ⟨hserialised, hends, fun hopen => ?_⟩
  exact (correctionMachine digest d token overlong calls).run_preserves
    (otherEnds_preserved digest d token overlong calls mid) (endsKept_of_memories rfl) hopen hafter

end Runs

/-- A row with a vector of its text. -/
def embeddedStore : Db :=
  vectorsAfter [.memoryStore process (fun _ => false) none (named "first") encoded]

/-- The other store holds the prior, open. -/
def priorStore : Db :=
  vectorsAfter [.memoryStore process (fun _ => false) none
    (MemoryEntry.ofDefaults "b" "prior" "project:south" ⟨0, some 0⟩ b_ne_empty) encoded]

/-- The patch that adds a tag. -/
def tagPatch (tag : String) : LearningPatch MemoryEntry :=
  ⟨Patch.none, none, some [tag], none, ∅, some "b", none⟩

/-- Each caller adds a tag; the prior is a row of another store. -/
def tagCalls (c : Nat) : CorrectionCall MemoryEntry :=
  ⟨process, fun _ => false, process, fun _ => false, plainRules, named "first",
    tagPatch (if c = 0 then "x" else "y"), .otherStore ⟨"project:south", "b"⟩, .absent⟩

def tagMachine : Machine CorrectionState CorrectionEvent :=
  correctionMachine seqDigest textDigests id (fun _ => false) tagCalls

/-- Both are called before either corrects; the first one is through when the second commits,
and has closed the prior. -/
def tagBefore : List CorrectionEvent :=
  [.encode 0, .encode 1, .begin 0, .correct 0 ⟨1, some 0⟩, .commit 0, .begin 1, .readPrior 0,
    .closePrior 0 ⟨3, some 0⟩]

/-- The second one finds it closed, and something is raised in the first one. -/
def tagAfter : List CorrectionEvent :=
  [.raise 0, .correct 1 ⟨2, some 0⟩, .commit 1, .readPrior 1, .refresh 1]

def tagMiddle : CorrectionState := tagMachine.endState (.start embeddedStore priorStore) tagBefore

def tagState : CorrectionState := tagMachine.endState tagMiddle tagAfter

theorem tagRun_serialised :
    Serialised seqDigest textDigests id tagCalls embeddedStore tagState ∧
      EndsKept tagMiddle.other tagState.other ∧
      (tagMiddle.other.memories.find ⟨"project:south", "b"⟩).bind MemoryEntry.invalidFrom =
        some ⟨3, some 0⟩ := by
  have hserialised := corrections_serialise seqDigest textDigests id (fun _ => false) tagCalls
    (by decide +kernel : tagMachine.Guarded (Serves seqDigest tagCalls)
      (.start embeddedStore priorStore) (tagBefore ++ tagAfter))
    (tagMachine.run_endState _ _ (by decide +kernel) : _ = some tagMiddle)
    (tagMachine.run_endState _ _ (by decide +kernel) : _ = some tagState)
  refine ⟨hserialised.1, hserialised.2.2 ?_, by decide +kernel⟩
  exact (by decide +kernel : tagMachine.Guarded ClosesOpen tagMiddle tagAfter)

/-- The first caller alone, raised out of while it closes its prior. -/
def raisedRun : List CorrectionEvent :=
  [.encode 0, .begin 0, .correct 0 ⟨1, some 0⟩, .commit 0, .raise 0]

def raisedState : CorrectionState := tagMachine.endState (.start embeddedStore Db.empty) raisedRun

/-- A correction in a YAML store, whose transaction is none: `seen` was read before it. -/
def yamlCorrection (b : Codec.YamlBackend) (now : Datetime) (id ns : String) (seen : MemoryEntry)
    (patch : LearningPatch MemoryEntry) (dir : Codec.Directory) : Codec.Directory :=
  (b.update now dir id ns (collect plainRules seen patch)).1

/-- Both callers read the row before either writes it. -/
def yamlTags : Option (List String) :=
  let b := Codec.YamlBackend.plainBackend
  let now : Datetime := ⟨0, some 0⟩
  let read (dir : Codec.Directory) := ((b.get now dir "m" "default").toOption).join
  (read Codec.YamlBackend.plainDirectory).bind fun seen =>
    let first := yamlCorrection b now "m" "default" seen (tagPatch "x")
      Codec.YamlBackend.plainDirectory
    let second := yamlCorrection b now "m" "default" seen (tagPatch "y") first
    (read second).map MemoryEntry.tags

/-- Both read the prior open, and then both close it. -/
def closersRun : List CorrectionEvent :=
  [.encode 0, .encode 1, .begin 0, .correct 0 ⟨1, some 0⟩, .commit 0, .begin 1,
    .correct 1 ⟨2, some 0⟩, .commit 1, .readPrior 0, .readPrior 1, .closePrior 0 ⟨3, some 0⟩]

def oneClosed : CorrectionState := tagMachine.endState (.start embeddedStore priorStore) closersRun

def bothClosed : CorrectionState := tagMachine.endState oneClosed [.closePrior 1 ⟨4, some 0⟩]

def priorEnd (s : CorrectionState) : Option Datetime :=
  (s.other.memories.find ⟨"project:south", "b"⟩).bind MemoryEntry.invalidFrom

/-- A correction alone, by a process and under a ledger. -/
def aloneState (w : Writer) (blocks : MemoryEntry → Bool) (patch : LearningPatch MemoryEntry) :
    CorrectionState :=
  (correctionMachine seqDigest textDigests id (fun _ => false) fun _ =>
    ⟨w, blocks, w, blocks, plainRules, named "first", patch, .none, encoded⟩).endState
    (.start embeddedStore Db.empty) [.encode 0, .begin 0, .correct 0 ⟨1, some 0⟩, .commit 0]

/-- The ledger blocks rows by a tag. -/
def hiddenState : CorrectionState :=
  aloneState process (fun e => e.tags.contains "x") (tagPatch "x")

/-- A process without the vector table. -/
def tablelessState : CorrectionState :=
  aloneState ⟨⟨false, true, 2⟩, 2⟩ (fun _ => false) (detailPatch "new")

/-- A call that raises has written, and without transactions an added tag is lost; of two racing
closers of a prior of another store the second moves the end; a correction by which the ledger
hides its row is reported as not found and has written; and a process without the vector table
leaves the vector of the old text. -/
theorem correction_raises_written :
    (tagMachine.run (.start embeddedStore Db.empty) raisedRun = some raisedState ∧
      (raisedState.phase 0).outcome = some .failed ∧
      (embeddedStore.memories.find ⟨"project:south", "a"⟩).map MemoryEntry.tags = some [] ∧
      (raisedState.store.memories.find ⟨"project:south", "a"⟩).map MemoryEntry.tags =
        some ["x"]) ∧
    yamlTags = some ["y"] ∧
    (tagMachine.run (.start embeddedStore priorStore) closersRun = some oneClosed ∧
      tagMachine.run oneClosed [.closePrior 1 ⟨4, some 0⟩] = some bothClosed ∧
      priorEnd oneClosed = some ⟨3, some 0⟩ ∧ priorEnd bothClosed = some ⟨4, some 0⟩) ∧
    ((hiddenState.phase 0).outcome = some .notFound ∧
      (hiddenState.store.memories.find ⟨"project:south", "a"⟩).map MemoryEntry.tags =
        some ["x"]) ∧
    ((tablelessState.phase 0).hasCommitted = true ∧
      (tablelessState.store.memories.find ⟨"project:south", "a"⟩).map embeddingText =
        some "first new" ∧
      (tablelessState.store.vectors.find ⟨"project:south", "a"⟩).map StoredVector.source =
        some "first ") := by
  refine ⟨⟨tagMachine.run_endState _ _ (by decide +kernel), by decide +kernel, by decide +kernel,
    by decide +kernel⟩, by decide +kernel, ⟨tagMachine.run_endState _ _ (by decide +kernel),
    tagMachine.run_endState _ _ (by decide +kernel), by decide +kernel, by decide +kernel⟩,
    ⟨by decide +kernel, by decide +kernel⟩, by decide +kernel, by decide +kernel,
    by decide +kernel⟩

end TrwMemory.Lifecycle

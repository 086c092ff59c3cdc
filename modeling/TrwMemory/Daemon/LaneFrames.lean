import TrwMemory.Daemon.LaneSlot

/-!
What the steps of the lane leave alone. Seven steps touch the pools only, and hand the job
that they hold on to the next step. The others are described by what they do to the queue,
to the slot, to the futures and to the history.
-/
namespace TrwMemory.Daemon

open Library.Threads

variable {Outcome : Type}

/-- A step that works on the pools only. -/
def Task.isPooling : Task Outcome → Bool
  | .lookUp _ | .give _ _ | .watch _ | .take _ _ | .takePool | .shut _ | .drain _ => true
  | _ => false

theorem pooling_perform {t : Task Outcome} (ht : t.isPooling = true) (outcome : Outcome)
    (s : Lane Outcome) :
    ∃ offload, (Lane.perform t outcome s).1 = { s with offload := offload } := by
  cases t with
  | lookUp job =>
      simp only [Lane.perform, Lane.lookUp]
      split
      · exact ⟨s.offload, rfl⟩
      · exact ⟨_, rfl⟩
  | give job pool =>
      simp only [Lane.perform, Lane.give]
      split
      · exact ⟨s.offload, rfl⟩
      · exact ⟨_, rfl⟩
  | take job pool =>
      simp only [Lane.perform, Lane.take]
      split
      · exact ⟨s.offload, rfl⟩
      · exact ⟨_, rfl⟩
  | watch job => exact ⟨_, rfl⟩
  | takePool => exact ⟨_, rfl⟩
  | shut pool => exact ⟨_, rfl⟩
  | drain pool => exact ⟨_, rfl⟩
  | _ => cases ht

/-- A step or an item holds the slot for the job. -/
def Holds (s : Lane Outcome) (pending : Multiset (Task Outcome)) (job : Job) : Prop :=
  (∃ t ∈ pending, t.held = some job) ∨ ∃ item ∈ s.offload.items, item.job = job

variable {s s' : Lane Outcome} {t : Task Outcome} {rest pending : Multiset (Task Outcome)}

theorem holds_cons {job : Job} :
    Holds s (t ::ₘ rest) job ↔ t.held = some job ∨ Holds s rest job := by
  simp [Holds, or_assoc]

theorem holds_add {job : Job} {new : List (Task Outcome)} :
    Holds s (rest + ↑new) job ↔ (∃ t ∈ new, t.held = some job) ∨ Holds s rest job := by
  simp only [Holds, Multiset.mem_add, Multiset.mem_coe, or_and_right, exists_or]
  rw [← or_assoc]
  exact or_congr_left or_comm

/-- Without a token nobody holds the slot. -/
theorem not_holds {job : Job} (htokens : tokens pending = 0) (hitems : s.offload.items = []) :
    ¬ Holds s pending job := by
  rintro (⟨t, ht, hheld⟩ | ⟨item, hitem, -⟩)
  · obtain ⟨rest, rfl⟩ := Multiset.exists_cons_of_mem ht
    rw [tokens_cons] at htokens
    have htoken : t.token = 1 := by
      cases t <;> simp [Task.held] at hheld <;> simp [Task.token, Task.held]
    omega
  · rw [hitems] at hitem
    cases hitem

/-- Who holds the slot holds it alone. -/
theorem OneToken.held_alone (h : OneToken s (t ::ₘ rest)) {job job' : Job}
    (ht : t.held = some job) : ¬ Holds s rest job' := by
  have htoken : t.token = 1 := by
    cases t <;> simp [Task.held] at ht <;> simp [Task.token, Task.held]
  obtain ⟨htokens, hitems⟩ := h.alone htoken
  exact not_holds htokens hitems

theorem holds_congr (hitems : s'.offload.items = s.offload.items) {job : Job} :
    Holds s' pending job ↔ Holds s pending job := by
  rw [Holds, Holds, hitems]

/-- The steps on the pools hand the job on. -/
theorem holds_pooling (h : OneToken s (t ::ₘ rest)) (ht : t.isPooling = true)
    (outcome : Outcome) (job : Job) :
    Holds (Lane.perform t outcome s).1 (rest + ↑(Lane.perform t outcome s).2) job ↔
      Holds s (t ::ₘ rest) job := by
  rw [holds_add, holds_cons]
  cases t with
  | lookUp held =>
      simp only [Lane.perform, Lane.lookUp]
      split
      · simp [Task.held]
      · rename_i heq
        rw [holds_congr (Offload.executorOf_items heq)]
        simp [Task.held]
  | give held pool =>
      obtain ⟨-, hitems⟩ := h.alone rfl
      simp only [Lane.perform, Lane.give]
      split
      · simp [Task.held]
      · rename_i heq
        simp [Holds, Offload.submit_items heq, hitems, Task.held, or_comm]
  | watch held =>
      obtain hitems | ⟨item, hitems⟩ := h.items_cases
      · simp [Lane.perform, Lane.watch, Offload.addDoneCallback_nil hitems, Task.held]
      · simp only [Lane.perform, Lane.watch, Offload.addDoneCallback_single hitems]
        split
        · rename_i hjob
          split <;> simp [Holds, hitems, hjob, Task.held, or_comm]
        · simp [Task.held]
  | take held pool =>
      simp only [Lane.perform, Lane.take]
      obtain hitems | ⟨item, hitems⟩ := h.items_cases
      · simp [Offload.takeItem_nil hitems, Task.held]
      · rw [Offload.takeItem_single hitems]
        by_cases hfree : item.pool = pool ∧ item.job = held ∧ item.cancelled = false
        · rw [if_pos hfree]
          simp [Holds, hitems, hfree.2.1, Task.held, or_comm]
        · rw [if_neg hfree]
          simp [Task.held]
  | takePool =>
      have hnew : ∀ t ∈ (Lane.perform .takePool outcome s).2, t.held = none := by
        intro t ht
        simp only [Lane.perform, Lane.takePool, List.mem_map] at ht
        obtain ⟨pool, -, rfl⟩ := ht
        rfl
      constructor
      · rintro (⟨t, hmem, hheld⟩ | hholds)
        · rw [hnew t hmem] at hheld
          cases hheld
        · exact .inr hholds
      · rintro (hheld | hholds)
        · cases hheld
        · exact .inr hholds
  | shut pool => simp [Lane.perform, Holds, Offload.shutdown, Task.held]
  | drain pool =>
      obtain hitems | ⟨item, hitems⟩ := h.items_cases
      · simp [Lane.perform, Lane.drain, Lane.afterDrain, Offload.drainItem_nil hitems, Task.held]
      · simp only [Lane.perform, Lane.drain, Offload.drainItem_single hitems]
        by_cases hfree : item.pool = pool ∧ item.cancelled = false
        · rw [if_pos hfree]
          split <;> simp [Holds, hitems, Lane.afterDrain, Task.held, or_comm]
        · rw [if_neg hfree]
          simp [Lane.afterDrain, Task.held]
  | _ => cases ht

theorem cancel_of_ne {job : Job} (h : s.futures job ≠ .pending) : s.cancel job = s := by
  unfold Lane.cancel
  split
  · rename_i hpending
    exact absurd hpending h
  · rfl

theorem cancel_pending {job : Job} (h : s.futures job = .pending) :
    (s.cancel job).futures = Function.update s.futures job .cancelled := by
  unfold Lane.cancel
  rw [h]

theorem isCancelled_iff {job : Job} : s.isCancelled job = true ↔ s.futures job = .cancelled := by
  unfold Lane.isCancelled
  split <;> simp_all

/-- What may become of a future: it starts and finishes, or is cancelled before it starts. -/
inductive Future.Becomes : Future Outcome → Future Outcome → Prop where
  | same (f : Future Outcome) : Becomes f f
  | cancelled : Becomes .pending .cancelled
  | running : Becomes .pending .running
  | finished {f : Future Outcome} (outcome : Outcome) (h : f = .pending ∨ f = .running) :
      Becomes f (.finished outcome)

theorem becomes_update {job : Job} {f : Future Outcome} (h : Future.Becomes (s.futures job) f)
    (k : Job) : Future.Becomes (s.futures k) (Function.update s.futures job f k) := by
  by_cases hk : k = job
  · subst hk
    rwa [Function.update_self]
  · rw [Function.update_of_ne hk]
    exact .same _

theorem becomes_cancel (s : Lane Outcome) (job k : Job) :
    Future.Becomes (s.futures k) ((s.cancel job).futures k) := by
  by_cases hjob : s.futures job = .pending
  · rw [cancel_pending hjob]
    exact becomes_update (hjob ▸ .cancelled) k
  · rw [cancel_of_ne hjob]
    exact .same _

theorem perform_becomes (t : Task Outcome) (outcome : Outcome) (s : Lane Outcome) (k : Job) :
    Future.Becomes (s.futures k) ((Lane.perform t outcome s).1.futures k) := by
  cases ht : t.isPooling with
  | true =>
      obtain ⟨offload, heq⟩ := pooling_perform ht outcome s
      rw [heq]
      exact .same _
  | false =>
      cases t with
      | enqueue job =>
          simp only [Lane.perform, Lane.enqueue]
          split
          · exact becomes_cancel s job k
          · exact .same _
      | dispatch =>
          simp only [Lane.perform, Lane.dispatch]
          split
          · exact .same _
          · split <;> exact .same _
      | enter job =>
          simp only [Lane.perform, Lane.enter]
          split
          · rename_i hjob
            exact becomes_update (hjob ▸ .running) k
          · exact .same _
      | settle job result =>
          simp only [Lane.perform, Lane.settle]
          split
          · rename_i hjob
            exact becomes_update (.finished result (.inl hjob)) k
          · rename_i hjob
            exact becomes_update (.finished result (.inr hjob)) k
          · exact .same _
      | drop job => exact becomes_cancel s job k
      | cancelAll dropped pools =>
          cases dropped with
          | nil => cases pools <;> exact .same _
          | cons job dropped => exact becomes_cancel s job k
      | number => exact .same _
      | body => exact .same _
      | release => exact .same _
      | _ => cases ht

theorem call_becomes {c : Call} {r : Lane Outcome × List (Task Outcome)} (h : s.call c = some r)
    (k : Job) : Future.Becomes (s.futures k) (r.1.futures k) := by
  cases c with
  | passes time =>
      simp only [Lane.call] at h
      split at h <;> cases h
      exact .same _
  | cancel job =>
      simp only [Lane.call] at h
      split at h <;> cases h
      exact becomes_cancel s job k
  | _ =>
      cases h
      exact .same _

/-- No step makes a future pending again. -/
theorem Future.Becomes.to_pending {f : Future Outcome} (h : Future.Becomes f .pending) :
    f = .pending := by
  cases h
  rfl

/-- A cancelled future stays cancelled. -/
theorem Future.Becomes.of_cancelled {f : Future Outcome} (h : Future.Becomes .cancelled f) :
    f = .cancelled := by
  cases h with
  | same => rfl
  | finished outcome h => exact h.elim nofun nofun

theorem perform_queue (t : Task Outcome) (outcome : Outcome) (s : Lane Outcome)
    (henqueue : ∀ job, t ≠ .enqueue job) (hdispatch : t ≠ .dispatch) :
    (Lane.perform t outcome s).1.queue = s.queue := by
  cases ht : t.isPooling with
  | true =>
      obtain ⟨offload, heq⟩ := pooling_perform ht outcome s
      rw [heq]
  | false =>
      cases t with
      | enqueue job => exact absurd rfl (henqueue job)
      | dispatch => exact absurd rfl hdispatch
      | enter job =>
          simp only [Lane.perform, Lane.enter]
          split <;> rfl
      | settle job result =>
          simp only [Lane.perform, Lane.settle]
          split <;> rfl
      | drop job => exact cancel_queue s job
      | cancelAll dropped pools =>
          cases dropped with
          | nil => cases pools <;> rfl
          | cons job dropped => exact cancel_queue s job
      | number => rfl
      | body => rfl
      | release => rfl
      | _ => cases ht

theorem perform_running (t : Task Outcome) (outcome : Outcome) (s : Lane Outcome)
    (hdispatch : t ≠ .dispatch) (hrelease : t ≠ .release) :
    (Lane.perform t outcome s).1.running = s.running := by
  cases ht : t.isPooling with
  | true =>
      obtain ⟨offload, heq⟩ := pooling_perform ht outcome s
      rw [heq]
  | false =>
      cases t with
      | enqueue job =>
          simp only [Lane.perform, Lane.enqueue]
          split
          · exact cancel_running s job
          · rfl
      | dispatch => exact absurd rfl hdispatch
      | release => exact absurd rfl hrelease
      | enter job =>
          simp only [Lane.perform, Lane.enter]
          split <;> rfl
      | settle job result =>
          simp only [Lane.perform, Lane.settle]
          split <;> rfl
      | drop job => exact cancel_running s job
      | cancelAll dropped pools =>
          cases dropped with
          | nil => cases pools <;> rfl
          | cons job dropped => exact cancel_running s job
      | number => rfl
      | body => rfl
      | _ => cases ht

end TrwMemory.Daemon

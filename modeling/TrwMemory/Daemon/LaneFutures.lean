import TrwMemory.Daemon.LaneFrames

/-!
No job of the lane is lost. A queue that holds a job that is not cancelled is looked at again;
a job whose future is pending is somewhere on its way; and a body was started, and has
returned, exactly as the future of its job tells.
-/
namespace TrwMemory.Daemon

open Library.Threads

variable {Outcome : Type}

def Awake (s : Lane Outcome) (pending : Multiset (Task Outcome)) : Prop :=
  ∀ job ∈ s.queue, s.futures job ≠ .cancelled → s.running ≠ [] ∨ .dispatch ∈ pending

theorem awake_perform (t : Task Outcome) (outcome : Outcome) (s : Lane Outcome)
    (rest : Multiset (Task Outcome)) (h : Awake s (t ::ₘ rest)) :
    Awake (Lane.perform t outcome s).1 (rest + ↑(Lane.perform t outcome s).2) := by
  have hothers : t ≠ .dispatch → t ≠ .release → ∀ job ∈ s.queue,
      (Lane.perform t outcome s).1.futures job ≠ .cancelled →
      (Lane.perform t outcome s).1.running ≠ [] ∨
        .dispatch ∈ rest + (↑(Lane.perform t outcome s).2 : Multiset (Task Outcome)) := by
    intro hdispatch hrelease job hjob hcancelled
    have hbefore : s.futures job ≠ .cancelled := by
      intro hbefore
      have hbecomes := perform_becomes t outcome s job
      rw [hbefore] at hbecomes
      exact hcancelled hbecomes.of_cancelled
    rw [perform_running t outcome s hdispatch hrelease]
    obtain hslot | hmem := h job hjob hbefore
    · exact .inl hslot
    · obtain heq | hmem := Multiset.mem_cons.mp hmem
      · exact absurd heq.symm hdispatch
      · exact .inr (Multiset.mem_add.mpr (.inl hmem))
  have hqueue := perform_queue t outcome s
  intro job hjob hcancelled
  cases t with
  | enqueue new =>
      obtain ⟨-, heq⟩ | ⟨-, heq⟩ := enqueue_cases s new
      · refine hothers (by simp) (by simp) job ?_ hcancelled
        simp only [Lane.perform, heq] at hjob
        exact (cancel_queue s new) ▸ hjob
      · simp [Lane.perform, heq]
  | dispatch =>
      simp only [Lane.perform] at hjob ⊢
      obtain ⟨hslot | hnone, heq⟩ | ⟨chosen, -, -, -, heq⟩ := dispatch_cases s
      · rw [heq]
        exact .inl hslot
      · rw [heq, hnone] at hjob
        cases hjob
      · rw [heq]
        exact .inl (List.cons_ne_nil _ _)
  | release => exact .inr (by simp [Lane.perform, Lane.release])
  | _ =>
      rw [hqueue (by simp) (by simp)] at hjob
      exact hothers (by simp) (by simp) job hjob hcancelled

theorem awake_call (c : Call) (s : Lane Outcome) (pending : Multiset (Task Outcome))
    (r : Lane Outcome × List (Task Outcome)) (h : Awake s pending) (hr : s.call c = some r) :
    Awake r.1 (pending + ↑r.2) := by
  intro job hjob hcancelled
  have hbecomes := call_becomes hr job
  have hbefore : s.futures job ≠ .cancelled := by
    intro hbefore
    rw [hbefore] at hbecomes
    exact hcancelled hbecomes.of_cancelled
  have hframe : job ∈ s.queue ∧ r.1.running = s.running := by
    cases c with
    | passes time =>
        simp only [Lane.call] at hr
        split at hr <;> cases hr
        exact ⟨hjob, rfl⟩
    | cancel k =>
        simp only [Lane.call] at hr
        split at hr <;> cases hr
        exact ⟨cancel_queue s k ▸ hjob, cancel_running s k⟩
    | cancelQueued =>
        cases hr
        cases hjob
    | shutdownOffloadPool =>
        cases hr
        cases hjob
    | _ =>
        cases hr
        exact ⟨hjob, rfl⟩
  rw [hframe.2]
  exact (h job hframe.1 hbefore).imp_right fun hmem => Multiset.mem_add.mpr (.inl hmem)

/-- The jobs that a step has still to queue or to cancel. -/
def Task.keeps : Task Outcome → List Job
  | .enqueue job => [job]
  | .cancelAll dropped _ => dropped
  | _ => []

/-- The job is on its way to the queue, in it, past it, or on its way to be cancelled. -/
def Underway (s : Lane Outcome) (pending : Multiset (Task Outcome)) (job : Job) : Prop :=
  (∃ t ∈ pending, job ∈ t.keeps) ∨ job ∈ s.queue ∨ Holds s pending job

def NotLost (s : Lane Outcome) (pending : Multiset (Task Outcome)) : Prop :=
  ∀ job ∈ s.jobs, s.futures job = .pending → Underway s pending job

theorem cancel_jobs (s : Lane Outcome) (job : Job) : (s.cancel job).jobs = s.jobs := by
  unfold Lane.cancel
  split <;> rfl

theorem perform_jobs (t : Task Outcome) (outcome : Outcome) (s : Lane Outcome)
    (hnumber : ∀ call budget tenant queuedAt, t ≠ .number call budget tenant queuedAt) :
    (Lane.perform t outcome s).1.jobs = s.jobs := by
  cases ht : t.isPooling with
  | true =>
      obtain ⟨offload, heq⟩ := pooling_perform ht outcome s
      rw [heq]
  | false =>
      cases t with
      | number => exact absurd rfl (hnumber _ _ _ _)
      | enqueue job =>
          simp only [Lane.perform, Lane.enqueue]
          split
          · exact cancel_jobs s job
          · rfl
      | dispatch =>
          simp only [Lane.perform, Lane.dispatch]
          split
          · rfl
          · split <;> rfl
      | enter job =>
          simp only [Lane.perform, Lane.enter]
          split <;> rfl
      | settle job result =>
          simp only [Lane.perform, Lane.settle]
          split <;> rfl
      | drop job => exact cancel_jobs s job
      | cancelAll dropped pools =>
          cases dropped with
          | nil => cases pools <;> rfl
          | cons job dropped => exact cancel_jobs s job
      | body => rfl
      | release => rfl
      | _ => cases ht

section Underway

variable {s s' : Lane Outcome} {t : Task Outcome} {rest pending : Multiset (Task Outcome)}
  {job : Job}

theorem Underway.cases (h : Underway s (t ::ₘ rest) job) :
    job ∈ t.keeps ∨ t.held = some job ∨ Underway s rest job := by
  obtain ⟨u, hmem, hjob⟩ | hqueue | hholds := h
  · obtain rfl | hmem := Multiset.mem_cons.mp hmem
    · exact .inl hjob
    · exact .inr (.inr (.inl ⟨u, hmem, hjob⟩))
  · exact .inr (.inr (.inr (.inl hqueue)))
  · obtain hheld | hholds := holds_cons.mp hholds
    · exact .inr (.inl hheld)
    · exact .inr (.inr (.inr (.inr hholds)))

theorem Underway.of_free (h : Underway s (t ::ₘ rest) job) (hkeeps : t.keeps = [])
    (hheld : t.held = none) : Underway s rest job := by
  obtain hmem | heq | hrest := h.cases
  · rw [hkeeps] at hmem
    cases hmem
  · rw [hheld] at heq
    cases heq
  · exact hrest

theorem Underway.keep {new : List (Task Outcome)} (h : Underway s rest job)
    (hqueue : job ∈ s.queue → job ∈ s'.queue) (hitems : s'.offload.items = s.offload.items) :
    Underway s' (rest + ↑new) job := by
  obtain ⟨u, hmem, hjob⟩ | hmem | hholds := h
  · exact .inl ⟨u, Multiset.mem_add.mpr (.inl hmem), hjob⟩
  · exact .inr (.inl (hqueue hmem))
  · exact .inr (.inr (holds_add.mpr (.inr ((holds_congr hitems).mpr hholds))))

/-- A new step that holds the job keeps it underway. -/
theorem underway_of_held {new : List (Task Outcome)} {u : Task Outcome} (hmem : u ∈ new)
    (hheld : u.held = some job) : Underway s (rest + ↑new) job :=
  .inr (.inr (holds_add.mpr (.inl ⟨u, hmem, hheld⟩)))

theorem underway_of_keeps {new : List (Task Outcome)} {u : Task Outcome} (hmem : u ∈ new)
    (hjob : job ∈ u.keeps) : Underway s (rest + ↑new) job :=
  .inl ⟨u, Multiset.mem_add.mpr (.inr (Multiset.mem_coe.mpr hmem)), hjob⟩

theorem pooling_keeps (ht : t.isPooling = true) : t.keeps = [] := by
  cases t with
  | enqueue => cases ht
  | cancelAll => cases ht
  | _ => rfl

theorem underway_pooling (htoken : OneToken s (t ::ₘ rest)) (ht : t.isPooling = true)
    (outcome : Outcome) (h : Underway s (t ::ₘ rest) job) :
    Underway (Lane.perform t outcome s).1 (rest + ↑(Lane.perform t outcome s).2) job := by
  obtain ⟨u, hmem, hjob⟩ | hmem | hholds := h
  · obtain rfl | hmem := Multiset.mem_cons.mp hmem
    · rw [pooling_keeps ht] at hjob
      cases hjob
    · exact .inl ⟨u, Multiset.mem_add.mpr (.inl hmem), hjob⟩
  · obtain ⟨offload, heq⟩ := pooling_perform ht outcome s
    rw [heq]
    exact .inr (.inl hmem)
  · exact .inr (.inr ((holds_pooling htoken ht outcome job).mpr hholds))

end Underway

theorem cancel_not_pending (s : Lane Outcome) (job : Job) :
    (s.cancel job).futures job ≠ .pending := by
  by_cases hjob : s.futures job = .pending
  · rw [cancel_pending hjob, Function.update_self]
    nofun
  · rwa [cancel_of_ne hjob]

theorem mem_waiting {s : Lane Outcome} {job : Job} :
    job ∈ s.waiting ↔ job ∈ s.queue ∧ s.futures job ≠ .cancelled := by
  rw [Lane.waiting, List.mem_filter, Bool.not_eq_true', ← Bool.not_eq_true, isCancelled_iff]

theorem notLost_perform (t : Task Outcome) (outcome : Outcome) (s : Lane Outcome)
    (rest : Multiset (Task Outcome)) (htoken : OneToken s (t ::ₘ rest))
    (h : NotLost s (t ::ₘ rest)) :
    NotLost (Lane.perform t outcome s).1 (rest + ↑(Lane.perform t outcome s).2) := by
  intro job hjob hpending
  have hbefore : s.futures job = .pending := by
    have hbecomes := perform_becomes t outcome s job
    rw [hpending] at hbecomes
    exact hbecomes.to_pending
  have hjobs := perform_jobs t outcome s
  have hqueue := perform_queue t outcome s
  have hitems := perform_items t outcome s
  have hkept : Underway s rest job → (job ∈ s.queue → job ∈ (Lane.perform t outcome s).1.queue) →
      (Lane.perform t outcome s).1.offload.items = s.offload.items →
      Underway (Lane.perform t outcome s).1 (rest + ↑(Lane.perform t outcome s).2) job :=
    fun hrest hmem hsame => hrest.keep hmem hsame
  cases ht : t.isPooling with
  | true =>
      obtain ⟨offload, heq⟩ := pooling_perform ht outcome s
      rw [heq] at hjob
      exact underway_pooling htoken ht outcome (h job hjob hbefore)
  | false =>
      cases t with
      | number call budget tenant queuedAt =>
          obtain hjob | hjob := List.mem_append.mp hjob
          · exact hkept ((h job hjob hbefore).of_free rfl rfl) id rfl
          · exact underway_of_keeps (List.mem_singleton_self _) hjob
      | enqueue new =>
          rw [hjobs (by simp)] at hjob
          obtain ⟨-, heq⟩ | ⟨-, heq⟩ := enqueue_cases s new
          · obtain hmem | hheld | hrest := (h job hjob hbefore).cases
            · cases List.mem_singleton.mp hmem
              simp only [Lane.perform, heq] at hpending
              exact absurd hpending (cancel_not_pending s job)
            · cases hheld
            · refine hkept hrest ?_ (hitems (by simp) (by simp) (by simp) (by simp))
              simp only [Lane.perform, heq]
              exact fun hmem => (cancel_queue s new).symm ▸ hmem
          · obtain hmem | hheld | hrest := (h job hjob hbefore).cases
            · exact .inr (.inl (by simp [Lane.perform, heq, Lane.mark, List.mem_singleton.mp hmem]))
            · cases hheld
            · refine hkept hrest ?_ (hitems (by simp) (by simp) (by simp) (by simp))
              simp only [Lane.perform, heq]
              exact List.mem_append_left _
      | dispatch =>
          rw [hjobs (by simp)] at hjob
          have hrest := (h job hjob hbefore).of_free rfl rfl
          have hmem : job ∈ s.queue → job ∈ s.waiting := fun hmem =>
            mem_waiting.mpr ⟨hmem, by simp [hbefore]⟩
          simp only [Lane.perform]
          obtain ⟨-, heq⟩ | ⟨chosen, -, -, -, heq⟩ := dispatch_cases s
          · rw [heq]
            exact hrest.keep hmem rfl
          · rw [heq]
            by_cases hchosen : job = chosen
            · exact underway_of_held (List.mem_singleton_self _) (hchosen ▸ rfl)
            · exact hrest.keep (fun h => (List.mem_erase_of_ne hchosen).mpr (hmem h)) rfl
      | enter held =>
          rw [hjobs (by simp)] at hjob
          obtain hmem | hheld | hrest := (h job hjob hbefore).cases
          · cases hmem
          · cases hheld
            simp [Lane.perform, Lane.enter, hbefore, Lane.mark] at hpending
          · exact hkept hrest (fun hmem => (hqueue (by simp) (by simp)).symm ▸ hmem)
              (hitems (by simp) (by simp) (by simp) (by simp))
      | body held =>
          obtain hmem | hheld | hrest := (h job hjob hbefore).cases
          · cases hmem
          · exact underway_of_held (List.mem_singleton_self _) hheld
          · exact hkept hrest id rfl
      | settle held result =>
          rw [hjobs (by simp)] at hjob
          obtain hmem | hheld | hrest := (h job hjob hbefore).cases
          · cases hmem
          · cases hheld
            simp [Lane.perform, Lane.settle, hbefore] at hpending
          · exact hkept hrest (fun hmem => (hqueue (by simp) (by simp)).symm ▸ hmem)
              (hitems (by simp) (by simp) (by simp) (by simp))
      | drop held =>
          rw [hjobs (by simp)] at hjob
          obtain hmem | hheld | hrest := (h job hjob hbefore).cases
          · cases hmem
          · cases hheld
            exact absurd hpending (cancel_not_pending s job)
          · exact hkept hrest (fun hmem => (hqueue (by simp) (by simp)).symm ▸ hmem)
              (hitems (by simp) (by simp) (by simp) (by simp))
      | release => exact hkept ((h job hjob hbefore).of_free rfl rfl) id rfl
      | cancelAll dropped pools =>
          rw [hjobs (by simp)] at hjob
          obtain hmem | hheld | hrest := (h job hjob hbefore).cases
          · cases dropped with
            | nil => cases hmem
            | cons first dropped =>
                obtain rfl | hmem := List.mem_cons.mp hmem
                · exact absurd hpending (cancel_not_pending s job)
                · exact underway_of_keeps (List.mem_singleton_self _) hmem
          · cases hheld
          · exact hkept hrest (fun hmem => (hqueue (by simp) (by simp)).symm ▸ hmem)
              (hitems (by simp) (by simp) (by simp) (by simp))
      | _ => cases ht

theorem notLost_call (c : Call) (s : Lane Outcome) (pending : Multiset (Task Outcome))
    (r : Lane Outcome × List (Task Outcome)) (h : NotLost s pending) (hr : s.call c = some r) :
    NotLost r.1 (pending + ↑r.2) := by
  intro job hjob hpending
  have hbefore : s.futures job = .pending := by
    have hbecomes := call_becomes hr job
    rw [hpending] at hbecomes
    exact hbecomes.to_pending
  have hdropped : ∀ pools, job ∈ s.jobs →
      Underway (s.cancelQueued pools).1 (pending + ↑(s.cancelQueued pools).2) job := by
    intro pools hjob
    obtain hkeeps | hmem | hholds := h job hjob hbefore
    · obtain ⟨u, hmem, hu⟩ := hkeeps
      exact .inl ⟨u, Multiset.mem_add.mpr (.inl hmem), hu⟩
    · exact underway_of_keeps (List.mem_singleton_self _) hmem
    · exact .inr (.inr (holds_add.mpr (.inr hholds)))
  cases c with
  | passes time =>
      simp only [Lane.call] at hr
      split at hr <;> cases hr
      exact (h job hjob hbefore).keep id rfl
  | submit budget tenant =>
      cases hr
      exact (h job hjob hbefore).keep id rfl
  | cancel k =>
      simp only [Lane.call] at hr
      split at hr <;> cases hr
      rw [cancel_jobs] at hjob
      exact (h job hjob hbefore).keep (fun hmem => (cancel_queue s k).symm ▸ hmem)
        (congrArg Offload.items (cancel_offload s k))
  | cancelQueued =>
      cases hr
      exact hdropped false hjob
  | refuseLaneSubmissions =>
      cases hr
      exact (h job hjob hbefore).keep id rfl
  | refuseOffloadSubmissions =>
      cases hr
      exact (h job hjob hbefore).keep id rfl
  | shutdownOffloadPool =>
      cases hr
      exact hdropped true hjob

end TrwMemory.Daemon

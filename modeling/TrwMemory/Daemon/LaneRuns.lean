import Mathlib.Algebra.BigOperators.Group.List.Basic
import TrwMemory.Daemon.LaneOrder
import TrwMemory.Daemon.LaneTurns

/-!
Runs of the lane. Bodies run one after the other; every submission becomes one job, and once no
step is pending the body of a job has run once and its future has the outcome, or its future is
cancelled and the body has not run. Without further calls the pending steps run out, and then no
job waits and the lane is free. What is called after the refusal never starts, and jobs of one
tenant and one budget start in the order in which they were queued.
-/
namespace TrwMemory.Daemon

open Library.Threads Library.Transition

variable {Outcome : Type}

/-- How many steps a pending one may still lead to, given what is queued and in the pools. -/
def Task.weight : Task Outcome → Nat
  | .dispatch => 1
  | .release => 2
  | .drop _ | .settle _ _ => 3
  | .watch _ | .body _ => 4
  | .enter _ => 5
  | .take _ _ => 6
  | .give _ _ => 15
  | .lookUp _ => 16
  | .enqueue _ => 18
  | .number _ _ _ _ => 19
  | .drain _ => 1
  | .shut _ => 2
  | .takePool => 3
  | .cancelAll dropped _ => dropped.length + 4

def Item.weight (item : Item Job) : Nat := if item.cancelled then 0 else 4

def Offload.weight (o : Offload Job) : Nat := (o.items.map Item.weight).sum

def Lane.weight (s : Lane Outcome) : Nat := 16 * s.queue.length + s.offload.weight

theorem sum_map_replace {α : Type} [DecidableEq α] (f : α → Nat) {l : List α} {a : α} (b : α)
    (h : a ∈ l) : ((l.replace a b).map f).sum + f a = (l.map f).sum + f b := by
  induction l with
  | nil => cases h
  | cons c l ih =>
      by_cases hc : a = c
      · subst hc
        simp
        omega
      · have hmem := (List.mem_cons.mp h).resolve_left hc
        have hrest := ih hmem
        simp only [List.replace_cons, beq_eq_false_iff_ne.mpr hc, List.map_cons, List.sum_cons]
        omega

namespace Offload

variable {o o' : Offload Job} {pool : Nat} {job : Job}

theorem executorOf_weight (h : o.executorOf = some (pool, o')) : o'.weight = o.weight := by
  rw [weight, executorOf_items h, weight]

theorem submit_weight (h : o.submit pool job = some o') : o'.weight = o.weight + 4 := by
  rw [weight, submit_items h, weight]
  simp [Item.weight]

theorem takeItem_weight (h : o.takeItem pool job = some o') : o'.weight ≤ o.weight := by
  obtain ⟨item, hfound, rfl⟩ := Option.map_eq_some_iff.mp h
  have hsum := List.sum_map_erase Item.weight (List.mem_of_find?_eq_some hfound)
  simp only [weight]
  omega

theorem addDoneCallback_weight (o : Offload Job) (job : Job) :
    (o.addDoneCallback job).2.weight ≤ o.weight := by
  unfold addDoneCallback
  cases hfound : o.items.find? fun item => item.job = job with
  | none => exact le_rfl
  | some item =>
      have hmem := List.mem_of_find?_eq_some hfound
      have herase := List.sum_map_erase Item.weight hmem
      have hreplace := sum_map_replace Item.weight { item with watched := true } hmem
      have hsame : Item.weight { item with watched := true } = item.weight := rfl
      dsimp only
      split <;> simp only [weight] <;> omega

/-- A round of the cancelling loop that does not end it takes the weight of an item. -/
theorem drainItem_weight (o : Offload Job) (pool : Nat) :
    (o.drainItem pool).2.weight +
      ((Lane.afterDrain pool (o.drainItem pool).1 : List (Task Outcome)).map Task.weight).sum <
        o.weight + 1 := by
  unfold drainItem
  cases hfound : o.items.find? fun item => item.pool = pool && !item.cancelled with
  | none => exact Nat.lt_succ_self _
  | some item =>
      have hmem := List.mem_of_find?_eq_some hfound
      have hopen : item.cancelled = false := by
        have hitem := List.find?_some hfound
        simp only [Bool.and_eq_true, Bool.not_eq_true'] at hitem
        exact hitem.2
      have hweight : item.weight = 4 := by rw [Item.weight, hopen]; rfl
      have herase := List.sum_map_erase Item.weight hmem
      have hreplace := sum_map_replace Item.weight { item with cancelled := true } hmem
      have hnone : Item.weight { item with cancelled := true } = 0 := rfl
      dsimp only
      split
      · simp only [weight, Lane.afterDrain, List.map_cons, List.map_nil, List.sum_cons,
          List.sum_nil, Task.weight]
        omega
      · simp only [weight, Lane.afterDrain, List.map_cons, List.map_nil, List.sum_cons,
          List.sum_nil, Task.weight]
        omega

end Offload

/-- Every step takes from the weight of what is left. -/
theorem perform_weight (t : Task Outcome) (outcome : Outcome) (s : Lane Outcome) :
    (Lane.perform t outcome s).1.weight + ((Lane.perform t outcome s).2.map Task.weight).sum <
      s.weight + t.weight := by
  have hcancel : ∀ job, (s.cancel job).weight = s.weight := fun job => by
    rw [Lane.weight, cancel_queue, cancel_offload, Lane.weight]
  cases t with
  | number => simp [Lane.perform, Lane.number, Lane.weight, Task.weight]
  | enqueue job =>
      simp only [Lane.perform]
      obtain ⟨-, heq⟩ | ⟨-, heq⟩ := enqueue_cases s job
      · have hweight := hcancel job
        simp only [heq, Lane.weight, Lane.mark, List.map_nil, List.sum_nil, Task.weight]
          at hweight ⊢
        omega
      · simp only [heq, Lane.weight, Lane.mark, List.length_append, List.length_singleton,
          List.map_cons, List.map_nil, List.sum_cons, List.sum_nil, Task.weight]
        omega
  | dispatch =>
      have hwaiting : s.waiting.length ≤ s.queue.length := List.length_filter_le _ _
      simp only [Lane.perform]
      obtain ⟨-, heq⟩ | ⟨job, hjob, -, -, heq⟩ := dispatch_cases s
      · simp only [heq, Lane.weight, List.map_nil, List.sum_nil, Task.weight]
        omega
      · have hlength := List.length_erase_of_mem hjob
        have hpos := List.length_pos_of_mem hjob
        simp only [heq, Lane.weight, List.map_cons, List.map_nil, List.sum_cons, List.sum_nil,
          Task.weight]
        omega
  | lookUp job =>
      simp only [Lane.perform, Lane.lookUp]
      split
      · simp [Lane.weight, Task.weight]
      · rename_i pool offload heq
        simp [Lane.weight, Task.weight, Offload.executorOf_weight heq]
  | give job pool =>
      simp only [Lane.perform, Lane.give]
      split
      · simp [Lane.weight, Task.weight]
      · rename_i offload heq
        simp only [Lane.weight, Offload.submit_weight heq, List.map_cons, List.map_nil,
          List.sum_cons, List.sum_nil, Task.weight]
        omega
  | watch job =>
      have hweight := s.offload.addDoneCallback_weight job
      simp only [Lane.perform, Lane.watch, Lane.weight]
      split <;> simp [Task.weight] <;> omega
  | take job pool =>
      simp only [Lane.perform, Lane.take]
      split
      · simp [Lane.weight, Task.weight]
      · rename_i offload heq
        have hweight := Offload.takeItem_weight heq
        simp only [Lane.weight, List.map_cons, List.map_nil, List.sum_cons, List.sum_nil,
          Task.weight]
        omega
  | enter job =>
      simp only [Lane.perform, Lane.enter]
      split <;> simp [Lane.weight, Lane.mark, Task.weight]
  | body job => simp [Lane.perform, Lane.leave, Lane.mark, Lane.weight, Task.weight]
  | settle job result =>
      simp only [Lane.perform, Lane.settle]
      split <;> simp [Lane.weight, Task.weight]
  | drop job => simp [Lane.perform, Lane.drop, hcancel, Task.weight]
  | release => simp [Lane.perform, Lane.release, Lane.weight, Task.weight]
  | cancelAll dropped pools =>
      cases dropped with
      | nil => cases pools <;> simp [Lane.perform, Lane.cancelAll, Task.weight]
      | cons first dropped => simp [Lane.perform, Lane.cancelAll, hcancel, Task.weight]
  | takePool =>
      simp only [Lane.perform, Lane.takePool, Offload.takeExecutor]
      cases s.offload.executor <;> simp [Lane.weight, Offload.weight, Task.weight]
  | shut pool => simp [Lane.perform, Lane.weight, Offload.weight, Offload.shutdown, Task.weight]
  | drain pool =>
      have hweight := @Offload.drainItem_weight Outcome s.offload pool
      simp only [Lane.perform, Lane.drain, Lane.weight, Task.weight]
      omega

/-- Without further calls at most so many steps follow. -/
def work (s : State (Lane Outcome) (Task Outcome)) : Nat :=
  s.shared.weight + (s.pending.map Task.weight).sum

theorem book_keeps :
    Program.Keeps (Lane.program : Program (Lane Outcome) (Task Outcome) Outcome Call)
      fun s pending => OneToken s pending ∧ (bookOf s pending).Recorded ∧
        (bookOf s pending).Ordered where
  perform t outcome s rest h :=
    have hstep := step_perform t outcome s rest h.1
    ⟨oneToken_perform t outcome s rest h.1, Book.recorded_step hstep h.2.1,
      Book.ordered_step hstep h.2.1 h.2.2⟩
  call c s pending r h hr :=
    have hstep := step_call c s pending r hr
    ⟨oneToken_call c s pending r h.1 hr, Book.recorded_step hstep h.2.1,
      Book.ordered_step hstep h.2.1 h.2.2⟩

theorem book_initial :
    (bookOf (Lane.initial : Lane Outcome) 0).Recorded ∧
      (bookOf (Lane.initial : Lane Outcome) 0).Ordered := by
  refine ⟨⟨rfl, nofun, nofun, nofun, Multiset.nodup_zero, nofun, ?_, nofun, nofun⟩,
    ⟨fun first second hb => ?_, nofun, fun first second hb => ?_, fun first second hb => ?_⟩⟩
  · rintro job (hmem | hheld | hmem)
    · cases hmem
    · exact absurd hheld (not_holds rfl rfl)
    · cases hmem
  all_goals cases hb.numbered

theorem history_keeps (marks : List (Mark Outcome)) :
    Program.Keeps (Lane.program : Program (Lane Outcome) (Task Outcome) Outcome Call)
      fun s pending => OneToken s pending ∧ marks <+: s.history where
  perform t outcome s rest h :=
    ⟨oneToken_perform t outcome s rest h.1,
      h.2.trans (Book.history_step (step_perform t outcome s rest h.1))⟩
  call c s pending r h hr :=
    ⟨oneToken_call c s pending r h.1 hr, h.2.trans (Book.history_step (step_call c s pending r hr))⟩

section Runs

variable [DecidableEq Outcome] {s : State (Lane Outcome) (Task Outcome)}

theorem steps_le {t : State (Lane Outcome) (Task Outcome)}
    {es : List (Event (Task Outcome) Outcome Call)}
    (hes : ∀ e ∈ es, ∃ task outcome, e = .step task outcome)
    (h : Lane.program.machine.run s es = some t) : es.length ≤ work s :=
  Lane.program.run_bounded Task.weight Lane.weight perform_weight h hes

/-- Any step that is pending can be performed, until none is. -/
theorem settles [Nonempty Outcome] (s : State (Lane Outcome) (Task Outcome)) :
    ∃ es t, (∀ e ∈ es, ∃ task outcome, e = .step task outcome) ∧
      Lane.program.machine.run s es = some t ∧ t.pending = 0 := by
  induction hwork : work s using Nat.strong_induction_on generalizing s with
  | h n ih =>
      obtain hquiet | ⟨task, hmem⟩ := s.pending.empty_or_exists_mem
      · exact ⟨[], s, nofun, rfl, hquiet⟩
      · obtain ⟨outcome⟩ := ‹Nonempty Outcome›
        obtain ⟨mid, hmid⟩ : ∃ mid, Lane.program.machine.step s (.step task outcome) = some mid :=
          ⟨_, if_pos hmem⟩
        obtain ⟨rest, hpending, hshared, hpending'⟩ := Lane.program.machine_step hmid
        have hless : work mid < n := by
          have hweight := perform_weight task outcome s.shared
          rw [← hwork, work, work, hpending, hpending', hshared, Multiset.map_add, Multiset.sum_add,
            Multiset.map_coe, Multiset.sum_coe, Multiset.map_cons, Multiset.sum_cons]
          change (Lane.perform task outcome s.shared).1.weight + ((rest.map Task.weight).sum +
            ((Lane.perform task outcome s.shared).2.map Task.weight).sum) < _
          omega
        obtain ⟨es, t, hes, hrun, hquiet⟩ := ih (work mid) hless mid rfl
        refine ⟨.step task outcome :: es, t, ?_, ?_, hquiet⟩
        · intro e he
          obtain rfl | he := List.mem_cons.mp he
          · exact ⟨task, outcome, rfl⟩
          · exact hes e he
        · exact (Lane.program.machine.run_cons _ _ _ _).mpr ⟨mid, hmid, hrun⟩

theorem sound_run {events : List (Event (Task Outcome) Outcome Call)}
    (h : Lane.program.machine.run ⟨Lane.initial, 0⟩ events = some s) :
    Sound s.shared s.pending :=
  sound_keeps.run sound_initial h

/-- Once no step is pending the lane is free, its pools are empty, and no job waits. -/
theorem Sound.quiet {s : Lane Outcome} (h : Sound s 0) :
    s.running = [] ∧ s.offload.items = [] ∧ (∀ job ∈ s.queue, s.futures job = .cancelled) ∧
      ∀ job ∈ s.jobs, s.futures job ≠ .pending := by
  have hitems : s.offload.items = [] := by
    refine List.eq_nil_iff_forall_not_mem.mpr fun item hitem => ?_
    obtain ⟨hwatched, htaken, hexcludes⟩ := h.items.attended item hitem
    have hnone : ∀ task : Task Outcome, task ∉ (0 : Multiset (Task Outcome)) :=
      Multiset.notMem_zero
    have hw : item.watched = true := by
      by_contra hw
      exact hnone _ (hwatched (Bool.eq_false_iff.mpr hw))
    have hc : item.cancelled = true := by
      by_contra hc
      exact hnone _ (htaken (Bool.eq_false_iff.mpr hc))
    rw [hexcludes hc] at hw
    cases hw
  have hslot : s.running = [] := by
    have hcounted := h.items.token.counted
    rw [hitems] at hcounted
    exact List.length_eq_zero_iff.mp hcounted
  have hqueue : ∀ job ∈ s.queue, s.futures job = .cancelled := by
    intro job hjob
    by_contra hopen
    obtain hbusy | hmem := h.awake job hjob hopen
    · exact hbusy hslot
    · exact absurd hmem (Multiset.notMem_zero _)
  refine ⟨hslot, hitems, hqueue, fun job hjob hpending => ?_⟩
  obtain ⟨task, hmem, -⟩ | hmem | ⟨task, hmem, -⟩ | ⟨item, hmem, -⟩ :=
    h.notLost job hjob hpending
  · exact absurd hmem (Multiset.notMem_zero _)
  · rw [hqueue job hmem] at hpending
    cases hpending
  · exact absurd hmem (Multiset.notMem_zero _)
  · rw [hitems] at hmem
    cases hmem

theorem book_run {events : List (Event (Task Outcome) Outcome Call)}
    (h : Lane.program.machine.run ⟨Lane.initial, 0⟩ events = some s) :
    (bookOf s.shared s.pending).Recorded ∧ (bookOf s.shared s.pending).Ordered :=
  (book_keeps.run (p := Lane.program) ⟨sound_initial.items.token, book_initial⟩ h).2

end Runs

/-- The two jobs of the run below, and the one that is refused. -/
def queuedFirst : Job := ⟨maintenance, "a", 0, 0, 0⟩

def queuedSecond : Job := ⟨maintenance, "a", 1, 0, 1⟩

def queuedLate : Job := ⟨interactive, "a", 2, 0, 2⟩

/-- Two jobs of one tenant, one after the other, and one that is called once the lane refuses. -/
def twoThenRefused : List (Event (Task Nat) Nat Call) :=
  [.call (.submit maintenance "a"), .step (.number 0 maintenance "a" 0) 0,
    .step (.enqueue queuedFirst) 0, .call (.submit maintenance "a"),
    .step (.number 1 maintenance "a" 0) 0, .step (.enqueue queuedSecond) 0, .step .dispatch 0,
    .step (.lookUp queuedFirst) 0, .step (.give queuedFirst 0) 0, .step (.watch queuedFirst) 0,
    .step .dispatch 0, .step (.take queuedFirst 0) 0, .step (.enter queuedFirst) 0,
    .step (.body queuedFirst) 7, .step (.settle queuedFirst 7) 0, .step .release 0,
    .step .dispatch 0, .step (.lookUp queuedSecond) 0, .step (.give queuedSecond 0) 0,
    .step (.watch queuedSecond) 0, .step (.take queuedSecond 0) 0, .step (.enter queuedSecond) 0,
    .call .refuseLaneSubmissions, .call (.submit interactive "a"),
    .step (.number 2 interactive "a" 0) 0, .step (.enqueue queuedLate) 0,
    .step (.body queuedSecond) 8, .step (.settle queuedSecond 8) 0, .step .release 0,
    .step .dispatch 0]

theorem twoThenRefused_runs : Lane.program.machine.run ⟨Lane.initial, 0⟩ twoThenRefused =
    some (Lane.program.machine.endState ⟨Lane.initial, 0⟩ twoThenRefused) :=
  Lane.program.machine.run_endState _ _ (by decide +kernel)

section Runs

variable [DecidableEq Outcome] {s : State (Lane Outcome) (Task Outcome)}

/-- In every interleaving the history of the lane has one body after the other, and the one that
has not returned is the one that runs. -/
theorem bodies_inTurn {events : List (Event (Task Outcome) Outcome Call)}
    (h : Lane.program.machine.run ⟨Lane.initial, 0⟩ events = some s) :
    ∃ running, runningBody s.shared.history = some running ∧
      ∀ job, Task.body job ∈ s.pending ↔ running = some job :=
  (inTurn_keeps.run (p := Lane.program) ⟨sound_initial.items.token, none, rfl,
    fun _ => ⟨fun hmem => absurd hmem (Multiset.notMem_zero _), nofun⟩⟩ h).2

theorem bodies_inTurn_two :
    ∃ running, runningBody (Lane.program.machine.endState ⟨Lane.initial, 0⟩
        twoThenRefused).shared.history = some running ∧
      ∀ job, Task.body job ∈ (Lane.program.machine.endState ⟨Lane.initial, 0⟩
        twoThenRefused).pending ↔ running = some job :=
  bodies_inTurn twoThenRefused_runs

/-- No body is started twice, and none behind its job's cancellation. Once no step is pending,
every submission has become one job, and its body has run once and the future has the outcome, or
the future is cancelled and the body has not run. -/
theorem jobs_settledOnce {events : List (Event (Task Outcome) Outcome Call)}
    (h : Lane.program.machine.run ⟨Lane.initial, 0⟩ events = some s) :
    (∀ job, s.shared.starts job ≤ 1 ∧
      (s.shared.futures job = .cancelled → s.shared.starts job = 0)) ∧
    (s.pending = 0 →
      (s.shared.jobs.map Job.call).Perm (List.range s.shared.calls) ∧
      ∀ job ∈ s.shared.jobs,
        (∃ outcome, s.shared.futures job = .finished outcome ∧ s.shared.starts job = 1 ∧
          s.shared.outcomes job = [outcome]) ∨
        (s.shared.futures job = .cancelled ∧ s.shared.starts job = 0 ∧
          s.shared.outcomes job = [])) := by
  have hsound := sound_run h
  have haccount := hsound.accounted.account
  refine ⟨fun job => ⟨hsound.accounted.starts_le job, fun hcancelled => ?_⟩,
    fun hquiet => ⟨?_, fun job hjob => ?_⟩⟩
  · specialize haccount job
    rw [hcancelled] at haccount
    exact haccount.1
  · have hcalls := (book_run h).1.calls
    rw [hquiet] at hcalls
    exact Multiset.coe_eq_coe.mp ((zero_add _).symm.trans hcalls)
  · rw [hquiet] at hsound
    have hsettled := hsound.quiet.2.2.2 job hjob
    specialize haccount job
    cases hfuture : s.shared.futures job with
    | pending => exact absurd hfuture hsettled
    | running =>
        rw [hfuture, hquiet] at haccount
        obtain ⟨-, ⟨hmem, -⟩ | ⟨outcome, hmem, -⟩⟩ := haccount
        · exact absurd hmem (Multiset.notMem_zero _)
        · exact absurd hmem (Multiset.notMem_zero _)
    | cancelled =>
        rw [hfuture] at haccount
        exact .inr ⟨rfl, haccount⟩
    | finished outcome =>
        rw [hfuture] at haccount
        exact .inl ⟨outcome, rfl, haccount⟩

theorem jobs_settledOnce_two :
    let s := Lane.program.machine.endState ⟨Lane.initial, 0⟩ twoThenRefused
    (s.shared.jobs.map Job.call).Perm (List.range s.shared.calls) :=
  ((jobs_settledOnce twoThenRefused_runs).2 (by decide +kernel)).1

/-- Without further calls the lane settles: some sequence of the pending steps leaves none, no
sequence is longer than `work`, and where none is left the slot is free, the pools hold no item and
every job in the queue is cancelled. -/
theorem lane_settles [Nonempty Outcome] {events : List (Event (Task Outcome) Outcome Call)}
    (h : Lane.program.machine.run ⟨Lane.initial, 0⟩ events = some s) :
    (∃ es t, (∀ e ∈ es, ∃ task outcome, e = .step task outcome) ∧
      Lane.program.machine.run s es = some t ∧ t.pending = 0) ∧
    ∀ es t, (∀ e ∈ es, ∃ task outcome, e = .step task outcome) →
      Lane.program.machine.run s es = some t → es.length ≤ work s ∧
        (t.pending = 0 → t.shared.running = [] ∧ t.shared.offload.items = [] ∧
          ∀ job ∈ t.shared.queue, t.shared.futures job = .cancelled) := by
  refine ⟨settles s, fun es t hes hrun => ⟨steps_le hes hrun, fun hquiet => ?_⟩⟩
  have hsound : Sound t.shared t.pending := sound_keeps.run (sound_run h) hrun
  rw [hquiet] at hsound
  exact ⟨hsound.quiet.1, hsound.quiet.2.1, hsound.quiet.2.2.1⟩

/-- The first body runs, and the second job is in the queue. -/
def twoUnderWay : List (Event (Task Nat) Nat Call) := twoThenRefused.take 13

theorem lane_settles_two :
    let s := Lane.program.machine.endState ⟨Lane.initial, 0⟩ twoUnderWay
    (s.pending ≠ 0 ∧ queuedSecond ∈ s.shared.queue) ∧
      ∃ es t, (∀ e ∈ es, ∃ task outcome, e = .step task outcome) ∧
        Lane.program.machine.run s es = some t ∧ t.pending = 0 :=
  ⟨⟨by decide +kernel, by decide +kernel⟩,
    (lane_settles (Lane.program.machine.run_endState _ twoUnderWay (by decide +kernel))).1⟩

/-- The body of a job that was called after the lane had refused submissions is never started, and
once no step is pending its future is cancelled. -/
theorem refused_neverStarts {events : List (Event (Task Outcome) Outcome Call)}
    (h : Lane.program.machine.run ⟨Lane.initial, 0⟩ events = some s) {job : Job}
    (hlate : [.refusing, .called job.call].Sublist s.shared.history) :
    .started job ∉ s.shared.history ∧
      (s.pending = 0 → job ∈ s.shared.jobs → s.shared.futures job = .cancelled) := by
  obtain ⟨hrecorded, -⟩ := book_run h
  have hnever : .started job ∉ s.shared.history := fun hstarted =>
    hrecorded.late job hlate (hrecorded.underway job (.inr (.inr hstarted)))
  refine ⟨hnever, fun hquiet hjob => ?_⟩
  have hsound := sound_run h
  have hnone : s.shared.starts job = 0 := by
    refine List.countP_eq_zero.mpr fun m hm hstart => ?_
    cases m with
    | started other =>
        rw [of_decide_eq_true hstart] at hm
        exact hnever hm
    | _ => cases hstart
  have haccount := hsound.accounted.account job
  rw [hquiet] at hsound haccount
  have hsettled := hsound.quiet.2.2.2 job hjob
  cases hfuture : s.shared.futures job with
  | pending => exact absurd hfuture hsettled
  | cancelled => rfl
  | running =>
      rw [hfuture, Account, hnone] at haccount
      exact absurd haccount.1 Nat.zero_ne_one
  | finished outcome =>
      rw [hfuture, Account, hnone] at haccount
      exact absurd haccount.1 Nat.zero_ne_one

theorem refused_neverStarts_late :
    let s := Lane.program.machine.endState ⟨Lane.initial, 0⟩ twoThenRefused
    .started queuedLate ∉ s.shared.history ∧ s.shared.futures queuedLate = .cancelled :=
  (refused_neverStarts twoThenRefused_runs (by decide +kernel)).imp_right fun h =>
    h (by decide +kernel) (by decide +kernel)

/-- Of two jobs of one tenant and one budget, the first queued before the second was called: once
the second one's body is started, the first one's was started before it, or never is. -/
theorem starts_inOrder {events : List (Event (Task Outcome) Outcome Call)}
    (h : Lane.program.machine.run ⟨Lane.initial, 0⟩ events = some s) {first second : Job}
    (hbudget : first.budget = second.budget) (htenant : first.tenant = second.tenant)
    (hcalls : [.accepted first, .called second.call].Sublist s.shared.history)
    (hsecond : .started second ∈ s.shared.history) :
    [.started first, .started second].Sublist s.shared.history ∨
      ∀ es t, Lane.program.machine.run s es = some t → .started first ∉ t.shared.history := by
  have hordered : ∀ {events t},
      Lane.program.machine.run ⟨(Lane.initial : Lane Outcome), 0⟩ events = some t →
      s.shared.history <+: t.shared.history → .started first ∈ t.shared.history →
      [.started first, .started second].Sublist t.shared.history := by
    intro events t ht hprefix hfirst
    obtain ⟨hrecorded, hordered⟩ := book_run ht
    have hmem : .started second ∈ t.shared.history := hprefix.subset hsecond
    refine hordered.started first second ⟨hbudget, htenant, ?_, hcalls.trans hprefix.sublist⟩
      hfirst hmem
    exact hrecorded.accepted second (hrecorded.underway second (.inr (.inr hmem)))
  by_cases hfirst : .started first ∈ s.shared.history
  · exact .inl (hordered h (List.prefix_refl _) hfirst)
  · refine .inr fun es t ht hlater => hfirst ?_
    have hrun : Lane.program.machine.run ⟨Lane.initial, 0⟩ (events ++ es) = some t :=
      (Lane.program.machine.run_append _ _ _ _).mpr ⟨s, h, ht⟩
    have hprefix := (history_keeps s.shared.history |>.run (p := Lane.program)
      ⟨(sound_run h).items.token, List.prefix_refl _⟩ ht).2
    -- The second body is started once, so behind `s` there is no mark of it.
    have honce := (sound_run hrun).accounted.starts_le second
    obtain ⟨more, hmore⟩ := hprefix
    have hstarts : 0 < s.shared.starts second :=
      List.countP_pos_iff.mpr ⟨_, hsecond, decide_eq_true rfl⟩
    have hnone : .started second ∉ more := by
      intro hmem
      have hpos : 0 < more.countP (Mark.isStart second) :=
        List.countP_pos_iff.mpr ⟨_, hmem, decide_eq_true rfl⟩
      rw [Lane.starts, ← hmore, List.countP_append] at honce
      rw [Lane.starts] at hstarts
      omega
    obtain ⟨before, after, heq, hbefore, hafter⟩ := List.sublist_append_iff.mp
      (hmore ▸ hordered hrun ⟨more, hmore⟩ hlater)
    obtain rfl | ⟨init, last, rfl⟩ := after.eq_nil_or_concat
    · rw [List.append_nil] at heq
      exact hbefore.subset (heq ▸ List.mem_cons_self)
    · rw [List.concat_eq_append] at heq
      have hlast : [Mark.started first] ++ [.started second] = (before ++ init) ++ [last] := by
        rw [List.append_assoc]
        exact heq
      obtain ⟨-, hlast⟩ := List.append_inj' hlast rfl
      refine absurd (hafter.subset ?_) hnone
      rw [List.concat_eq_append, ← hlast]
      exact List.mem_append_right _ (List.mem_singleton_self _)

theorem starts_inOrder_two :
    let s := Lane.program.machine.endState ⟨Lane.initial, 0⟩ twoThenRefused
    [.started queuedFirst, .started queuedSecond].Sublist s.shared.history ∨
      ∀ es t, Lane.program.machine.run s es = some t →
        .started queuedFirst ∉ t.shared.history :=
  starts_inOrder twoThenRefused_runs rfl rfl (by decide +kernel) (by decide +kernel)

end Runs

end TrwMemory.Daemon

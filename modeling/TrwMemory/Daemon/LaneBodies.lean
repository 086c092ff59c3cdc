import TrwMemory.Daemon.LaneFutures

/-!
The bodies of the lane's jobs. How often a body was started, and what it returned, is told by
the future of its job: a body that is running has not returned, or is about to settle its
future; a finished future has the one outcome that its body returned.
-/
namespace TrwMemory.Daemon

open Library.Threads

variable {Outcome : Type}

def Mark.isStart (job : Job) : Mark Outcome → Bool
  | .started other => decide (other = job)
  | _ => false

def Mark.outcomeOf (job : Job) : Mark Outcome → Option Outcome
  | .returned other outcome => if other = job then some outcome else none
  | _ => none

/-- How often the body of the job was started. -/
def Lane.starts (s : Lane Outcome) (job : Job) : Nat := s.history.countP (Mark.isStart job)

/-- What the body of the job has returned or raised. -/
def Lane.outcomes (s : Lane Outcome) (job : Job) : List Outcome :=
  s.history.filterMap (Mark.outcomeOf job)

@[simp]
theorem mark_futures (s : Lane Outcome) (m : Mark Outcome) : (s.mark m).futures = s.futures := rfl

@[simp]
theorem starts_futures (s : Lane Outcome) (f : Job → Future Outcome) (job : Job) :
    ({ s with futures := f } : Lane Outcome).starts job = s.starts job := rfl

@[simp]
theorem outcomes_futures (s : Lane Outcome) (f : Job → Future Outcome) (job : Job) :
    ({ s with futures := f } : Lane Outcome).outcomes job = s.outcomes job := rfl

@[simp]
theorem starts_mark (s : Lane Outcome) (m : Mark Outcome) (job : Job) :
    (s.mark m).starts job = s.starts job + if m.isStart job then 1 else 0 := by
  simp [Lane.starts, Lane.mark, List.countP_append, List.countP_singleton]

@[simp]
theorem outcomes_mark (s : Lane Outcome) (m : Mark Outcome) (job : Job) :
    (s.mark m).outcomes job = s.outcomes job ++ (m.outcomeOf job).toList := by
  cases hm : m.outcomeOf job <;> simp [Lane.outcomes, Lane.mark, List.filterMap_append, hm]

/-- The job whose body a step runs or settles. -/
def Task.bodyOf : Task Outcome → Option Job
  | .body job | .settle job _ => some job
  | _ => none

/-- What the history tells of a job, by its future. -/
def Account (s : Lane Outcome) (pending : Multiset (Task Outcome)) (job : Job) :
    Future Outcome → Prop
  | .pending | .cancelled => s.starts job = 0 ∧ s.outcomes job = []
  | .running =>
      s.starts job = 1 ∧
        (.body job ∈ pending ∧ s.outcomes job = [] ∨
          ∃ outcome, .settle job outcome ∈ pending ∧ s.outcomes job = [outcome])
  | .finished outcome => s.starts job = 1 ∧ s.outcomes job = [outcome]

structure Accounted (s : Lane Outcome) (pending : Multiset (Task Outcome)) : Prop where
  account : ∀ job, Account s pending job (s.futures job)
  busy : ∀ t ∈ pending, ∀ job, t.bodyOf = some job → s.futures job = .running

variable {s s' : Lane Outcome} {t : Task Outcome} {rest pending pending' : Multiset (Task Outcome)}
  {job : Job}

/-- An account depends on the history, and on the bodies that are pending. -/
theorem Account.congr {f : Future Outcome} (h : Account s pending job f)
    (hstarts : s'.starts job = s.starts job) (houtcomes : s'.outcomes job = s.outcomes job)
    (hbodies : ∀ t ∈ pending, t.bodyOf = some job → t ∈ pending') :
    Account s' pending' job f := by
  cases f with
  | running =>
      obtain ⟨hone, hrest⟩ := h
      refine ⟨hstarts.trans hone, ?_⟩
      rw [houtcomes]
      obtain ⟨hmem, hnone⟩ | ⟨outcome, hmem, hsome⟩ := hrest
      · exact .inl ⟨hbodies _ hmem rfl, hnone⟩
      · exact .inr ⟨outcome, hbodies _ hmem rfl, hsome⟩
  | pending => exact ⟨hstarts.trans h.1, houtcomes.trans h.2⟩
  | cancelled => exact ⟨hstarts.trans h.1, houtcomes.trans h.2⟩
  | finished outcome => exact ⟨hstarts.trans h.1, houtcomes.trans h.2⟩

theorem mem_rest_of_bodyOf {u : Task Outcome} {new : Multiset (Task Outcome)}
    (ht : t.bodyOf ≠ some job) (hmem : u ∈ t ::ₘ rest) (hu : u.bodyOf = some job) :
    u ∈ rest + new := by
  obtain rfl | hmem := Multiset.mem_cons.mp hmem
  · exact absurd hu ht
  · exact Multiset.mem_add.mpr (.inl hmem)

/-- A step without a body that at most cancels pending futures. -/
theorem Accounted.frame {new : List (Task Outcome)} (h : Accounted s (t ::ₘ rest))
    (hfutures : ∀ k, s'.futures k = s.futures k ∨
      s.futures k = .pending ∧ s'.futures k = .cancelled)
    (hstarts : ∀ k, s'.starts k = s.starts k) (houtcomes : ∀ k, s'.outcomes k = s.outcomes k)
    (ht : t.bodyOf = none) (hnew : ∀ u ∈ new, u.bodyOf = none) :
    Accounted s' (rest + ↑new) := by
  refine ⟨fun k => ?_, fun u hu k hk => ?_⟩
  · have haccount : Account s' (rest + ↑new) k (s.futures k) :=
      (h.account k).congr (hstarts k) (houtcomes k)
        fun u hmem hu => mem_rest_of_bodyOf (by simp [ht]) hmem hu
    obtain heq | ⟨hpending, hcancelled⟩ := hfutures k
    · rwa [heq]
    · rw [hpending] at haccount
      rwa [hcancelled]
  · have hrunning : s.futures k = .running := by
      obtain hu | hu := Multiset.mem_add.mp hu
      · exact h.busy u (Multiset.mem_cons_of_mem hu) k hk
      · rw [hnew u (Multiset.mem_coe.mp hu)] at hk
        cases hk
    obtain heq | ⟨hpending, -⟩ := hfutures k
    · rwa [heq]
    · rw [hpending] at hrunning
      cases hrunning

theorem cancel_futures (s : Lane Outcome) (job k : Job) :
    (s.cancel job).futures k = s.futures k ∨
      s.futures k = .pending ∧ (s.cancel job).futures k = .cancelled := by
  by_cases hjob : s.futures job = .pending
  · rw [cancel_pending hjob]
    by_cases hk : k = job
    · subst hk
      exact .inr ⟨hjob, Function.update_self ..⟩
    · exact .inl (Function.update_of_ne hk _ _)
  · rw [cancel_of_ne hjob]
    exact .inl rfl

theorem cancel_history (s : Lane Outcome) (job : Job) : (s.cancel job).history = s.history := by
  unfold Lane.cancel
  split <;> rfl

theorem starts_congr (h : s'.history = s.history) (k : Job) : s'.starts k = s.starts k := by
  rw [Lane.starts, h, Lane.starts]

theorem outcomes_congr (h : s'.history = s.history) (k : Job) : s'.outcomes k = s.outcomes k := by
  rw [Lane.outcomes, h, Lane.outcomes]

/-- No step on the pools runs a body. -/
theorem pooling_bodyOf (ht : t.isPooling = true) (outcome : Outcome) (s : Lane Outcome) :
    t.bodyOf = none ∧ ∀ u ∈ (Lane.perform t outcome s).2, u.bodyOf = none := by
  cases t with
  | lookUp held =>
      refine ⟨rfl, ?_⟩
      simp only [Lane.perform, Lane.lookUp]
      split <;> simp [Task.bodyOf]
  | give held pool =>
      refine ⟨rfl, ?_⟩
      simp only [Lane.perform, Lane.give]
      split <;> simp [Task.bodyOf]
  | watch held =>
      refine ⟨rfl, ?_⟩
      simp only [Lane.perform, Lane.watch]
      split <;> simp [Task.bodyOf]
  | take held pool =>
      refine ⟨rfl, ?_⟩
      simp only [Lane.perform, Lane.take]
      split <;> simp [Task.bodyOf]
  | takePool =>
      refine ⟨rfl, ?_⟩
      simp only [Lane.perform, Lane.takePool]
      cases s.offload.takeExecutor.1 <;> simp [Task.bodyOf]
  | shut pool => exact ⟨rfl, by simp [Lane.perform, Task.bodyOf]⟩
  | drain pool =>
      refine ⟨rfl, ?_⟩
      simp only [Lane.perform, Lane.drain]
      cases (s.offload.drainItem pool).1 <;> simp [Lane.afterDrain, Task.bodyOf]
  | _ => cases ht

/-- The step after a body: the only one that settles a future. -/
theorem Accounted.alone (htoken : OneToken s (t ::ₘ rest)) (ht : t.bodyOf = some job)
    {u : Task Outcome} (hmem : u ∈ rest) : u.bodyOf = none := by
  have hheld : t.held = some job := by
    cases t <;> simp_all [Task.bodyOf, Task.held]
  cases hu : u.bodyOf with
  | none => rfl
  | some other =>
      have huheld : u.held = some other := by
        cases u <;> simp_all [Task.bodyOf, Task.held]
      exact absurd (.inl ⟨u, hmem, huheld⟩) (htoken.held_alone hheld)

theorem accounted_enter (held : Job) (htoken : OneToken s (.enter held ::ₘ rest))
    (h : Accounted s (.enter held ::ₘ rest)) :
    Accounted (s.enter held).1 (rest + ↑(s.enter held).2) := by
  have hfree : ∀ new : List (Task Outcome), (∀ u ∈ new, u.bodyOf = none) →
      Accounted s (rest + ↑new) := fun new hnew =>
    h.frame (fun _ => .inl rfl) (fun _ => rfl) (fun _ => rfl) rfl hnew
  unfold Lane.enter
  split
  · rename_i hpending
    have haccount := h.account held
    rw [hpending] at haccount
    refine ⟨fun k => ?_, fun u hu k hk => ?_⟩
    · by_cases hk : k = held
      · subst hk
        simp only [mark_futures, Function.update_self]
        refine ⟨?_, .inl ⟨by simp, ?_⟩⟩
        · rw [starts_mark, starts_futures, haccount.1]
          simp [Mark.isStart]
        · rw [outcomes_mark, outcomes_futures, haccount.2]
          rfl
      · simp only [mark_futures, Function.update_of_ne hk]
        refine (h.account k).congr ?_ ?_ fun u hmem hu =>
          mem_rest_of_bodyOf (by simp [Task.bodyOf]) hmem hu
        · rw [starts_mark, starts_futures]
          simp [Mark.isStart, Ne.symm hk]
        · rw [outcomes_mark, outcomes_futures]
          exact List.append_nil _
    · simp only [mark_futures]
      obtain hu | hu := Multiset.mem_add.mp hu
      · have hrunning := h.busy u (Multiset.mem_cons_of_mem hu) k hk
        have hne : k ≠ held := by
          rintro rfl
          rw [hpending] at hrunning
          cases hrunning
        rw [Function.update_of_ne hne, hrunning]
      · cases List.mem_singleton.mp (Multiset.mem_coe.mp hu)
        cases hk
        exact Function.update_self ..
  · exact hfree _ (by simp [Task.bodyOf])

theorem accounted_leave (held : Job) (outcome : Outcome)
    (htoken : OneToken s (.body held ::ₘ rest)) (h : Accounted s (.body held ::ₘ rest)) :
    Accounted (s.leave held outcome).1 (rest + ↑(s.leave held outcome).2) := by
  have hrunning := h.busy _ (Multiset.mem_cons_self _ _) held rfl
  refine ⟨fun k => ?_, fun u hu k hk => ?_⟩
  · by_cases hk : k = held
    · subst hk
      have haccount := h.account k
      rw [hrunning] at haccount
      obtain ⟨hone, ⟨-, hnone⟩ | ⟨other, hmem, -⟩⟩ := haccount
      · rw [Lane.leave, mark_futures, hrunning]
        refine ⟨?_, .inr ⟨outcome, by simp, ?_⟩⟩
        · rw [starts_mark, hone]
          rfl
        · rw [outcomes_mark, hnone]
          simp [Mark.outcomeOf]
      · obtain heq | hmem := Multiset.mem_cons.mp hmem
        · cases heq
        · have hnone := Accounted.alone htoken rfl hmem
          cases hnone
    · refine (h.account k).congr ?_ ?_ fun u hmem hu =>
        mem_rest_of_bodyOf (by simpa [Task.bodyOf] using Ne.symm hk) hmem hu
      · simp [Lane.leave, Mark.isStart]
      · simp [Lane.leave, Mark.outcomeOf, Ne.symm hk]
  · obtain hu | hu := Multiset.mem_add.mp hu
    · exact h.busy u (Multiset.mem_cons_of_mem hu) k hk
    · cases List.mem_singleton.mp (Multiset.mem_coe.mp hu)
      cases hk
      exact hrunning

theorem accounted_settle (held : Job) (result : Outcome)
    (htoken : OneToken s (.settle held result ::ₘ rest))
    (h : Accounted s (.settle held result ::ₘ rest)) :
    Accounted (s.settle held result).1 (rest + ↑(s.settle held result).2) := by
  have hrunning := h.busy _ (Multiset.mem_cons_self _ _) held rfl
  have hnone : ∀ u ∈ rest, u.bodyOf = none := fun u hmem => Accounted.alone htoken rfl hmem
  simp only [Lane.settle, hrunning]
  refine ⟨fun k => ?_, fun u hu k hk => ?_⟩
  · by_cases hk : k = held
    · subst hk
      have haccount := h.account k
      rw [hrunning] at haccount
      simp only [Function.update_self]
      obtain ⟨hone, ⟨hmem, -⟩ | ⟨other, hmem, hother⟩⟩ := haccount
      · obtain heq | hmem := Multiset.mem_cons.mp hmem
        · cases heq
        · exact absurd (hnone _ hmem) (by simp [Task.bodyOf])
      · obtain heq | hmem := Multiset.mem_cons.mp hmem
        · cases heq
          exact ⟨hone, hother⟩
        · exact absurd (hnone _ hmem) (by simp [Task.bodyOf])
    · simp only [Function.update_of_ne hk]
      exact (h.account k).congr rfl rfl fun u hmem hu =>
        mem_rest_of_bodyOf (by simpa [Task.bodyOf] using Ne.symm hk) hmem hu
  · obtain hu | hu := Multiset.mem_add.mp hu
    · rw [hnone u hu] at hk
      cases hk
    · cases List.mem_singleton.mp (Multiset.mem_coe.mp hu)
      cases hk

theorem accounted_perform (t : Task Outcome) (outcome : Outcome) (s : Lane Outcome)
    (rest : Multiset (Task Outcome)) (htoken : OneToken s (t ::ₘ rest))
    (h : Accounted s (t ::ₘ rest)) :
    Accounted (Lane.perform t outcome s).1 (rest + ↑(Lane.perform t outcome s).2) := by
  cases ht : t.isPooling with
  | true =>
      obtain ⟨hfree, hnew⟩ := pooling_bodyOf ht outcome s
      obtain ⟨offload, heq⟩ := pooling_perform ht outcome s
      refine h.frame (fun k => .inl ?_) (fun k => starts_congr ?_ k)
        (fun k => outcomes_congr ?_ k) hfree hnew <;> rw [heq]
  | false =>
      cases t with
      | number =>
          exact h.frame (fun _ => .inl rfl) (fun _ => rfl) (fun _ => rfl) rfl
            (by simp [Lane.perform, Lane.number, Task.bodyOf])
      | enqueue job =>
          simp only [Lane.perform]
          obtain ⟨-, heq⟩ | ⟨-, heq⟩ := enqueue_cases s job
          · rw [heq]
            refine h.frame (cancel_futures s job) (fun k => ?_) (fun k => ?_) rfl (by simp)
            · simp [Mark.isStart, starts_congr (cancel_history s job) k]
            · simp [Mark.outcomeOf, outcomes_congr (cancel_history s job) k]
          · rw [heq]
            refine h.frame (fun _ => .inl rfl) (fun k => ?_) (fun k => ?_) rfl
              (by simp [Task.bodyOf])
            · simp only [starts_mark, Mark.isStart]
              exact starts_congr rfl k
            · simp only [outcomes_mark, Mark.outcomeOf, Option.toList_none, List.append_nil]
              exact outcomes_congr rfl k
      | dispatch =>
          simp only [Lane.perform]
          obtain ⟨-, heq⟩ | ⟨chosen, -, -, -, heq⟩ := dispatch_cases s
          · rw [heq]
            exact h.frame (fun _ => .inl rfl) (fun _ => rfl) (fun _ => rfl) rfl (by simp)
          · rw [heq]
            exact h.frame (fun _ => .inl rfl) (fun _ => rfl) (fun _ => rfl) rfl
              (by simp [Task.bodyOf])
      | enter held => exact accounted_enter held htoken h
      | body held => exact accounted_leave held outcome htoken h
      | settle held result => exact accounted_settle held result htoken h
      | drop held =>
          exact h.frame (cancel_futures s held) (starts_congr (cancel_history s held))
            (outcomes_congr (cancel_history s held)) rfl
            (by simp [Lane.perform, Lane.drop, Task.bodyOf])
      | release =>
          exact h.frame (fun _ => .inl rfl) (fun _ => rfl) (fun _ => rfl) rfl
            (by simp [Lane.perform, Lane.release, Task.bodyOf])
      | cancelAll dropped pools =>
          cases dropped with
          | nil =>
              cases pools <;> exact h.frame (fun _ => .inl rfl) (fun _ => rfl) (fun _ => rfl) rfl
                (by simp [Lane.perform, Lane.cancelAll, Task.bodyOf])
          | cons first dropped =>
              exact h.frame (cancel_futures s first) (starts_congr (cancel_history s first))
                (outcomes_congr (cancel_history s first)) rfl
                (by simp [Lane.perform, Lane.cancelAll, Task.bodyOf])
      | _ => cases ht

end TrwMemory.Daemon

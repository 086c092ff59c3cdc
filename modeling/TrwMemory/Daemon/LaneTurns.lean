import TrwMemory.Daemon.LaneBodies

/-!
The lane's invariant in every interleaving of its callers, its thread and the shutdowns of the
pools, and the bodies of its history: they run one after the other, and the one that has not
returned is the one whose body is pending.
-/
namespace TrwMemory.Daemon

open Library.Threads Library.Transition

variable {Outcome : Type}

/-- The lane's invariant, over the steps that are pending. -/
structure Sound (s : Lane Outcome) (pending : Multiset (Task Outcome)) : Prop where
  items : ItemsAttended s pending
  awake : Awake s pending
  notLost : NotLost s pending
  accounted : Accounted s pending

theorem accounted_call (c : Call) (s : Lane Outcome) (pending : Multiset (Task Outcome))
    (r : Lane Outcome × List (Task Outcome)) (h : Accounted s pending) (hr : s.call c = some r) :
    Accounted r.1 (pending + ↑r.2) := by
  have hframe : (∀ k, r.1.futures k = s.futures k ∨
        s.futures k = .pending ∧ r.1.futures k = .cancelled) ∧
      (∀ k, r.1.starts k = s.starts k) ∧ (∀ k, r.1.outcomes k = s.outcomes k) ∧
      ∀ u ∈ r.2, u.bodyOf = none := by
    cases c with
    | passes time =>
        simp only [Lane.call] at hr
        split at hr <;> cases hr
        exact ⟨fun _ => .inl rfl, fun _ => rfl, fun _ => rfl, by simp⟩
    | submit budget tenant =>
        cases hr
        refine ⟨fun _ => .inl rfl, fun k => ?_, fun k => ?_, by simp [Task.bodyOf]⟩
        · rw [starts_mark]
          exact starts_congr rfl k
        · simp only [outcomes_mark, Mark.outcomeOf, Option.toList_none, List.append_nil]
          exact outcomes_congr rfl k
    | cancel job =>
        simp only [Lane.call] at hr
        split at hr <;> cases hr
        exact ⟨cancel_futures s job, starts_congr (cancel_history s job),
          outcomes_congr (cancel_history s job), by simp⟩
    | cancelQueued =>
        cases hr
        exact ⟨fun _ => .inl rfl, fun _ => rfl, fun _ => rfl,
          by simp [Lane.cancelQueued, Task.bodyOf]⟩
    | refuseLaneSubmissions =>
        cases hr
        refine ⟨fun _ => .inl rfl, fun k => ?_, fun k => ?_, by simp⟩
        · rw [starts_mark]
          exact starts_congr rfl k
        · simp only [outcomes_mark, Mark.outcomeOf, Option.toList_none, List.append_nil]
          exact outcomes_congr rfl k
    | refuseOffloadSubmissions =>
        cases hr
        exact ⟨fun _ => .inl rfl, fun _ => rfl, fun _ => rfl, by simp⟩
    | shutdownOffloadPool =>
        cases hr
        exact ⟨fun _ => .inl rfl, fun _ => rfl, fun _ => rfl,
          by simp [Lane.cancelQueued, Task.bodyOf]⟩
  obtain ⟨hfutures, hstarts, houtcomes, hnew⟩ := hframe
  refine ⟨fun k => ?_, fun u hu k hk => ?_⟩
  · have haccount : Account r.1 (pending + ↑r.2) k (s.futures k) :=
      (h.account k).congr (hstarts k) (houtcomes k)
        fun u hmem _ => Multiset.mem_add.mpr (.inl hmem)
    obtain heq | ⟨hpending, hcancelled⟩ := hfutures k
    · rwa [heq]
    · rw [hpending] at haccount
      rwa [hcancelled]
  · have hrunning : s.futures k = .running := by
      obtain hu | hu := Multiset.mem_add.mp hu
      · exact h.busy u hu k hk
      · rw [hnew u (Multiset.mem_coe.mp hu)] at hk
        cases hk
    obtain heq | ⟨hpending, -⟩ := hfutures k
    · rwa [heq]
    · rw [hpending] at hrunning
      cases hrunning

theorem sound_keeps :
    Program.Keeps (Lane.program : Program (Lane Outcome) (Task Outcome) Outcome Call) Sound where
  perform t outcome s rest h :=
    ⟨itemsAttended_keeps.perform t outcome s rest h.items, awake_perform t outcome s rest h.awake,
      notLost_perform t outcome s rest h.items.token h.notLost,
      accounted_perform t outcome s rest h.items.token h.accounted⟩
  call c s pending r h hr :=
    ⟨itemsAttended_keeps.call c s pending r h.items hr, awake_call c s pending r h.awake hr,
      notLost_call c s pending r h.notLost hr, accounted_call c s pending r h.accounted hr⟩

theorem sound_initial : Sound (Lane.initial : Lane Outcome) 0 where
  items := ⟨⟨rfl, Nat.zero_le 1⟩, nofun⟩
  awake := nofun
  notLost := nofun
  accounted := ⟨fun _ => ⟨rfl, rfl⟩, fun _ hmem => absurd hmem (Multiset.notMem_zero _)⟩

/-- No body is started twice. -/
theorem Accounted.starts_le {s : Lane Outcome} {pending : Multiset (Task Outcome)}
    (h : Accounted s pending) (job : Job) : s.starts job ≤ 1 := by
  have haccount := h.account job
  cases hfuture : s.futures job with
  | pending | cancelled =>
      rw [hfuture] at haccount
      exact haccount.1.symm ▸ Nat.zero_le 1
  | running | finished =>
      rw [hfuture] at haccount
      exact haccount.1.le

/-- The body that runs once a mark is written down, from the one before; `none` where the mark
would start a second one, or let another one return. -/
def Mark.after : Option Job → Mark Outcome → Option (Option Job)
  | none, .started job => some (some job)
  | some job, .returned other _ => if other = job then some none else none
  | some _, .started _ => none
  | none, .returned _ _ => none
  | running, _ => some running

/-- The body that is running at the end of a history of bodies that never overlap. -/
def runningBody (marks : List (Mark Outcome)) : Option (Option Job) :=
  marks.foldlM Mark.after none

theorem runningBody_concat (marks : List (Mark Outcome)) (m : Mark Outcome) :
    runningBody (marks ++ [m]) = (runningBody marks).bind fun running => Mark.after running m := by
  simp only [runningBody, List.foldlM_append, List.foldlM_cons, List.foldlM_nil, bind_pure]
  rfl

/-- What runs by the history is the body that is pending. -/
def InTurn (s : Lane Outcome) (pending : Multiset (Task Outcome)) : Prop :=
  ∃ running, runningBody s.history = some running ∧
    ∀ job, Task.body job ∈ pending ↔ running = some job

section Steps

variable {s : Lane Outcome} {t : Task Outcome} {rest : Multiset (Task Outcome)}

/-- While another step holds the slot no body runs. -/
theorem InTurn.idle (h : InTurn s (t ::ₘ rest)) (htoken : OneToken s (t ::ₘ rest))
    (ht : t.token = 1) (hbody : ∀ job, t ≠ .body job) :
    runningBody s.history = some none ∧ ∀ job, Task.body job ∉ rest := by
  obtain ⟨running, hhistory, hrunning⟩ := h
  have hnone : ∀ job, Task.body job ∉ rest := by
    intro job hmem
    exact not_holds (htoken.alone ht).1 (htoken.alone ht).2 (.inl ⟨_, hmem, rfl⟩)
  refine ⟨?_, hnone⟩
  cases running with
  | none => exact hhistory
  | some job =>
      obtain heq | hmem := Multiset.mem_cons.mp ((hrunning job).mpr rfl)
      · exact absurd heq.symm (hbody job)
      · exact absurd hmem (hnone job)

theorem InTurn.frame {s' : Lane Outcome} {new : List (Task Outcome)}
    (h : InTurn s (t ::ₘ rest)) (hhistory : runningBody s'.history = runningBody s.history)
    (ht : t.bodyOf = none) (hnew : ∀ u ∈ new, u.bodyOf = none) : InTurn s' (rest + ↑new) := by
  obtain ⟨running, hbefore, hrunning⟩ := h
  refine ⟨running, hhistory.trans hbefore, fun job => ?_⟩
  rw [← hrunning job, Multiset.mem_add, Multiset.mem_cons, Multiset.mem_coe]
  refine ⟨fun hmem => ?_, fun hmem => ?_⟩
  · obtain hmem | hmem := hmem
    · exact .inr hmem
    · exact absurd (hnew _ hmem) nofun
  · obtain rfl | hmem := hmem
    · cases ht
    · exact .inl hmem

theorem runningBody_mark {m : Mark Outcome} (hstart : ∀ job, m ≠ .started job)
    (hreturn : ∀ job outcome, m ≠ .returned job outcome) :
    runningBody (s.mark m).history = runningBody s.history := by
  rw [Lane.mark, runningBody_concat]
  cases hhistory : runningBody s.history with
  | none => rfl
  | some running =>
      cases m with
      | started job => exact absurd rfl (hstart job)
      | returned job outcome => exact absurd rfl (hreturn job outcome)
      | called call => cases running <;> rfl
      | refusing => cases running <;> rfl
      | accepted job => cases running <;> rfl
      | refused job => cases running <;> rfl

theorem inTurn_perform (t : Task Outcome) (outcome : Outcome) (s : Lane Outcome)
    (rest : Multiset (Task Outcome)) (htoken : OneToken s (t ::ₘ rest))
    (h : InTurn s (t ::ₘ rest)) :
    InTurn (Lane.perform t outcome s).1 (rest + ↑(Lane.perform t outcome s).2) := by
  cases ht : t.isPooling with
  | true =>
      obtain ⟨hfree, hnew⟩ := pooling_bodyOf ht outcome s
      obtain ⟨offload, heq⟩ := pooling_perform ht outcome s
      exact h.frame (by rw [heq]) hfree hnew
  | false =>
      cases t with
      | number => exact h.frame rfl rfl (by simp [Lane.perform, Lane.number, Task.bodyOf])
      | enqueue job =>
          simp only [Lane.perform]
          obtain ⟨-, heq⟩ | ⟨-, heq⟩ := enqueue_cases s job
          · rw [heq]
            refine h.frame ((runningBody_mark (fun _ heq => by cases heq) (by simp)).trans ?_)
              rfl (by simp)
            rw [cancel_history]
          · rw [heq]
            exact h.frame (runningBody_mark (by simp) (by simp)) rfl (by simp [Task.bodyOf])
      | dispatch =>
          simp only [Lane.perform]
          obtain ⟨-, heq⟩ | ⟨chosen, -, -, -, heq⟩ := dispatch_cases s
          · rw [heq]
            exact h.frame rfl rfl (by simp)
          · rw [heq]
            exact h.frame rfl rfl (by simp [Task.bodyOf])
      | enter held =>
          obtain ⟨hhistory, hnone⟩ := h.idle htoken rfl (by simp)
          simp only [Lane.perform, Lane.enter]
          split
          · refine ⟨some held, ?_, fun job => ?_⟩
            · rw [Lane.mark, runningBody_concat, hhistory]
              rfl
            · rw [Multiset.mem_add, Multiset.mem_coe, List.mem_singleton]
              refine ⟨fun hmem => ?_, fun heq =>
                .inr (congrArg Task.body (Option.some.inj heq).symm)⟩
              obtain hmem | heq := hmem
              · exact absurd hmem (hnone job)
              · cases heq
                rfl
          · exact h.frame rfl rfl (by simp [Task.bodyOf])
      | body held =>
          obtain ⟨running, hhistory, hrunning⟩ := h
          obtain rfl := (hrunning held).mp (Multiset.mem_cons_self _ _)
          refine ⟨none, ?_, fun job => ?_⟩
          · simp only [Lane.perform, Lane.leave, Lane.mark]
            rw [runningBody_concat, hhistory]
            exact if_pos rfl
          · simp only [Lane.perform, Lane.leave]
            rw [Multiset.mem_add, Multiset.mem_coe, List.mem_singleton]
            refine ⟨fun hmem => ?_, fun heq => by cases heq⟩
            obtain hmem | heq := hmem
            · have hnone := Accounted.alone htoken rfl hmem
              cases hnone
            · cases heq
      | settle held result =>
          obtain ⟨hhistory, hnone⟩ := h.idle htoken rfl (by simp)
          simp only [Lane.perform, Lane.settle]
          refine ⟨none, ?_, fun job => ?_⟩
          · split <;> exact hhistory
          · refine ⟨fun hmem => ?_, fun heq => by cases heq⟩
            obtain hmem | hmem := Multiset.mem_add.mp hmem
            · exact absurd hmem (hnone job)
            · have hrelease : Task.body job = (Task.release : Task Outcome) := by
                split at hmem <;> exact List.mem_singleton.mp (Multiset.mem_coe.mp hmem)
              cases hrelease
      | drop held =>
          exact h.frame (congrArg runningBody (cancel_history s held)) rfl
            (by simp [Lane.perform, Lane.drop, Task.bodyOf])
      | release => exact h.frame rfl rfl (by simp [Lane.perform, Lane.release, Task.bodyOf])
      | cancelAll dropped pools =>
          cases dropped with
          | nil =>
              cases pools <;>
                exact h.frame rfl rfl (by simp [Lane.perform, Lane.cancelAll, Task.bodyOf])
          | cons first dropped =>
              exact h.frame (congrArg runningBody (cancel_history s first)) rfl
                (by simp [Lane.perform, Lane.cancelAll, Task.bodyOf])
      | _ => cases ht

end Steps

theorem inTurn_call (c : Call) (s : Lane Outcome) (pending : Multiset (Task Outcome))
    (r : Lane Outcome × List (Task Outcome)) (h : InTurn s pending) (hr : s.call c = some r) :
    InTurn r.1 (pending + ↑r.2) := by
  have hframe : runningBody r.1.history = runningBody s.history ∧
      ∀ u ∈ r.2, u.bodyOf = none := by
    cases c with
    | passes time =>
        simp only [Lane.call] at hr
        split at hr <;> cases hr
        exact ⟨rfl, by simp⟩
    | submit budget tenant =>
        cases hr
        exact ⟨runningBody_mark (by simp) (by simp), by simp [Task.bodyOf]⟩
    | cancel job =>
        simp only [Lane.call] at hr
        split at hr <;> cases hr
        exact ⟨congrArg runningBody (cancel_history s job), by simp⟩
    | cancelQueued =>
        cases hr
        exact ⟨rfl, by simp [Lane.cancelQueued, Task.bodyOf]⟩
    | refuseLaneSubmissions =>
        cases hr
        exact ⟨runningBody_mark (by simp) (by simp), by simp⟩
    | refuseOffloadSubmissions =>
        cases hr
        exact ⟨rfl, by simp⟩
    | shutdownOffloadPool =>
        cases hr
        exact ⟨rfl, by simp [Lane.cancelQueued, Task.bodyOf]⟩
  obtain ⟨running, hbefore, hrunning⟩ := h
  refine ⟨running, hframe.1.trans hbefore, fun job => ?_⟩
  rw [← hrunning job, Multiset.mem_add, Multiset.mem_coe]
  refine ⟨fun hmem => hmem.resolve_right fun hnew => ?_, .inl⟩
  cases hframe.2 _ hnew

/-- `InTurn` beside the token on which it rests. -/
theorem inTurn_keeps :
    Program.Keeps (Lane.program : Program (Lane Outcome) (Task Outcome) Outcome Call)
      fun s pending => OneToken s pending ∧ InTurn s pending where
  perform t outcome s rest h :=
    ⟨oneToken_perform t outcome s rest h.1, inTurn_perform t outcome s rest h.1 h.2⟩
  call c s pending r h hr :=
    ⟨oneToken_call c s pending r h.1 hr, inTurn_call c s pending r h.2 hr⟩

end TrwMemory.Daemon

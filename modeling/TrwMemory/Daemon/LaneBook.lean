import Mathlib.Data.Multiset.Filter
import Mathlib.Data.Multiset.Range
import TrwMemory.Daemon.LaneBodies

/-!
The book of the lane: what the order of its jobs depends on. It has the submissions that are not
yet numbered or queued, the queue, who holds the slot, and the history. Every step of the lane is
a step of its book, where cancelled futures, pools and shutdowns are no more than jobs that leave
the queue or the slot.
-/
namespace TrwMemory.Daemon

open Library.Keyed Library.Threads Library.Transition

variable {Outcome : Type}

/-- The submission that a step has still to number, and when it was called. -/
def Task.numbering : Task Outcome → Option (Nat × Rat)
  | .number call _ _ queuedAt => some (call, queuedAt)
  | _ => none

/-- The job that a step has still to queue. -/
def Task.entering : Task Outcome → Option Job
  | .enqueue job => some job
  | _ => none

structure Book (Outcome : Type) where
  now : Rat
  calls : Nat
  nextSeq : Nat
  jobs : List Job
  shutdown : Bool
  history : List (Mark Outcome)
  numbering : Multiset (Nat × Rat)
  entering : Multiset Job
  queue : List Job
  holds : Job → Prop

def bookOf (s : Lane Outcome) (pending : Multiset (Task Outcome)) : Book Outcome where
  now := s.now
  calls := s.calls
  nextSeq := s.nextSeq
  jobs := s.jobs
  shutdown := s.shutdown
  history := s.history
  numbering := pending.filterMap Task.numbering
  entering := pending.filterMap Task.entering
  queue := s.queue
  holds := Holds s pending

namespace Book

/-- What may happen to the book. Nobody comes to hold the slot but a job that is chosen. -/
inductive Step (b : Book Outcome) : Book Outcome → Prop where
  | passes (holds : Job → Prop) (hholds : ∀ k, holds k → b.holds k) (time : Rat)
      (h : b.now ≤ time) : Step b { b with now := time, holds := holds }
  | calls (holds : Job → Prop) (hholds : ∀ k, holds k → b.holds k) :
      Step b { b with
        calls := b.calls + 1
        history := b.history ++ [.called b.calls]
        numbering := (b.calls, b.now) ::ₘ b.numbering
        holds := holds }
  | refuses (holds : Job → Prop) (hholds : ∀ k, holds k → b.holds k) :
      Step b { b with
        shutdown := true
        history := b.history ++ [.refusing]
        holds := holds }
  | numbers (holds : Job → Prop) (hholds : ∀ k, holds k → b.holds k) (job : Job)
      (rest : Multiset (Nat × Rat)) (hseq : job.seq = b.nextSeq)
      (h : b.numbering = (job.call, job.queuedAt) ::ₘ rest) :
      Step b { b with
        nextSeq := b.nextSeq + 1
        jobs := b.jobs ++ [job]
        numbering := rest
        entering := job ::ₘ b.entering
        holds := holds }
  | turnsAway (holds : Job → Prop) (hholds : ∀ k, holds k → b.holds k) (job : Job)
      (rest : Multiset Job) (h : b.entering = job ::ₘ rest) :
      Step b { b with
        history := b.history ++ [.refused job]
        entering := rest
        holds := holds }
  | accepts (holds : Job → Prop) (hholds : ∀ k, holds k → b.holds k) (job : Job)
      (rest : Multiset Job) (h : b.entering = job ::ₘ rest) (hopen : b.shutdown = false) :
      Step b { b with
        history := b.history ++ [.accepted job]
        entering := rest
        queue := b.queue ++ [job]
        holds := holds }
  | leaves (holds : Job → Prop) (hholds : ∀ k, holds k → b.holds k) (queue : List Job)
      (hqueue : queue ⊆ b.queue) : Step b { b with queue := queue, holds := holds }
  | chooses (holds : Job → Prop) (job : Job) (hholds : ∀ k, holds k → k = job)
      (waiting queue : List Job) (served : Table String Rat)
      (hwaiting : waiting ⊆ b.queue) (hjob : job ∈ waiting) (hqueue : queue ⊆ waiting)
      (hmin : ∀ other ∈ waiting, Lane.rank served b.now job ≤ Lane.rank served b.now other)
      (hfree : ∀ k, ¬ b.holds k) : Step b { b with queue := queue, holds := holds }
  | starts (holds : Job → Prop) (hholds : ∀ k, holds k → b.holds k) (job : Job)
      (hjob : b.holds job) :
      Step b { b with history := b.history ++ [.started job], holds := holds }
  | returns (holds : Job → Prop) (hholds : ∀ k, holds k → b.holds k) (job : Job)
      (outcome : Outcome) :
      Step b { b with history := b.history ++ [.returned job outcome], holds := holds }

end Book

section Simulation

variable {s s' : Lane Outcome} {t : Task Outcome} {rest : Multiset (Task Outcome)}

theorem filterMap_concat_none {α β : Type} (f : α → Option β) {a : α} (h : f a = none)
    (rest : Multiset α) : (rest + ↑[a]).filterMap f = rest.filterMap f := by
  rw [Multiset.filterMap_add, Multiset.filterMap_coe, List.filterMap_cons_none h]
  exact add_zero _

theorem filterMap_concat_some {α β : Type} (f : α → Option β) {a : α} {b : β} (h : f a = some b)
    (rest : Multiset α) : (rest + ↑[a]).filterMap f = b ::ₘ rest.filterMap f := by
  rw [Multiset.filterMap_add, Multiset.filterMap_coe, List.filterMap_cons_some h, add_comm]
  rfl

/-- A step that neither numbers nor queues a job changes the history, the queue and the holders
only. -/
theorem bookOf_frame {new : List (Task Outcome)}
    (hsame : s'.now = s.now ∧ s'.calls = s.calls ∧ s'.nextSeq = s.nextSeq ∧ s'.jobs = s.jobs ∧
      s'.shutdown = s.shutdown)
    (ht : t.numbering = none ∧ t.entering = none)
    (hnew : ∀ u ∈ new, u.numbering = none ∧ u.entering = none) :
    bookOf s' (rest + ↑new) =
      { bookOf s (t ::ₘ rest) with
        history := s'.history
        queue := s'.queue
        holds := Holds s' (rest + ↑new) } := by
  obtain ⟨hnow, hcalls, hseq, hjobs, hshutdown⟩ := hsame
  have hnumbers : (new : Multiset (Task Outcome)).filterMap Task.numbering = 0 := by
    rw [Multiset.filterMap_coe, List.filterMap_eq_nil_iff.mpr fun u hu => (hnew u hu).1]
    rfl
  have henters : (new : Multiset (Task Outcome)).filterMap Task.entering = 0 := by
    rw [Multiset.filterMap_coe, List.filterMap_eq_nil_iff.mpr fun u hu => (hnew u hu).2]
    rfl
  simp only [bookOf, hnow, hcalls, hseq, hjobs, hshutdown, Multiset.filterMap_add, hnumbers,
    henters, add_zero, Multiset.filterMap_cons_none _ _ ht.1,
    Multiset.filterMap_cons_none _ _ ht.2]

/-- Such a step is one of the book if the history, the queue and the holders change so. -/
theorem step_frame {new : List (Task Outcome)}
    (hsame : s'.now = s.now ∧ s'.calls = s.calls ∧ s'.nextSeq = s.nextSeq ∧ s'.jobs = s.jobs ∧
      s'.shutdown = s.shutdown)
    (ht : t.numbering = none ∧ t.entering = none)
    (hnew : ∀ u ∈ new, u.numbering = none ∧ u.entering = none)
    (h : Book.Step (bookOf s (t ::ₘ rest))
      { bookOf s (t ::ₘ rest) with
        history := s'.history
        queue := s'.queue
        holds := Holds s' (rest + ↑new) }) :
    Book.Step (bookOf s (t ::ₘ rest)) (bookOf s' (rest + ↑new)) := by
  rwa [bookOf_frame hsame ht hnew]

theorem holds_step {new : List (Task Outcome)} (hitems : s'.offload.items = s.offload.items)
    (hnew : ∀ u ∈ new, ∀ k, u.held = some k → t.held = some k) (k : Job)
    (h : Holds s' (rest + ↑new) k) : Holds s (t ::ₘ rest) k := by
  rw [holds_cons]
  obtain ⟨u, hu, hk⟩ | hrest := holds_add.mp h
  · exact .inl (hnew u hu k hk)
  · exact .inr ((holds_congr hitems).mp hrest)

/-- The steps on the pools leave nothing to number or to queue. -/
theorem pooling_ledger (ht : t.isPooling = true) (outcome : Outcome) (s : Lane Outcome) :
    (t.numbering = none ∧ t.entering = none) ∧
      ∀ u ∈ (Lane.perform t outcome s).2, u.numbering = none ∧ u.entering = none := by
  cases t with
  | lookUp held =>
      refine ⟨⟨rfl, rfl⟩, ?_⟩
      simp only [Lane.perform, Lane.lookUp]
      split <;> simp [Task.numbering, Task.entering]
  | give held pool =>
      refine ⟨⟨rfl, rfl⟩, ?_⟩
      simp only [Lane.perform, Lane.give]
      split <;> simp [Task.numbering, Task.entering]
  | watch held =>
      refine ⟨⟨rfl, rfl⟩, ?_⟩
      simp only [Lane.perform, Lane.watch]
      split <;> simp [Task.numbering, Task.entering]
  | take held pool =>
      refine ⟨⟨rfl, rfl⟩, ?_⟩
      simp only [Lane.perform, Lane.take]
      split <;> simp [Task.numbering, Task.entering]
  | takePool =>
      refine ⟨⟨rfl, rfl⟩, ?_⟩
      simp only [Lane.perform, Lane.takePool]
      cases s.offload.takeExecutor.1 <;> simp [Task.numbering, Task.entering]
  | shut pool => exact ⟨⟨rfl, rfl⟩, by simp [Lane.perform, Task.numbering, Task.entering]⟩
  | drain pool =>
      refine ⟨⟨rfl, rfl⟩, ?_⟩
      simp only [Lane.perform, Lane.drain]
      cases (s.offload.drainItem pool).1 <;>
        simp [Lane.afterDrain, Task.numbering, Task.entering]
  | _ => cases ht

theorem cancel_ledger (s : Lane Outcome) (job : Job) :
    (s.cancel job).now = s.now ∧ (s.cancel job).calls = s.calls ∧
      (s.cancel job).nextSeq = s.nextSeq ∧ (s.cancel job).jobs = s.jobs ∧
      (s.cancel job).shutdown = s.shutdown := by
  unfold Lane.cancel
  split <;> exact ⟨rfl, rfl, rfl, rfl, rfl⟩

/-- A step that leaves the ledger, the history and the items alone, and hands its job on or drops
it. -/
theorem step_leaves {new : List (Task Outcome)}
    (hsame : s'.now = s.now ∧ s'.calls = s.calls ∧ s'.nextSeq = s.nextSeq ∧ s'.jobs = s.jobs ∧
      s'.shutdown = s.shutdown)
    (hhistory : s'.history = s.history) (hqueue : s'.queue ⊆ s.queue)
    (hitems : s'.offload.items = s.offload.items)
    (ht : t.numbering = none ∧ t.entering = none)
    (hnew : ∀ u ∈ new, u.numbering = none ∧ u.entering = none)
    (hheld : ∀ u ∈ new, ∀ k, u.held = some k → t.held = some k) :
    Book.Step (bookOf s (t ::ₘ rest)) (bookOf s' (rest + ↑new)) := by
  refine step_frame hsame ht hnew ?_
  rw [hhistory]
  exact .leaves _ (holds_step hitems hheld) _ hqueue

/-- Every step of the lane is a step of its book. -/
theorem step_perform (t : Task Outcome) (outcome : Outcome) (s : Lane Outcome)
    (rest : Multiset (Task Outcome)) (h : OneToken s (t ::ₘ rest)) :
    Book.Step (bookOf s (t ::ₘ rest))
      (bookOf (Lane.perform t outcome s).1 (rest + ↑(Lane.perform t outcome s).2)) := by
  cases ht : t.isPooling with
  | true =>
      obtain ⟨hfree, hnew⟩ := pooling_ledger ht outcome s
      obtain ⟨offload, heq⟩ := pooling_perform ht outcome s
      have hholds := holds_pooling h ht outcome
      rw [heq] at hholds ⊢
      exact step_frame ⟨rfl, rfl, rfl, rfl, rfl⟩ hfree hnew
        (.leaves _ (fun k hk => (hholds k).mp hk) _ (List.Subset.refl _))
  | false =>
      cases t with
      | number call budget tenant queuedAt =>
          have hheld : ∀ k, Holds (s.number call budget tenant queuedAt).1
              (rest + ↑(s.number call budget tenant queuedAt).2) k →
              Holds s (.number call budget tenant queuedAt ::ₘ rest) k :=
            holds_step rfl (by simp [Lane.number, Task.held])
          have hstep := Book.Step.numbers
            (b := bookOf s (.number call budget tenant queuedAt ::ₘ rest)) _ hheld
            ⟨budget, tenant, call, queuedAt, s.nextSeq⟩ (rest.filterMap Task.numbering) rfl
            (Multiset.filterMap_cons_some _ _ _ rfl)
          convert hstep using 1
          simp only [bookOf, Lane.perform, Lane.number]
          rw [filterMap_concat_none Task.numbering rfl, filterMap_concat_some Task.entering rfl,
            Multiset.filterMap_cons_none _ _ rfl]
      | enqueue job =>
          have henters : (bookOf s (.enqueue job ::ₘ rest)).entering =
              job ::ₘ rest.filterMap Task.entering := Multiset.filterMap_cons_some _ _ _ rfl
          have hnumbers : (bookOf s (.enqueue job ::ₘ rest)).numbering =
              rest.filterMap Task.numbering := Multiset.filterMap_cons_none _ _ rfl
          obtain ⟨-, heq⟩ | ⟨hopen, heq⟩ := enqueue_cases s job
          · have hitems : (s.enqueue job).1.offload.items = s.offload.items := by
              rw [heq]
              exact congrArg Offload.items (cancel_offload s job)
            have hheld : ∀ k, Holds (s.enqueue job).1 (rest + ↑(s.enqueue job).2) k →
                Holds s (.enqueue job ::ₘ rest) k := holds_step hitems (by simp [heq])
            have hstep := Book.Step.turnsAway _ hheld job _ henters
            convert hstep using 1
            obtain ⟨hnow, hcalls, hseq, hjobs, hshutdown⟩ := cancel_ledger s job
            rw [Lane.perform, heq]
            simp only [bookOf, Lane.mark, hnow, hcalls, hseq, hjobs, hshutdown, cancel_queue,
              cancel_history, Multiset.coe_nil, add_zero]
            rw [← hnumbers]
            rfl
          · have hheld : ∀ k, Holds (s.enqueue job).1 (rest + ↑(s.enqueue job).2) k →
                Holds s (.enqueue job ::ₘ rest) k :=
              holds_step (by rw [heq]; rfl) (by simp [heq, Task.held])
            have hstep := Book.Step.accepts _ hheld job _ henters hopen
            convert hstep using 1
            rw [Lane.perform, heq]
            simp only [bookOf, Lane.mark]
            rw [filterMap_concat_none Task.numbering rfl, filterMap_concat_none Task.entering rfl,
              ← hnumbers]
            rfl
      | dispatch =>
          simp only [Lane.perform]
          obtain ⟨-, heq⟩ | ⟨job, hjob, hslot, hmin, heq⟩ := dispatch_cases s
          · rw [heq]
            exact step_leaves ⟨rfl, rfl, rfl, rfl, rfl⟩ rfl (List.filter_subset_self _) rfl
              ⟨rfl, rfl⟩ (by simp) (by simp)
          · obtain ⟨hnone, hitems⟩ := h.empty hslot
            rw [heq]
            refine step_frame ⟨rfl, rfl, rfl, rfl, rfl⟩ ⟨rfl, rfl⟩
              (by simp [Task.numbering, Task.entering])
              (.chooses _ job (fun k hk => ?_) s.waiting _ s.served (List.filter_subset_self _) hjob
                List.erase_subset hmin fun k => not_holds hnone hitems)
            rw [tokens_cons] at hnone
            obtain ⟨u, hu, hk⟩ | hrest := holds_add.mp hk
            · rw [List.mem_singleton.mp hu] at hk
              exact (Option.some.inj hk).symm
            · exact absurd ((holds_congr rfl).mp hrest) (not_holds (by omega) hitems)
      | enter held =>
          simp only [Lane.perform, Lane.enter]
          split
          · exact step_frame ⟨rfl, rfl, rfl, rfl, rfl⟩ ⟨rfl, rfl⟩
              (by simp [Task.numbering, Task.entering])
              (.starts _ (holds_step rfl (by simp [Task.held])) held (holds_cons.mpr (.inl rfl)))
          · exact step_leaves ⟨rfl, rfl, rfl, rfl, rfl⟩ rfl (List.Subset.refl _) rfl
              ⟨rfl, rfl⟩ (by simp [Task.numbering, Task.entering]) (by simp [Task.held])
      | body held =>
          simp only [Lane.perform, Lane.leave]
          exact step_frame ⟨rfl, rfl, rfl, rfl, rfl⟩ ⟨rfl, rfl⟩
            (by simp [Task.numbering, Task.entering])
            (.returns _ (holds_step rfl (by simp [Task.held])) held outcome)
      | settle held result =>
          simp only [Lane.perform, Lane.settle]
          split <;> exact step_leaves ⟨rfl, rfl, rfl, rfl, rfl⟩ rfl (List.Subset.refl _) rfl
            ⟨rfl, rfl⟩ (by simp [Task.numbering, Task.entering]) (by simp [Task.held])
      | drop held =>
          exact step_leaves (cancel_ledger s held) (cancel_history s held)
            (fun _ hk => cancel_queue s held ▸ hk)
            (congrArg Offload.items (cancel_offload s held)) ⟨rfl, rfl⟩
            (by simp [Lane.perform, Lane.drop, Task.numbering, Task.entering])
            (by simp [Lane.perform, Lane.drop, Task.held])
      | release =>
          exact step_leaves ⟨rfl, rfl, rfl, rfl, rfl⟩ rfl (List.Subset.refl _) rfl ⟨rfl, rfl⟩
            (by simp [Lane.perform, Lane.release, Task.numbering, Task.entering])
            (by simp [Lane.perform, Lane.release, Task.held])
      | cancelAll dropped pools =>
          cases dropped with
          | nil =>
              cases pools <;>
                exact step_leaves ⟨rfl, rfl, rfl, rfl, rfl⟩ rfl (List.Subset.refl _) rfl ⟨rfl, rfl⟩
                  (by simp [Lane.perform, Lane.cancelAll, Task.numbering, Task.entering])
                  (by simp [Lane.perform, Lane.cancelAll, Task.held])
          | cons first dropped =>
              exact step_leaves (cancel_ledger s first) (cancel_history s first)
                (fun _ hk => cancel_queue s first ▸ hk)
                (congrArg Offload.items (cancel_offload s first)) ⟨rfl, rfl⟩
                (by simp [Lane.perform, Lane.cancelAll, Task.numbering, Task.entering])
                (by simp [Lane.perform, Lane.cancelAll, Task.held])
      | _ => cases ht

/-- So is every call. -/
theorem step_call (c : Call) (s : Lane Outcome) (pending : Multiset (Task Outcome))
    (r : Lane Outcome × List (Task Outcome)) (hr : s.call c = some r) :
    Book.Step (bookOf s pending) (bookOf r.1 (pending + ↑r.2)) := by
  have hheld : r.1.offload.items = s.offload.items → (∀ u ∈ r.2, u.held = none) →
      ∀ k, Holds r.1 (pending + ↑r.2) k → Holds s pending k := by
    intro hitems hnew k hk
    obtain ⟨u, hu, hk⟩ | hrest := holds_add.mp hk
    · rw [hnew u hu] at hk
      cases hk
    · exact (holds_congr hitems).mp hrest
  have hleaves : ∀ queue pools, queue ⊆ s.queue →
      r = ({ s with queue := queue, served := Table.empty }, [.cancelAll s.queue pools]) →
      Book.Step (bookOf s pending) (bookOf r.1 (pending + ↑r.2)) := by
    rintro queue pools hqueue rfl
    have hstep := Book.Step.leaves (b := bookOf s pending) _ (hheld rfl (by simp [Task.held]))
      queue hqueue
    convert hstep using 1
    simp only [bookOf]
    rw [filterMap_concat_none Task.numbering rfl, filterMap_concat_none Task.entering rfl]
  cases c with
  | passes time =>
      simp only [Lane.call] at hr
      split at hr
      · cases hr
        have hstep := Book.Step.passes (b := bookOf s pending) _ (hheld rfl (by simp)) time ‹_›
        convert hstep using 1
        simp only [bookOf, Multiset.coe_nil, add_zero]
      · cases hr
  | submit budget tenant =>
      cases hr
      have hstep := Book.Step.calls (b := bookOf s pending) _ (hheld rfl (by simp [Task.held]))
      convert hstep using 1
      simp only [bookOf, Lane.mark]
      rw [filterMap_concat_some Task.numbering rfl, filterMap_concat_none Task.entering rfl]
  | cancel job =>
      simp only [Lane.call] at hr
      split at hr
      · cases hr
        obtain ⟨hnow, hcalls, hseq, hjobs, hshutdown⟩ := cancel_ledger s job
        have hstep := Book.Step.leaves (b := bookOf s pending) _
          (hheld (congrArg Offload.items (cancel_offload s job)) (by simp)) s.queue
          (List.Subset.refl _)
        convert hstep using 1
        simp only [bookOf, hnow, hcalls, hseq, hjobs, hshutdown, cancel_queue, cancel_history,
          Multiset.coe_nil, add_zero]
      · cases hr
  | cancelQueued => exact hleaves [] false (List.nil_subset _) (Option.some.inj hr).symm
  | refuseLaneSubmissions =>
      cases hr
      have hstep := Book.Step.refuses (b := bookOf s pending) _ (hheld rfl (by simp))
      convert hstep using 1
      simp only [bookOf, Lane.mark, Multiset.coe_nil, add_zero]
  | refuseOffloadSubmissions =>
      cases hr
      have hstep := Book.Step.leaves (b := bookOf s pending) _ (hheld rfl (by simp)) s.queue
        (List.Subset.refl _)
      convert hstep using 1
      simp only [bookOf, Multiset.coe_nil, add_zero]
  | shutdownOffloadPool => exact hleaves [] true (List.nil_subset _) (Option.some.inj hr).symm

end Simulation

end TrwMemory.Daemon

import TrwMemory.Daemon.LaneBook

/-!
In which order the lane's jobs start. A job that was queued before another one was called, of its
tenant and its budget, is chosen before it, whatever the clock and the table of the tenants served
last say: if both bodies are started, its body is started first. Nothing is queued that was called
after the refusal.
-/
namespace TrwMemory.Daemon

open Library.Keyed Library.Transition

variable {Outcome : Type}

namespace Book

/-- One job was queued before the other one was called, for the same tenant and under the same
budget. -/
structure Before (b : Book Outcome) (first second : Job) : Prop where
  budget : first.budget = second.budget
  tenant : first.tenant = second.tenant
  numbered : second ∈ b.jobs
  calls : [.accepted first, .called second.call].Sublist b.history

structure Recorded (b : Book Outcome) : Prop where
  calls : b.numbering.map Prod.fst + ↑(b.jobs.map Job.call) = Multiset.range b.calls
  clock : ∀ p ∈ b.numbering, p.2 ≤ b.now
  jobs : ∀ job ∈ b.jobs, job.seq < b.nextSeq ∧ job.queuedAt ≤ b.now
  entering : ∀ job ∈ b.entering, job ∈ b.jobs ∧ .accepted job ∉ b.history
  once : b.entering.Nodup
  accepted : ∀ job, .accepted job ∈ b.history → job ∈ b.jobs
  underway : ∀ job, job ∈ b.queue ∨ b.holds job ∨ .started job ∈ b.history →
    .accepted job ∈ b.history
  refusing : .refusing ∈ b.history → b.shutdown = true
  late : ∀ job, [.refusing, .called job.call].Sublist b.history → .accepted job ∉ b.history

/-- What the rank of two jobs rests on, and what a choice leaves of it. -/
structure Ordered (b : Book Outcome) : Prop where
  ranked : ∀ first second, b.Before first second →
    first.seq < second.seq ∧ first.queuedAt ≤ second.queuedAt
  numbered : ∀ first, ∀ p ∈ b.numbering, [.accepted first, .called p.1].Sublist b.history →
    first.queuedAt ≤ p.2
  passed : ∀ first second, b.Before first second →
    b.holds second ∨ .started second ∈ b.history → first ∉ b.queue ∧ ¬ b.holds first
  started : ∀ first second, b.Before first second → .started first ∈ b.history →
    .started second ∈ b.history → [.started first, .started second].Sublist b.history

variable {b b' : Book Outcome}

theorem Recorded.call_lt (h : b.Recorded) {job : Job} (hjob : job ∈ b.jobs) :
    job.call < b.calls := by
  rw [← Multiset.mem_range, ← h.calls]
  exact Multiset.mem_add.mpr (.inr (Multiset.mem_coe.mpr (List.mem_map_of_mem hjob)))

theorem Recorded.number_lt (h : b.Recorded) {p : Nat × Rat} (hp : p ∈ b.numbering) :
    p.1 < b.calls := by
  rw [← Multiset.mem_range, ← h.calls]
  exact Multiset.mem_add.mpr (.inl (Multiset.mem_map_of_mem Prod.fst hp))

/-- What is under way was accepted, also behind a mark that starts nothing. -/
theorem Recorded.underway_concat (h : b.Recorded) {m : Mark Outcome} {holds : Job → Prop}
    (hm : ∀ job, m ≠ .started job) (hholds : ∀ k, holds k → b.holds k) {job : Job}
    (hjob : job ∈ b.queue ∨ holds job ∨ .started job ∈ b.history ++ [m]) :
    .accepted job ∈ b.history ++ [m] := by
  refine List.mem_append_left _
    (h.underway job (hjob.imp_right (Or.imp (hholds job) fun hmem => ?_)))
  obtain hmem | hmem := List.mem_append.mp hmem
  · exact hmem
  · exact absurd (List.mem_singleton.mp hmem).symm (hm job)

/-- What was called late was not accepted, also behind a mark that calls and accepts nothing. -/
theorem Recorded.late_concat (h : b.Recorded) {m : Mark Outcome}
    (hcalled : ∀ call, m ≠ .called call) (haccepted : ∀ job, m ≠ .accepted job) {job : Job}
    (hsub : [.refusing, .called job.call].Sublist (b.history ++ [m])) :
    .accepted job ∉ b.history ++ [m] := by
  obtain hsub | ⟨-, heq⟩ := pair_sublist_concat.mp hsub
  · intro hmem
    obtain hmem | hmem := List.mem_append.mp hmem
    · exact h.late job hsub hmem
    · exact absurd (List.mem_singleton.mp hmem).symm (haccepted job)
  · exact absurd heq.symm (hcalled _)

theorem recorded_step (hstep : Step b b') (h : b.Recorded) : b'.Recorded := by
  cases hstep with
  | passes holds hholds time htime =>
      exact { h with
        clock := fun p hp => (h.clock p hp).trans htime
        jobs := fun job hjob => ⟨(h.jobs job hjob).1, (h.jobs job hjob).2.trans htime⟩
        underway := fun job hjob => h.underway job (hjob.imp_right (Or.imp_left (hholds job))) }
  | calls holds hholds =>
      refine { h with
        calls := ?_
        clock := fun p hp => ?_
        entering := fun job hjob =>
          ⟨(h.entering job hjob).1, by simpa using (h.entering job hjob).2⟩
        accepted := fun job hmem => h.accepted job (by simpa using hmem)
        underway := fun _ => h.underway_concat (by nofun) hholds
        refusing := fun hmem => h.refusing (by simpa using hmem)
        late := fun job hsub => ?_ }
      · rw [Multiset.map_cons, Multiset.cons_add, h.calls, Multiset.range_succ]
      · obtain rfl | hp := Multiset.mem_cons.mp hp
        · exact le_rfl
        · exact h.clock p hp
      · obtain hsub | ⟨-, heq⟩ := pair_sublist_concat.mp hsub
        · simpa using h.late job hsub
        · intro hmem
          have hlt := h.call_lt (h.accepted job (by simpa using hmem))
          rw [Mark.called.inj heq] at hlt
          exact absurd hlt (Nat.lt_irrefl _)
  | refuses holds hholds =>
      refine { h with
        entering := fun job hjob =>
          ⟨(h.entering job hjob).1, by simpa using (h.entering job hjob).2⟩
        accepted := fun job hmem => h.accepted job (by simpa using hmem)
        underway := fun _ => h.underway_concat (by nofun) hholds
        refusing := fun _ => rfl
        late := fun _ => h.late_concat (by nofun) (by nofun) }
  | numbers holds hholds job rest hseq hnumbering =>
      have hnew : job ∉ b.jobs := by
        intro hmem
        have hlt := (h.jobs job hmem).1
        omega
      have hold : ∀ k ∈ b.jobs, k ∈ b.jobs ++ [job] := fun k hk => List.mem_append_left _ hk
      refine { h with
        calls := ?_
        clock := fun p hp => h.clock p (hnumbering ▸ Multiset.mem_cons_of_mem hp)
        jobs := fun k hk => ?_
        entering := fun k hk => ?_
        once := ?_
        accepted := fun k hk => hold k (h.accepted k hk)
        underway := fun k hk => h.underway k (hk.imp_right (Or.imp_left (hholds k))) }
      · have hcalls := h.calls
        rw [hnumbering, Multiset.map_cons] at hcalls
        rw [← hcalls, List.map_append, List.map_singleton, ← Multiset.coe_add, Multiset.cons_add,
          ← add_assoc, add_comm _ (↑[job.call] : Multiset Nat)]
        rfl
      · obtain hk | hk := List.mem_append.mp hk
        · exact ⟨(h.jobs k hk).1.trans (Nat.lt_succ_self _), (h.jobs k hk).2⟩
        · cases List.mem_singleton.mp hk
          refine ⟨hseq ▸ Nat.lt_succ_self _, ?_⟩
          exact h.clock (job.call, job.queuedAt) (hnumbering ▸ Multiset.mem_cons_self _ _)
      · obtain rfl | hk := Multiset.mem_cons.mp hk
        · exact ⟨List.mem_append_right _ (List.mem_singleton_self k),
            fun hmem => hnew (h.accepted k hmem)⟩
        · exact ⟨hold k (h.entering k hk).1, (h.entering k hk).2⟩
      · exact Multiset.nodup_cons.mpr ⟨fun hmem => hnew (h.entering job hmem).1, h.once⟩
  | turnsAway holds hholds job rest hentering =>
      have hrest : ∀ k ∈ rest, k ∈ b.entering := fun k hk => hentering ▸ Multiset.mem_cons_of_mem hk
      refine { h with
        entering := fun k hk =>
          ⟨(h.entering k (hrest k hk)).1, by simpa using (h.entering k (hrest k hk)).2⟩
        once := (Multiset.nodup_cons.mp (hentering ▸ h.once)).2
        accepted := fun k hmem => h.accepted k (by simpa using hmem)
        underway := fun _ => h.underway_concat (by nofun) hholds
        refusing := fun hmem => h.refusing (by simpa using hmem)
        late := fun _ => h.late_concat (by nofun) (by nofun) }
  | accepts holds hholds job rest hentering hopen =>
      have hrest : ∀ k ∈ rest, k ∈ b.entering := fun k hk => hentering ▸ Multiset.mem_cons_of_mem hk
      have hjob := h.entering job (hentering ▸ Multiset.mem_cons_self _ _)
      have honce := Multiset.nodup_cons.mp (hentering ▸ h.once)
      refine { h with
        entering := fun k hk => ⟨(h.entering k (hrest k hk)).1, fun hmem => ?_⟩
        once := honce.2
        accepted := fun k hmem => ?_
        underway := fun k hk => ?_
        refusing := fun hmem => h.refusing (by simpa using hmem)
        late := fun k hsub => ?_ }
      · obtain hmem | hmem := List.mem_append.mp hmem
        · exact (h.entering k (hrest k hk)).2 hmem
        · cases List.mem_singleton.mp hmem
          exact honce.1 hk
      · obtain hmem | hmem := List.mem_append.mp hmem
        · exact h.accepted k hmem
        · cases List.mem_singleton.mp hmem
          exact hjob.1
      · obtain hmem | hk := hk
        · obtain hmem | hmem := List.mem_append.mp hmem
          · exact List.mem_append_left _ (h.underway k (.inl hmem))
          · cases List.mem_singleton.mp hmem
            exact List.mem_append_right _ (List.mem_singleton_self _)
        · exact List.mem_append_left _ (h.underway k
            (.inr (hk.imp (hholds k) fun hmem => by simpa using hmem)))
      · obtain hsub | ⟨-, heq⟩ := pair_sublist_concat.mp hsub
        · intro hmem
          obtain hmem | hmem := List.mem_append.mp hmem
          · exact h.late k hsub hmem
          · have hrefusing : .refusing ∈ b.history := hsub.subset List.mem_cons_self
            rw [h.refusing hrefusing] at hopen
            cases hopen
        · cases heq
  | leaves holds hholds queue hqueue =>
      exact { h with
        underway := fun job hjob =>
          h.underway job (hjob.imp (fun hmem => hqueue hmem) (Or.imp_left (hholds job))) }
  | chooses holds job hholds waiting queue served hwaiting hjob hqueue hmin hfree =>
      refine { h with underway := fun k hk => h.underway k ?_ }
      obtain hmem | hheld | hstarted := hk
      · exact .inl (hwaiting (hqueue hmem))
      · exact .inl (hwaiting (hholds k hheld ▸ hjob))
      · exact .inr (.inr hstarted)
  | starts holds hholds job hjob =>
      refine { h with
        entering := fun k hk => ⟨(h.entering k hk).1, by simpa using (h.entering k hk).2⟩
        accepted := fun k hmem => h.accepted k (by simpa using hmem)
        underway := fun k hk => ?_
        refusing := fun hmem => h.refusing (by simpa using hmem)
        late := fun _ => h.late_concat (by nofun) (by nofun) }
      · refine List.mem_append_left _ (h.underway k ?_)
        obtain hmem | hheld | hmem := hk
        · exact .inl hmem
        · exact .inr (.inl (hholds k hheld))
        · obtain hmem | hmem := List.mem_append.mp hmem
          · exact .inr (.inr hmem)
          · cases List.mem_singleton.mp hmem
            exact .inr (.inl hjob)
  | returns holds hholds job outcome =>
      refine { h with
        entering := fun k hk => ⟨(h.entering k hk).1, by simpa using (h.entering k hk).2⟩
        accepted := fun k hmem => h.accepted k (by simpa using hmem)
        underway := fun _ => h.underway_concat (by nofun) hholds
        refusing := fun hmem => h.refusing (by simpa using hmem)
        late := fun _ => h.late_concat (by nofun) (by nofun) }

/-- Of two jobs of a tenant and a budget the one that was queued and numbered first is ranked
first, at any time and whoever was served. -/
theorem rank_lt {first second : Job} (served : Table String Rat) (now : Rat)
    (hbudget : first.budget = second.budget) (htenant : first.tenant = second.tenant)
    (hseq : first.seq < second.seq) (hqueued : first.queuedAt ≤ second.queuedAt) :
    Lane.rank served now first < Lane.rank served now second := by
  have hclass : (first.budget.background && decide (now - first.queuedAt < agingSeconds)) ≤
      (second.budget.background && decide (now - second.queuedAt < agingSeconds)) := by
    rw [hbudget]
    cases second.budget.background with
    | false => exact le_rfl
    | true =>
        simp only [Bool.true_and]
        by_cases hwaits : now - first.queuedAt < agingSeconds
        · rw [decide_eq_true ((sub_le_sub_left hqueued now).trans_lt hwaits)]
          exact Bool.le_true _
        · rw [decide_eq_false hwaits]
          exact Bool.false_le _
  unfold Lane.rank
  rw [Prod.Lex.toLex_lt_toLex]
  obtain hless | heq := hclass.lt_or_eq
  · exact .inl hless
  · refine .inr ⟨heq, ?_⟩
    rw [Prod.Lex.toLex_lt_toLex, htenant]
    exact .inr ⟨rfl, hseq⟩

theorem Before.accepted {first second : Job} (h : b.Before first second) :
    .accepted first ∈ b.history :=
  h.calls.subset List.mem_cons_self

theorem Before.within {first second : Job} (h : b'.Before first second)
    (hnumbered : second ∈ b.jobs)
    (hcalls : [.accepted first, .called second.call].Sublist b.history) : b.Before first second :=
  ⟨h.budget, h.tenant, hnumbered, hcalls⟩

/-- Where no new call is marked and no job is numbered, what comes before what stays the same. -/
theorem Before.before {first second : Job} {m : Mark Outcome} (h : b'.Before first second)
    (hjobs : b'.jobs = b.jobs) (hhistory : b'.history = b.history ++ [m])
    (hm : ∀ call, m ≠ .called call) : b.Before first second := by
  refine ⟨h.budget, h.tenant, hjobs ▸ h.numbered, ?_⟩
  obtain hsub | ⟨-, heq⟩ := pair_sublist_concat.mp (hhistory ▸ h.calls)
  · exact hsub
  · exact absurd heq.symm (hm _)

/-- A mark that calls and starts nothing leaves the order as it is. -/
theorem Ordered.marked {m : Mark Outcome} (h : b.Ordered) (hjobs : b'.jobs = b.jobs)
    (hhistory : b'.history = b.history ++ [m]) (hcalled : ∀ call, m ≠ .called call)
    (hstarted : ∀ job, m ≠ .started job) (hnumbering : b'.numbering = b.numbering)
    (hqueue : ∀ first second, b.Before first second → first ∈ b'.queue → first ∈ b.queue)
    (hholds : ∀ k, b'.holds k → b.holds k) : b'.Ordered := by
  have hmem : ∀ job, .started job ∈ b'.history → .started job ∈ b.history := by
    intro job hmem
    rw [hhistory] at hmem
    obtain hmem | hmem := List.mem_append.mp hmem
    · exact hmem
    · exact absurd (List.mem_singleton.mp hmem).symm (hstarted job)
  have hbefore : ∀ first second, b'.Before first second → b.Before first second :=
    fun first second hb => hb.before hjobs hhistory hcalled
  refine ⟨fun first second hb => h.ranked _ _ (hbefore _ _ hb), fun first p hp hsub => ?_,
    fun first second hb hpast => ?_, fun first second hb hfirst hsecond => ?_⟩
  · obtain hsub | ⟨-, heq⟩ := pair_sublist_concat.mp (hhistory ▸ hsub)
    · exact h.numbered first p (hnumbering ▸ hp) hsub
    · exact absurd heq.symm (hcalled _)
  · obtain ⟨hqueued, hheld⟩ := h.passed first second (hbefore _ _ hb)
      (hpast.imp (hholds second) (hmem second))
    exact ⟨fun hmem => hqueued (hqueue first second (hbefore _ _ hb) hmem),
      fun hk => hheld (hholds first hk)⟩
  · rw [hhistory]
    exact (h.started first second (hbefore _ _ hb) (hmem first hfirst) (hmem second hsecond)).trans
      (List.sublist_append_left _ _)

/-- Jobs that leave the queue or the slot leave the order as it is. -/
theorem Ordered.shrinks (h : b.Ordered) (hjobs : b'.jobs = b.jobs)
    (hhistory : b'.history = b.history) (hnumbering : b'.numbering = b.numbering)
    (hqueue : b'.queue ⊆ b.queue) (hholds : ∀ k, b'.holds k → b.holds k) : b'.Ordered := by
  have hbefore : ∀ first second, b'.Before first second → b.Before first second :=
    fun first second hb => ⟨hb.budget, hb.tenant, hjobs ▸ hb.numbered, hhistory ▸ hb.calls⟩
  refine ⟨fun first second hb => h.ranked _ _ (hbefore _ _ hb),
    fun first p hp hsub => h.numbered first p (hnumbering ▸ hp) (hhistory ▸ hsub),
    fun first second hb hpast => ?_, fun first second hb hfirst hsecond => ?_⟩
  · rw [hhistory] at hpast
    obtain ⟨hqueued, hheld⟩ := h.passed first second (hbefore _ _ hb)
      (hpast.imp_left (hholds second))
    exact ⟨fun hmem => hqueued (hqueue hmem), fun hk => hheld (hholds first hk)⟩
  · rw [hhistory] at hfirst hsecond ⊢
    exact h.started first second (hbefore _ _ hb) hfirst hsecond

theorem ordered_step (hstep : Step b b') (hr : b.Recorded) (h : b.Ordered) : b'.Ordered := by
  cases hstep with
  | passes holds hholds time htime =>
      exact h.shrinks rfl rfl rfl (List.Subset.refl _) hholds
  | calls holds hholds =>
      have hcalls : ∀ first, ∀ second ∈ b.jobs,
          [.accepted first, .called second.call].Sublist (b.history ++ [.called b.calls]) →
          [.accepted first, .called second.call].Sublist b.history := by
        intro first second hmem hsub
        obtain hsub | ⟨-, heq⟩ := pair_sublist_concat.mp hsub
        · exact hsub
        · have hlt := hr.call_lt hmem
          rw [Mark.called.inj heq] at hlt
          exact absurd hlt (Nat.lt_irrefl _)
      refine ⟨fun first second hb => ?_, fun first p hp hsub => ?_,
        fun first second hb hpast => ?_, fun first second hb hfirst hsecond => ?_⟩
      · exact h.ranked _ _ (hb.within hb.numbered (hcalls _ _ hb.numbered hb.calls))
      · obtain hsub | ⟨hmem, heq⟩ := pair_sublist_concat.mp hsub
        · obtain rfl | hp := Multiset.mem_cons.mp hp
          · exact (hr.jobs first (hr.accepted first (hsub.subset List.mem_cons_self))).2
          · exact h.numbered first p hp hsub
        · obtain rfl | hp := Multiset.mem_cons.mp hp
          · exact (hr.jobs first (hr.accepted first hmem)).2
          · have hlt := hr.number_lt hp
            rw [Mark.called.inj heq] at hlt
            exact absurd hlt (Nat.lt_irrefl _)
      · obtain ⟨hqueued, hheld⟩ := h.passed first second
          (hb.within hb.numbered (hcalls _ _ hb.numbered hb.calls))
          (hpast.imp (hholds second) fun hmem => by simpa using hmem)
        exact ⟨hqueued, fun hk => hheld (hholds first hk)⟩
      · exact (h.started first second (hb.within hb.numbered (hcalls _ _ hb.numbered hb.calls))
          (by simpa using hfirst) (by simpa using hsecond)).trans (List.sublist_append_left _ _)
  | refuses holds hholds =>
      exact h.marked rfl rfl nofun nofun rfl (fun _ _ _ hmem => hmem) hholds
  | numbers holds hholds job rest hseq hnumbering =>
      have hjob : (job.call, job.queuedAt) ∈ b.numbering :=
        hnumbering ▸ Multiset.mem_cons_self _ _
      have hnew : job ∉ b.jobs := by
        intro hmem
        have hlt := (hr.jobs job hmem).1
        omega
      have hpassed : ∀ second, holds second ∨ .started second ∈ b.history → second ∈ b.jobs :=
        fun second hpast => hr.accepted second
          (hr.underway second (.inr (hpast.imp_left (hholds second))))
      refine ⟨fun first second hb => ?_, fun first p hp => h.numbered first p
        (hnumbering ▸ Multiset.mem_cons_of_mem hp), fun first second hb hpast => ?_,
        fun first second hb hfirst hsecond =>
          h.started first second (hb.within (hpassed second (.inr hsecond)) hb.calls) hfirst
            hsecond⟩
      · obtain hmem | hmem := List.mem_append.mp hb.numbered
        · exact h.ranked first second (hb.within hmem hb.calls)
        · cases List.mem_singleton.mp hmem
          refine ⟨?_, h.numbered first _ hjob hb.calls⟩
          rw [hseq]
          exact (hr.jobs first (hr.accepted first hb.accepted)).1
      · obtain ⟨hqueued, hheld⟩ := h.passed first second (hb.within (hpassed second hpast) hb.calls)
          (hpast.imp_left (hholds second))
        exact ⟨hqueued, fun hk => hheld (hholds first hk)⟩
  | turnsAway holds hholds job rest hentering =>
      exact h.marked rfl rfl nofun nofun rfl (fun _ _ _ hmem => hmem) hholds
  | accepts holds hholds job rest hentering hopen =>
      refine h.marked rfl rfl nofun nofun rfl (fun first second hb hmem => ?_) hholds
      obtain hmem | hmem := List.mem_append.mp hmem
      · exact hmem
      · have hjob := (hr.entering job (hentering ▸ Multiset.mem_cons_self _ _)).2
        exact absurd (List.mem_singleton.mp hmem ▸ hb.accepted) hjob
  | leaves holds hholds queue hqueue => exact h.shrinks rfl rfl rfl hqueue hholds
  | chooses holds job hholds waiting queue served hwaiting hjob hqueue hmin hfree =>
      refine ⟨fun first second hb => h.ranked _ _ (hb.within hb.numbered hb.calls), h.numbered,
        fun first second hb hpast => ?_, fun first second hb hfirst hsecond =>
          h.started _ _ (hb.within hb.numbered hb.calls) hfirst hsecond⟩
      have hbefore : b.Before first second := hb.within hb.numbered hb.calls
      have hwaits : holds first → first ∈ waiting := fun hk => hholds first hk ▸ hjob
      have hnot : first ∉ waiting := by
        intro hmem
        obtain hheld | hstarted := hpast
        · -- The second job is the one that is chosen, but the first one is ranked before it.
          obtain ⟨hseq, hqueued⟩ := h.ranked first second hbefore
          have hless := rank_lt served b.now hb.budget hb.tenant hseq hqueued
          rw [hholds second hheld] at hless
          exact absurd (hmin first hmem) (not_le_of_gt hless)
        · exact (h.passed first second hbefore (.inr hstarted)).1 (hwaiting hmem)
      exact ⟨fun hmem => hnot (hqueue hmem), fun hk => hnot (hwaits hk)⟩
  | starts holds hholds job hjob =>
      have hmem : ∀ k, .started k ∈ b.history ++ [.started job] →
          .started k ∈ b.history ∨ k = job := by
        intro k hk
        obtain hk | hk := List.mem_append.mp hk
        · exact .inl hk
        · exact .inr (Mark.started.inj (List.mem_singleton.mp hk))
      refine ⟨fun first second hb => h.ranked _ _ (hb.before rfl rfl nofun),
        fun first p hp hsub => ?_, fun first second hb hpast => ?_,
        fun first second hb hfirst hsecond => ?_⟩
      · obtain hsub | ⟨-, heq⟩ := pair_sublist_concat.mp hsub
        · exact h.numbered first p hp hsub
        · cases heq
      · have hpast' : b.holds second ∨ .started second ∈ b.history := by
          obtain hheld | hstarted := hpast
          · exact .inl (hholds second hheld)
          · obtain hstarted | rfl := hmem second hstarted
            · exact .inr hstarted
            · exact .inl hjob
        obtain ⟨hqueued, hheld⟩ := h.passed first second (hb.before rfl rfl nofun) hpast'
        exact ⟨hqueued, fun hk => hheld (hholds first hk)⟩
      · have hbefore : b.Before first second := hb.before rfl rfl nofun
        obtain hearly | hnow := hmem first hfirst
        · obtain hlate | rfl := hmem second hsecond
          · exact (h.started first second hbefore hearly hlate).trans
              (List.sublist_append_left _ _)
          · exact pair_sublist_concat.mpr (.inr ⟨hearly, rfl⟩)
        · obtain hlate | hsame := hmem second hsecond
          · exact absurd (hnow ▸ hjob) (h.passed first second hbefore (.inr hlate)).2
          · rw [hnow, hsame] at hbefore
            exact absurd (h.ranked job job hbefore).1 (Nat.lt_irrefl _)
  | returns holds hholds job outcome =>
      exact h.marked rfl rfl nofun nofun rfl (fun _ _ _ hmem => hmem) hholds

/-- No step takes a mark back. -/
theorem history_step (hstep : Step b b') : b.history <+: b'.history := by
  cases hstep with
  | passes | numbers | leaves | chooses => exact List.prefix_refl _
  | _ => exact List.prefix_append _ _

end Book

end TrwMemory.Daemon

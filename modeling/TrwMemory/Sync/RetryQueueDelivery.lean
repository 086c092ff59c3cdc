import TrwMemory.Sync.RetryQueueRuns

/-!
What a record's enqueue promises. While every enqueued record has its own
`(entry_id, queued_at)` and nobody clears the file, each record is in the file
once, or was published, or was evicted at the failure limit; the order of the
file is the order of the enqueues.

A record refused at a cap was never enqueued, so no bound on the number of
records is assumed.
-/
namespace TrwMemory.Sync

open Library Library.Transition

/-- Pairwise distinct keys, and no `clear`. -/
def FreshKeys (s : QueueState) : QueueEvent → Prop
  | .enqueue entryId _ _ now => (entryId, now) ∉ s.history.enqueued
  | .clear => False
  | .drainBegin _ | .publish _ | .drainCommit | .drainAbort => True

instance (s : QueueState) : (e : QueueEvent) → Decidable (FreshKeys s e)
  | .enqueue entryId _ _ now => inferInstanceAs (Decidable ((entryId, now) ∉ s.history.enqueued))
  | .clear => isFalse id
  | .drainBegin _ | .publish _ | .drainCommit | .drainAbort => isTrue trivial

/-- A drain in flight against the records now in the file: `processed` is the part
of its snapshot the loop has left, `arrivals` came after the snapshot. -/
structure Drain.Follows (d : Drain) (processed arrivals records : List QueueRecord)
    (h : QueueHistory) : Prop where
  entries : d.entries = processed ++ d.todo
  records : records = d.entries ++ arrivals
  kept : (d.remaining.map QueueRecord.key).Sublist (processed.map QueueRecord.key)
  settled : ∀ r ∈ processed,
    r.key ∈ d.remaining.map QueueRecord.key ∨ r.key ∈ h.published ∨ r.key ∈ h.dropped
  counted : ∀ r ∈ d.remaining, r.retryCount ≤ (h.failures.count r.key : Int)
  untouched : (processed.filter fun r => !d.handles r).Sublist d.remaining

structure QueueState.Intact (s : QueueState) : Prop where
  written : s.file = writeAll (readAll s.file)
  unique : s.history.enqueued.Nodup
  ordered : s.keys.Sublist s.history.enqueued
  accounted : ∀ k ∈ s.history.enqueued,
    k ∈ s.keys ∨ k ∈ s.history.published ∨ k ∈ s.history.dropped
  counted : ∀ r ∈ readAll s.file, r.retryCount ≤ (s.history.failures.count r.key : Int)
  limit : ∀ k ∈ s.history.dropped, MAX_RETRIES ≤ (s.history.failures.count k : Int)
  inFlight : ∀ d, s.drain = some d →
    ∃ processed arrivals, d.Follows processed arrivals (readAll s.file) s.history

theorem intact_empty : QueueState.empty.Intact where
  written := rfl
  unique := List.nodup_nil
  ordered := List.nil_sublist _
  accounted _ hk := nomatch hk
  counted _ hr := nomatch hr
  limit _ hk := nomatch hk
  inFlight _ hd := nomatch hd

variable {s t : QueueState}

theorem Drain.begin_follows {owns : Option (Payload → Bool)} {file : List RawLine} {d : Drain}
    (h : QueueHistory) (hd : Drain.begin owns file = some d) :
    d.Follows [] [] (readAll file) h := by
  obtain ⟨hentries, htodo, hrem⟩ := Drain.begin_eq hd
  exact
    { entries := by rw [hentries, htodo, List.nil_append]
      records := by rw [hentries, List.append_nil]
      kept := by rw [hrem, List.map_nil]
      settled := fun _ hm => nomatch hm
      counted := fun _ hm => nomatch hrem ▸ hm
      untouched := List.nil_sublist _ }

private theorem count_append_le (failures : List RecordKey) (k k' : RecordKey) :
    (failures.count k' : Int) ≤ ((failures ++ [k]).count k' : Int) := by
  rw [List.count_append]
  omega

/-- One record of the loop, whatever became of it. -/
theorem Drain.process_follows {d : Drain} {processed arrivals records todo : List QueueRecord}
    {r : QueueRecord} {h : QueueHistory} (outcome : PublishOutcome)
    (hf : d.Follows processed arrivals records h) (htodo : d.todo = r :: todo)
    (hr : r.retryCount ≤ (h.failures.count r.key : Int)) :
    Drain.Follows { d.process r outcome with todo } (processed ++ [r]) arrivals records
      (h.attempt d r outcome) := by
  have hentries : d.entries = (processed ++ [r]) ++ todo := by
    rw [hf.entries, htodo, List.append_assoc, List.singleton_append]
  have hhandles : ∀ q, Drain.handles { d.process r outcome with todo } q = d.handles q := by
    intro q
    simp [Drain.handles, Drain.owned]
  have huntouched : ∀ remaining : List QueueRecord, d.remaining.Sublist remaining →
      (d.handles r = false → remaining = d.remaining ++ [r]) →
      ((processed ++ [r]).filter fun q => !d.handles q).Sublist remaining := by
    intro remaining hsub hlast
    rw [List.filter_append]
    cases hh : d.handles r with
    | true => simpa [hh] using hf.untouched.trans hsub
    | false =>
        rw [hlast hh]
        simpa [hh] using hf.untouched
  refine
    { entries := by simpa using hentries
      records := by simpa using hf.records
      kept := d.process_remaining_keys r outcome hf.kept
      settled := ?_
      counted := ?_
      untouched := ?_ }
  · intro q hq
    rw [List.mem_append, List.mem_singleton] at hq
    obtain ⟨hrem, -, hh⟩ | ⟨hrem, -, hh⟩ | ⟨hrem, -, hh⟩ | ⟨error, payload, hrem, -, hh⟩ :=
      d.process_cases r outcome h
    all_goals
      simp only [hrem, hh, List.map_append, List.mem_append, List.map_cons, List.map_nil,
        List.mem_singleton, Drain.failedRecord]
      rcases hq with hq | rfl
      · rcases hf.settled q hq with hk | hk | hk <;> simp [hk]
      · simp [QueueRecord.key]
  · intro q hq
    obtain ⟨hrem, -, hh⟩ | ⟨hrem, -, hh⟩ | ⟨hrem, -, hh⟩ | ⟨error, payload, hrem, -, hh⟩ :=
      d.process_cases r outcome h
    · rw [hh]
      exact hf.counted q (hrem ▸ hq)
    · rw [hh]
      exact hf.counted q (hrem ▸ hq)
    · rw [hh]
      have hq' : q ∈ d.remaining ++ [r] := hrem ▸ hq
      rcases List.mem_append.mp hq' with hq' | hq'
      · exact hf.counted q hq'
      · rwa [List.mem_singleton.mp hq']
    · rw [hh]
      have hq' : q ∈ d.remaining ++ [Drain.failedRecord r error payload] := hrem ▸ hq
      rcases List.mem_append.mp hq' with hq' | hq'
      · exact (hf.counted q hq').trans (count_append_le _ _ _)
      · rw [List.mem_singleton.mp hq', failedRecord_key, List.count_append]
        simp only [Drain.failedRecord, List.count_singleton_self]
        omega
  · simp only [hhandles]
    obtain ⟨hrem, he, -⟩ | ⟨hrem, ho, -⟩ | ⟨hrem, -, -⟩ | ⟨error, payload, hrem, ho, -⟩ :=
      d.process_cases r outcome h
    · exact huntouched _ (hrem ▸ List.Sublist.refl _) (by simp [Drain.handles, he])
    · exact huntouched _ (hrem ▸ List.Sublist.refl _) (by simp [Drain.handles, ho])
    · exact huntouched _ (hrem ▸ List.sublist_append_left _ _) fun _ => hrem
    · exact huntouched _ (hrem ▸ List.sublist_append_left _ _) (by simp [Drain.handles, ho])

/-- What the rewrite leaves, when keys are distinct: the loop's records and then
the arrivals. -/
theorem Drain.commit_follows {d : Drain} {processed arrivals : List QueueRecord}
    {file : List RawLine} {h : QueueHistory}
    (hf : d.Follows processed arrivals (readAll file) h)
    (hunique : ((readAll file).map QueueRecord.key).Nodup) :
    readAll (d.commit file) = d.remaining ++ arrivals := by
  have hnew : arrivals.filter (fun r => !(d.entries.map QueueRecord.key).contains r.key) =
      arrivals := by
    rw [List.filter_eq_self]
    intro r hr
    rw [hf.records, List.map_append] at hunique
    have hdisjoint : r.key ∉ d.entries.map QueueRecord.key := fun hmem =>
      (List.nodup_append.mp hunique).2.2 _ hmem _ (List.mem_map_of_mem hr) rfl
    simpa using hdisjoint
  rw [d.commit_records hf.records, hnew]

theorem intact_enqueue (hs : s.Intact) {entryId : String} {payload : Payload}
    {revision : Option (Int × String)} {now : String}
    (hfresh : (entryId, now) ∉ s.history.enqueued)
    (ht : t = { s with
      file := writeAll (readAll s.file ++ [newRecord entryId payload revision now])
      history := s.history.enqueue (entryId, now) }) : t.Intact := by
  subst ht
  have hkeys : ((readAll s.file ++ [newRecord entryId payload revision now]).map
      QueueRecord.key) = s.keys ++ [(entryId, now)] := by
    rw [List.map_append]
    rfl
  refine
    { written := by simp
      unique := ?_
      ordered := ?_
      accounted := ?_
      counted := ?_
      limit := hs.limit
      inFlight := ?_ }
  · exact List.nodup_append.mpr
      ⟨hs.unique, List.nodup_singleton _, fun _ ha _ hb =>
        fun heq => hfresh ((heq.trans (List.mem_singleton.mp hb)) ▸ ha)⟩
  · simp only [QueueState.keys, readAll_writeAll, hkeys, QueueHistory.enqueue]
    exact hs.ordered.append (List.Sublist.refl _)
  · intro k hk
    simp only [QueueState.keys, readAll_writeAll, hkeys]
    rcases List.mem_append.mp hk with hk | hk
    · rcases hs.accounted k hk with h | h | h
      · exact .inl (List.mem_append_left _ h)
      · exact .inr (.inl h)
      · exact .inr (.inr h)
    · exact .inl (List.mem_append_right _ hk)
  · intro r hr
    simp only [readAll_writeAll, List.mem_append, List.mem_singleton] at hr
    rcases hr with hr | rfl
    · exact hs.counted r hr
    · exact Int.natCast_nonneg _
  · intro d hd
    obtain ⟨processed, arrivals, hf⟩ := hs.inFlight d hd
    refine ⟨processed, arrivals ++ [newRecord entryId payload revision now], ?_⟩
    refine { hf with records := ?_, settled := hf.settled, counted := hf.counted }
    rw [readAll_writeAll, hf.records, List.append_assoc]

theorem intact_publish (hs : s.Intact) {outcome : PublishOutcome} {d : Drain} {r : QueueRecord}
    {todo : List QueueRecord} (hd : s.drain = some d) (htodo : d.todo = r :: todo)
    (ht : t = { s with
      drain := some { d.process r outcome with todo }
      history := s.history.attempt d r outcome }) : t.Intact := by
  subst ht
  obtain ⟨processed, arrivals, hf⟩ := hs.inFlight d hd
  have hr : r ∈ readAll s.file := by
    rw [hf.records, hf.entries, htodo]
    simp
  have hcount : r.retryCount ≤ (s.history.failures.count r.key : Int) := hs.counted r hr
  have hflight : ∀ d', some { d.process r outcome with todo } = some d' →
      ∃ processed arrivals, d'.Follows processed arrivals (readAll s.file)
        (s.history.attempt d r outcome) := by
    intro d' hd'
    cases hd'
    exact ⟨processed ++ [r], arrivals, Drain.process_follows outcome hf htodo hcount⟩
  have hacc : ∀ h : QueueHistory, h.enqueued = s.history.enqueued →
      (∀ k ∈ s.history.published, k ∈ h.published) →
      (∀ k ∈ s.history.dropped, k ∈ h.dropped) →
      ∀ k ∈ h.enqueued, k ∈ s.keys ∨ k ∈ h.published ∨ k ∈ h.dropped := by
    intro h he hp hdr k hk
    rcases hs.accounted k (he ▸ hk) with hk | hk | hk
    · exact .inl hk
    · exact .inr (.inl (hp k hk))
    · exact .inr (.inr (hdr k hk))
  obtain ⟨-, he, hh⟩ | ⟨-, -, hh⟩ | ⟨-, -, hh⟩ | ⟨error, payload, -, -, hh⟩ :=
    d.process_cases r outcome s.history
  all_goals rw [hh] at hflight ⊢
  · refine
      { hs with
        accounted := hacc _ rfl (fun _ => id) fun _ => List.mem_append_left _
        limit := ?_
        inFlight := hflight }
    intro k hk
    rcases List.mem_append.mp hk with hk | hk
    · exact hs.limit k hk
    · rw [List.mem_singleton.mp hk]
      exact (of_decide_eq_true he).trans hcount
  · exact
      { hs with
        accounted := hacc _ rfl (fun _ => List.mem_append_left _) fun _ => id
        inFlight := hflight }
  · exact { hs with inFlight := hflight }
  · exact
      { hs with
        counted := fun q hq => (hs.counted q hq).trans (count_append_le _ _ _)
        limit := fun k hk => (hs.limit k hk).trans (count_append_le _ _ _)
        inFlight := hflight }

theorem intact_drainCommit (hs : s.Intact) {d : Drain} (hd : s.drain = some d)
    (htodo : d.todo = []) (ht : t = { s with file := d.commit s.file, drain := none }) :
    t.Intact := by
  subst ht
  obtain ⟨processed, arrivals, hf⟩ := hs.inFlight d hd
  have hrecords := Drain.commit_follows hf (hs.ordered.nodup hs.unique)
  have hentries : d.entries = processed := by
    rw [hf.entries, htodo, List.append_nil]
  have hbefore : s.keys = processed.map QueueRecord.key ++ arrivals.map QueueRecord.key := by
    rw [QueueState.keys, hf.records, hentries, List.map_append]
  have hafter : (readAll (d.commit s.file)).map QueueRecord.key =
      d.remaining.map QueueRecord.key ++ arrivals.map QueueRecord.key := by
    rw [hrecords, List.map_append]
  refine
    { hs with
      written := by simp [Drain.commit]
      ordered := ?_
      accounted := ?_
      counted := ?_
      inFlight := by simp }
  · have hsub : ((readAll (d.commit s.file)).map QueueRecord.key).Sublist s.keys := by
      rw [hafter, hbefore]
      exact hf.kept.append (List.Sublist.refl _)
    exact hsub.trans hs.ordered
  · intro k hk
    simp only [QueueState.keys, hafter, List.mem_append]
    rcases hs.accounted k hk with hk | hk
    · rw [hbefore, List.mem_append] at hk
      rcases hk with hk | hk
      · obtain ⟨r, hr, rfl⟩ := List.mem_map.mp hk
        rcases hf.settled r hr with h | h
        · exact .inl (.inl h)
        · exact .inr h
      · exact .inl (.inr hk)
    · exact .inr hk
  · intro r hr
    rcases List.mem_append.mp (hrecords ▸ hr) with hr | hr
    · exact hf.counted r hr
    · exact hs.counted r (hf.records ▸ List.mem_append_right _ hr)

theorem intact_preserved : retryQueue.Preserves FreshKeys QueueState.Intact := by
  intro s e t hs hfresh hstep
  cases e with
  | enqueue entryId payload revision now =>
      rcases QueueState.step_enqueue hstep with rfl | ⟨-, ht⟩
      · exact hs
      · exact intact_enqueue hs hfresh ht
  | drainBegin owns =>
      obtain ⟨-, rfl⟩ := QueueState.step_drainBegin hstep
      refine { hs with inFlight := ?_ }
      intro d hd
      exact ⟨[], [], Drain.begin_follows s.history hd⟩
  | publish outcome =>
      obtain ⟨d, r, todo, hd, htodo, ht⟩ := QueueState.step_publish hstep
      exact intact_publish hs hd htodo ht
  | drainCommit =>
      obtain ⟨d, hd, htodo, ht⟩ := QueueState.step_drainCommit hstep
      exact intact_drainCommit hs hd htodo ht
  | drainAbort =>
      obtain rfl := QueueState.step_drainAbort hstep
      exact { hs with inFlight := fun _ h => nomatch h }
  | clear => exact hfresh.elim

/-- A record that the step spends something on: one of the snapshot being merged,
that its drain owns or evicts. -/
def QueueState.handledBy (s : QueueState) (e : QueueEvent) (r : QueueRecord) : Bool :=
  match e, s.drain with
  | .drainCommit, some d => (d.entries.map QueueRecord.key).contains r.key && d.handles r
  | _, _ => false

/-- Lines that no drain spends anything on. -/
def QueueState.untouchedBy (s : QueueState) (e : QueueEvent) : List RawLine :=
  s.file.filter fun line => !line.parse.any (s.handledBy e)

private theorem filter_writeAll (p : QueueRecord → Bool) (rs : List QueueRecord) :
    ((writeAll rs).filter fun line => !line.parse.any p) =
      writeAll (rs.filter fun r => !p r) := by
  induction rs with
  | nil => rfl
  | cons r rs ih =>
      have hr : RawLine.parse (.json r.toJson) = some r := parseRecord_toJson r
      cases hp : p r <;> simpa [writeAll, hr, hp] using ih

/-- A step leaves every line it does not handle as it is, in the order it had. -/
theorem untouchedBy_sublist (hs : s.Intact) {e : QueueEvent} (hfresh : FreshKeys s e)
    (hstep : s.step e = some t) : (s.untouchedBy e).Sublist t.file := by
  cases e with
  | enqueue entryId payload revision now =>
      refine List.filter_sublist.trans ?_
      rcases QueueState.step_enqueue hstep with rfl | ⟨-, rfl⟩
      · exact List.Sublist.refl _
      · rw [hs.written, writeAll_append, readAll_writeAll]
        exact List.sublist_append_left _ _
  | drainBegin owns =>
      obtain ⟨-, rfl⟩ := QueueState.step_drainBegin hstep
      exact List.filter_sublist
  | publish outcome =>
      obtain ⟨d, r, todo, -, -, rfl⟩ := QueueState.step_publish hstep
      exact List.filter_sublist
  | drainCommit =>
      obtain ⟨d, hd, htodo, rfl⟩ := QueueState.step_drainCommit hstep
      obtain ⟨processed, arrivals, hf⟩ := hs.inFlight d hd
      have hentries : d.entries = processed := by
        rw [hf.entries, htodo, List.append_nil]
      have hrecords := Drain.commit_follows hf (hs.ordered.nodup hs.unique)
      have hwritten : d.commit s.file = writeAll (d.remaining ++ arrivals) := by
        rw [← hrecords, Drain.commit, readAll_writeAll]
      have hold : processed.filter (fun r => !s.handledBy .drainCommit r) =
          processed.filter fun r => !d.handles r := by
        apply List.filter_congr
        intro r hr
        have hmem : (d.entries.map QueueRecord.key).contains r.key = true := by
          rw [hentries]
          simpa using ⟨r, hr, rfl⟩
        simp only [QueueState.handledBy, hd, hmem, Bool.true_and]
      have hbefore : s.untouchedBy .drainCommit =
          writeAll ((processed.filter fun r => !d.handles r) ++
            arrivals.filter fun r => !s.handledBy .drainCommit r) := by
        rw [QueueState.untouchedBy, hs.written, filter_writeAll, hf.records, hentries,
          List.filter_append, hold]
      rw [hbefore]
      change List.Sublist _ (d.commit s.file)
      rw [hwritten]
      exact (hf.untouched.append List.filter_sublist).map _
  | drainAbort =>
      obtain rfl := QueueState.step_drainAbort hstep
      exact List.filter_sublist
  | clear => exact hfresh.elim

/-- Every run of enqueues and drains, by any number of instances: a record is in
the file once, or was published, or was evicted after `MAX_RETRIES` failed
publishes; the file keeps the enqueue order; a line that the next step does not
handle stays as it is. -/
theorem retryQueue_delivers {events : List QueueEvent}
    (hfresh : retryQueue.Guarded FreshKeys .empty events)
    (hrun : retryQueue.run .empty events = some s) :
    s.keys.Nodup ∧ s.keys.Sublist s.history.enqueued ∧
      (∀ k ∈ s.history.enqueued, k ∈ s.keys ∨ k ∈ s.history.published ∨
        (k ∈ s.history.dropped ∧ MAX_RETRIES ≤ (s.history.failures.count k : Int))) ∧
      ∀ e t, FreshKeys s e → s.step e = some t → (s.untouchedBy e).Sublist t.file := by
  have hs : s.Intact := retryQueue.run_preserves intact_preserved intact_empty hfresh hrun
  refine ⟨hs.ordered.nodup hs.unique, hs.ordered, ?_, ?_⟩
  · intro k hk
    rcases hs.accounted k hk with h | h | h
    · exact .inl h
    · exact .inr (.inl h)
    · exact .inr (.inr ⟨h, hs.limit k h⟩)
  · intro e t he hstep
    exact untouchedBy_sublist hs he hstep

/-- An enqueue lands in the window of a namespace's drain, which fails one record
and leaves another namespace's alone. -/
def sharedRun : List QueueEvent :=
  [.enqueue "a" [("ns", .str "x")] (some (1, "h")) "t0", .enqueue "b" [("ns", .str "y")] none "t1",
    .drainBegin (some fun payload => (Json.field? "ns" payload).any fun v => v.dumps == "\"x\""),
    .publish (.raised "refused" [("ns", .str "x")]), .enqueue "c" [] none "t2",
    .publish (.returned true []), .drainCommit]

def sharedEnd : QueueState := retryQueue.endState .empty sharedRun

theorem sharedRun_delivers :
    sharedEnd.keys.Nodup ∧ sharedEnd.keys.Sublist sharedEnd.history.enqueued ∧
      (∀ k ∈ sharedEnd.history.enqueued, k ∈ sharedEnd.keys ∨ k ∈ sharedEnd.history.published ∨
        (k ∈ sharedEnd.history.dropped ∧
          MAX_RETRIES ≤ (sharedEnd.history.failures.count k : Int))) ∧
      ∀ e t, FreshKeys sharedEnd e → sharedEnd.step e = some t →
        (sharedEnd.untouchedBy e).Sublist t.file :=
  retryQueue_delivers (by decide +kernel : retryQueue.Guarded FreshKeys .empty sharedRun)
    (retryQueue.run_endState _ _ (by decide +kernel))

end TrwMemory.Sync

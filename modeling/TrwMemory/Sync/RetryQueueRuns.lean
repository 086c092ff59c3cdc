import TrwMemory.Library.Transition
import TrwMemory.Sync.RetryQueue

/-!
Any number of queue instances over one file. Every step holds the file lock for
its whole read-modify-write; a drain holds the drain lock from its snapshot to
its rewrite, so at most one is between the two, and releases the file lock
while it publishes. `history` is what an observer writes down: nothing in the
source reads it.

The caps and the finality of `clear`, which is a step of the machine. Both are enforced where
a record enters the file. A drain rewrites the file from a snapshot, so they hold
in every run whose rewrites put nothing back that a `clear` removed and gain no
more bytes than the file has room for; `clear_undone` is a run that does not.
-/
namespace TrwMemory.Sync

open Library.Transition

abbrev RecordKey := String × String

structure QueueHistory where
  /-- Records whose `enqueue` returned `True`, oldest first. -/
  enqueued : List RecordKey
  /-- Records handed to a publish that returned `True`. -/
  published : List RecordKey
  /-- One item for each publish of the record that failed. -/
  failures : List RecordKey
  /-- Records a drain evicted. -/
  dropped : List RecordKey
  /-- The part of `enqueued` that came after the last `clear`. -/
  sinceClear : List RecordKey

structure QueueState where
  file : List RawLine
  drain : Option Drain
  /-- A `clear` ran after the snapshot of the drain in flight. -/
  clearedInWindow : Bool
  history : QueueHistory

inductive QueueEvent where
  | enqueue (entryId : String) (payload : Payload) (revision : Option (Int × String))
      (now : String)
  | drainBegin (owns : Option (Payload → Bool))
  | publish (outcome : PublishOutcome)
  | drainCommit
  | drainAbort
  | clear

namespace QueueHistory

def enqueue (h : QueueHistory) (k : RecordKey) : QueueHistory :=
  { h with enqueued := h.enqueued ++ [k], sinceClear := h.sinceClear ++ [k] }

def attempt (h : QueueHistory) (d : Drain) (r : QueueRecord) (outcome : PublishOutcome) :
    QueueHistory :=
  if Drain.exhausted r then { h with dropped := h.dropped ++ [r.key] }
  else if !d.owned r then h
  else
    match outcome with
    | .returned true _ => { h with published := h.published ++ [r.key] }
    | _ => { h with failures := h.failures ++ [r.key] }

def clear (h : QueueHistory) : QueueHistory := { h with sinceClear := [] }

end QueueHistory

namespace QueueState

def empty : QueueState where
  file := []
  drain := none
  clearedInWindow := false
  history := { enqueued := [], published := [], failures := [], dropped := [], sinceClear := [] }

def keys (s : QueueState) : List RecordKey := (readAll s.file).map QueueRecord.key

def step (s : QueueState) : QueueEvent → Option QueueState
  | .enqueue entryId payload revision now =>
      let record := newRecord entryId payload revision now
      match enqueue s.file record with
      | (false, _) => some s
      | (true, file) => some { s with file, history := s.history.enqueue record.key }
  | .drainBegin owns =>
      match s.drain with
      | some _ => none
      | none => some { s with drain := Drain.begin owns s.file, clearedInWindow := false }
  | .publish outcome =>
      match s.drain with
      | none => none
      | some d =>
          match d.todo with
          | [] => none
          | r :: todo =>
              some
                { s with
                  drain := some { d.process r outcome with todo }
                  history := s.history.attempt d r outcome }
  | .drainCommit =>
      match s.drain with
      | none => none
      | some d =>
          if d.todo.isEmpty then some { s with file := d.commit s.file, drain := none } else none
  | .drainAbort => s.drain.map fun _ => { s with drain := none }
  | .clear =>
      some { s with file := Sync.clear, clearedInWindow := true, history := s.history.clear }

end QueueState

/-- The queue file and the drain in flight, under every interleaving. -/
def retryQueue : Machine QueueState QueueEvent := ⟨QueueState.step⟩

namespace QueueState

variable {s t : QueueState}

theorem step_enqueue {entryId : String} {payload : Payload} {revision : Option (Int × String)}
    {now : String} (h : s.step (.enqueue entryId payload revision now) = some t) :
    t = s ∨
      (refuses (readAll s.file) (newRecord entryId payload revision now) = false ∧
        t = { s with
          file := writeAll (readAll s.file ++ [newRecord entryId payload revision now])
          history := s.history.enqueue (entryId, now) }) := by
  simp only [step, enqueue] at h
  cases hr : refuses (readAll s.file) (newRecord entryId payload revision now) with
  | true =>
      rw [hr] at h
      exact .inl (Option.some.inj h).symm
  | false =>
      rw [hr] at h
      exact .inr ⟨rfl, (Option.some.inj h).symm⟩

theorem step_drainBegin {owns : Option (Payload → Bool)}
    (h : s.step (.drainBegin owns) = some t) :
    s.drain = none ∧ t = { s with drain := Drain.begin owns s.file, clearedInWindow := false } := by
  simp only [step] at h
  cases hd : s.drain with
  | some d =>
      rw [hd] at h
      cases h
  | none =>
      rw [hd] at h
      exact ⟨rfl, (Option.some.inj h).symm⟩

theorem step_publish {outcome : PublishOutcome} (h : s.step (.publish outcome) = some t) :
    ∃ d r todo, s.drain = some d ∧ d.todo = r :: todo ∧
      t = { s with
        drain := some { d.process r outcome with todo }
        history := s.history.attempt d r outcome } := by
  simp only [step] at h
  cases hd : s.drain with
  | none =>
      rw [hd] at h
      cases h
  | some d =>
      rw [hd] at h
      cases ht : d.todo with
      | nil => simp [ht] at h
      | cons r todo =>
          simp only [ht] at h
          exact ⟨d, r, todo, rfl, ht, (Option.some.inj h).symm⟩

theorem step_drainCommit (h : s.step .drainCommit = some t) :
    ∃ d, s.drain = some d ∧ d.todo = [] ∧
      t = { s with file := d.commit s.file, drain := none } := by
  simp only [step] at h
  cases hd : s.drain with
  | none =>
      rw [hd] at h
      cases h
  | some d =>
      simp only [hd, List.isEmpty_iff] at h
      split at h
      · rename_i htodo
        exact ⟨d, rfl, htodo, (Option.some.inj h).symm⟩
      · cases h

theorem step_drainAbort (h : s.step .drainAbort = some t) : t = { s with drain := none } := by
  simp only [step] at h
  cases hd : s.drain with
  | none => simp [hd] at h
  | some d => simpa [hd] using h.symm

end QueueState

namespace Drain

variable (d : Drain) (r : QueueRecord) (outcome : PublishOutcome)

theorem begin_eq {owns : Option (Payload → Bool)} {file : List RawLine} {d : Drain}
    (h : begin owns file = some d) :
    d.entries = readAll file ∧ d.todo = readAll file ∧ d.remaining = [] := by
  unfold begin at h
  cases hr : readAll file with
  | nil => simp [hr] at h
  | cons r rs =>
      simp only [hr, Option.some.injEq] at h
      subst h
      exact ⟨rfl, rfl, rfl⟩

/-- Records a drain spends something on. The others it keeps as they are. -/
def handles : Bool := exhausted r || d.owned r

@[simp]
theorem process_entries : (d.process r outcome).entries = d.entries := by
  unfold process
  split_ifs
  · rfl
  · rfl
  · split <;> rfl

@[simp]
theorem process_owns : (d.process r outcome).owns = d.owns := by
  unfold process
  split_ifs
  · rfl
  · rfl
  · split <;> rfl

/-- A record leaves the loop evicted, published, or kept under its own key; an
unowned live record is kept as it is. -/
theorem process_cases (h : QueueHistory) :
    ((d.process r outcome).remaining = d.remaining ∧ exhausted r = true ∧
        h.attempt d r outcome = { h with dropped := h.dropped ++ [r.key] }) ∨
      ((d.process r outcome).remaining = d.remaining ∧ d.owned r = true ∧
        h.attempt d r outcome = { h with published := h.published ++ [r.key] }) ∨
      ((d.process r outcome).remaining = d.remaining ++ [r] ∧ d.handles r = false ∧
        h.attempt d r outcome = h) ∨
      ∃ error payload,
        (d.process r outcome).remaining = d.remaining ++ [failedRecord r error payload] ∧
        d.owned r = true ∧
        h.attempt d r outcome = { h with failures := h.failures ++ [r.key] } := by
  by_cases he : exhausted r = true
  · exact .inl (by simp [process, QueueHistory.attempt, he])
  · by_cases ho : d.owned r = true
    · cases outcome with
      | returned success payload =>
          cases success with
          | true => exact .inr (.inl (by simp [process, QueueHistory.attempt, he, ho]))
          | false =>
              refine .inr (.inr (.inr ⟨"publish returned False", payload, ?_⟩))
              simp [process, QueueHistory.attempt, he, ho]
      | raised error payload =>
          refine .inr (.inr (.inr ⟨error, payload, ?_⟩))
          simp [process, QueueHistory.attempt, he, ho]
    · exact .inr (.inr (.inl (by simp [process, QueueHistory.attempt, handles, he, ho])))

/-- The keys the loop keeps are keys it has taken, in order. -/
theorem process_remaining_keys {processed : List QueueRecord}
    (h : (d.remaining.map QueueRecord.key).Sublist (processed.map QueueRecord.key)) :
    ((d.process r outcome).remaining.map QueueRecord.key).Sublist
      ((processed ++ [r]).map QueueRecord.key) := by
  have hkeep : (d.remaining.map QueueRecord.key).Sublist
      ((processed ++ [r]).map QueueRecord.key) := by
    rw [List.map_append]
    exact h.trans (List.sublist_append_left _ _)
  obtain ⟨hrem, -, -⟩ | ⟨hrem, -, -⟩ | ⟨hrem, -, -⟩ | ⟨error, payload, hrem, -, -⟩ :=
    d.process_cases r outcome QueueState.empty.history
  · rw [hrem]
    exact hkeep
  · rw [hrem]
    exact hkeep
  · rw [hrem, List.map_append, List.map_append]
    exact h.append (List.Sublist.refl _)
  · rw [hrem, List.map_append, List.map_append]
    exact h.append (List.Sublist.refl _)

/-- The rewrite of a file that only grew since the snapshot. -/
theorem commit_records {file : List RawLine} {arrivals : List QueueRecord}
    (h : readAll file = d.entries ++ arrivals) :
    readAll (d.commit file) = d.remaining ++
      arrivals.filter fun r => !(d.entries.map QueueRecord.key).contains r.key := by
  have hold : d.entries.filter (fun r => !(d.entries.map QueueRecord.key).contains r.key) = [] := by
    rw [List.filter_eq_nil_iff]
    intro r hr
    simpa using ⟨r, hr, rfl⟩
  simp only [commit, readAll_writeAll, h, List.filter_append, hold, List.nil_append]

end Drain

/-- The file is within both caps, and every record in it was enqueued after the
last `clear`, counting repetitions. -/
structure QueueState.WithinCaps (s : QueueState) : Prop where
  depth : (readAll s.file).length ≤ MAX_QUEUE_DEPTH
  bytes : fileBytes s.file ≤ MAX_QUEUE_BYTES
  cleared : s.keys.Sublist s.history.sinceClear

/-- A rewrite after a `clear` has nothing left to keep, and what the kept records
gained fits in what the others freed and the room below the cap. -/
def RewriteFits (s : QueueState) : QueueEvent → Prop
  | .drainCommit =>
      ∀ d, s.drain = some d →
        (s.clearedInWindow = true → d.remaining.length = 0) ∧
        queuedBytes d.remaining + fileBytes s.file ≤ MAX_QUEUE_BYTES + queuedBytes d.entries
  | .enqueue _ _ _ _ | .drainBegin _ | .publish _ | .drainAbort | .clear => True

instance (s : QueueState) : (e : QueueEvent) → Decidable (RewriteFits s e)
  | .drainCommit =>
      match h : s.drain with
      | none => isTrue fun d hd => nomatch h.symm.trans hd
      | some d =>
          decidable_of_iff
            ((s.clearedInWindow = true → d.remaining.length = 0) ∧
              queuedBytes d.remaining + fileBytes s.file ≤ MAX_QUEUE_BYTES + queuedBytes d.entries)
            (by simp [RewriteFits, h])
  | .enqueue _ _ _ _ | .drainBegin _ | .publish _ | .drainAbort | .clear => isTrue trivial

/-- The loop has taken `processed` and kept some of its keys; unless the file was
cleared, the snapshot is still its first part. -/
structure Drain.Tracks (d : Drain) (processed records : List QueueRecord) (cleared : Bool) :
    Prop where
  entries : d.entries = processed ++ d.todo
  kept : (d.remaining.map QueueRecord.key).Sublist (processed.map QueueRecord.key)
  grows : cleared = false → d.entries <+: records

structure QueueState.Capped (s : QueueState) : Prop extends s.WithinCaps where
  written : s.file = writeAll (readAll s.file)
  inFlight : ∀ d, s.drain = some d →
    ∃ processed, d.Tracks processed (readAll s.file) s.clearedInWindow

theorem capped_empty : QueueState.empty.Capped where
  depth := Nat.zero_le _
  bytes := Nat.zero_le _
  cleared := List.nil_sublist _
  written := rfl
  inFlight _ hd := nomatch hd

variable {s t : QueueState}

theorem QueueState.Capped.fileBytes_eq (hs : s.Capped) :
    fileBytes s.file = queuedBytes (readAll s.file) := by
  conv_lhs => rw [hs.written]
  exact fileBytes_writeAll _

theorem Drain.begin_tracks {owns : Option (Payload → Bool)} {file : List RawLine} {d : Drain}
    (cleared : Bool) (hd : Drain.begin owns file = some d) :
    d.Tracks [] (readAll file) cleared := by
  obtain ⟨hentries, htodo, hrem⟩ := Drain.begin_eq hd
  exact
    { entries := by rw [hentries, htodo, List.nil_append]
      kept := by rw [hrem, List.map_nil]
      grows := fun _ => hentries ▸ List.prefix_rfl }

theorem capped_enqueue (hs : s.Capped) {entryId : String} {payload : Payload}
    {revision : Option (Int × String)} {now : String}
    (hfits : refuses (readAll s.file) (newRecord entryId payload revision now) = false)
    (ht : t = { s with
      file := writeAll (readAll s.file ++ [newRecord entryId payload revision now])
      history := s.history.enqueue (entryId, now) }) : t.Capped := by
  subst ht
  simp only [refuses, Bool.or_eq_false_iff, decide_eq_false_iff_not, not_le, not_lt] at hfits
  refine { depth := ?_, bytes := ?_, cleared := ?_, written := by simp, inFlight := ?_ }
  · simpa [Nat.succ_le_iff] using hfits.1
  · rw [fileBytes_writeAll, queuedBytes_append]
    simpa [queuedBytes] using hfits.2
  · simp only [QueueState.keys, readAll_writeAll, List.map_append, QueueHistory.enqueue]
    exact hs.cleared.append (List.Sublist.refl _)
  · intro d hd
    obtain ⟨processed, htracks⟩ := hs.inFlight d hd
    refine ⟨processed, { htracks with grows := ?_ }⟩
    intro hc
    rw [readAll_writeAll]
    exact (htracks.grows hc).trans (List.prefix_append _ _)

theorem capped_publish (hs : s.Capped) {outcome : PublishOutcome} {d : Drain} {r : QueueRecord}
    {todo : List QueueRecord} (hd : s.drain = some d) (htodo : d.todo = r :: todo)
    (ht : t = { s with
      drain := some { d.process r outcome with todo }
      history := s.history.attempt d r outcome }) : t.Capped := by
  subst ht
  obtain ⟨processed, htracks⟩ := hs.inFlight d hd
  have hcleared : (s.history.attempt d r outcome).sinceClear = s.history.sinceClear := by
    obtain ⟨-, -, hh⟩ | ⟨-, -, hh⟩ | ⟨-, -, hh⟩ | ⟨error, payload, -, -, hh⟩ :=
      d.process_cases r outcome s.history
    all_goals rw [hh]
  refine
    { depth := hs.depth
      bytes := hs.bytes
      cleared := hcleared ▸ hs.cleared
      written := hs.written
      inFlight := ?_ }
  intro d' hd'
  cases hd'
  exact ⟨processed ++ [r],
    { entries := by simpa [htodo] using htracks.entries
      kept := d.process_remaining_keys r outcome htracks.kept
      grows := by simpa using htracks.grows }⟩

/-- After a `clear` only arrivals remain; otherwise the kept records stand where
the snapshot stood. -/
theorem capped_drainCommit (hs : s.Capped) {d : Drain} (hd : s.drain = some d)
    (htodo : d.todo = []) (hfits : RewriteFits s .drainCommit)
    (ht : t = { s with file := d.commit s.file, drain := none }) : t.Capped := by
  subst ht
  obtain ⟨hcleared, hbytes⟩ := hfits d hd
  obtain ⟨processed, htracks⟩ := hs.inFlight d hd
  have hwritten : d.commit s.file = writeAll (readAll (d.commit s.file)) := by simp [Drain.commit]
  have hafter : fileBytes (d.commit s.file) = queuedBytes (readAll (d.commit s.file)) := by
    conv_lhs => rw [hwritten]
    exact fileBytes_writeAll _
  have hcapped : ∀ h : (readAll (d.commit s.file)).length ≤ MAX_QUEUE_DEPTH ∧
      queuedBytes (readAll (d.commit s.file)) ≤ MAX_QUEUE_BYTES ∧
      ((readAll (d.commit s.file)).map QueueRecord.key).Sublist s.keys,
      QueueState.Capped { s with file := d.commit s.file, drain := none } := by
    intro h
    exact
      { depth := h.1
        bytes := hafter ▸ h.2.1
        cleared := h.2.2.trans hs.cleared
        written := hwritten
        inFlight := fun _ hd' => nomatch hd' }
  apply hcapped
  cases hc : s.clearedInWindow with
  | true =>
      have hrem : d.remaining = [] := List.length_eq_zero_iff.mp (hcleared hc)
      have hsub : (readAll (d.commit s.file)).Sublist (readAll s.file) := by
        rw [Drain.commit, readAll_writeAll, hrem, List.nil_append]
        exact List.filter_sublist
      exact ⟨hsub.length_le.trans hs.depth,
        (queuedBytes_sublist hsub).trans (hs.fileBytes_eq ▸ hs.bytes), hsub.map _⟩
  | false =>
      obtain ⟨arrivals, hgrown⟩ := htracks.grows hc
      have hrecords := d.commit_records hgrown.symm
      have hentries : d.entries = processed := by
        rw [htracks.entries, htodo, List.append_nil]
      have hkeys : ((readAll (d.commit s.file)).map QueueRecord.key).Sublist s.keys := by
        rw [hrecords, QueueState.keys, ← hgrown, hentries, List.map_append, List.map_append]
        exact htracks.kept.append (List.filter_sublist.map _)
      refine ⟨?_, ?_, hkeys⟩
      · have hlength := hkeys.length_le
        simp only [QueueState.keys, List.length_map] at hlength
        exact hlength.trans hs.depth
      · have harrived : queuedBytes
            (arrivals.filter fun r => !(d.entries.map QueueRecord.key).contains r.key) ≤
              queuedBytes arrivals :=
          queuedBytes_sublist List.filter_sublist
        rw [hs.fileBytes_eq, ← hgrown, queuedBytes_append] at hbytes
        rw [hrecords, queuedBytes_append]
        omega

theorem capped_preserved : retryQueue.Preserves RewriteFits QueueState.Capped := by
  intro s e t hs hfits hstep
  cases e with
  | enqueue entryId payload revision now =>
      rcases QueueState.step_enqueue hstep with rfl | ⟨hroom, ht⟩
      · exact hs
      · exact capped_enqueue hs hroom ht
  | drainBegin owns =>
      obtain ⟨-, rfl⟩ := QueueState.step_drainBegin hstep
      refine { hs with inFlight := ?_ }
      intro d hd
      exact ⟨[], Drain.begin_tracks false hd⟩
  | publish outcome =>
      obtain ⟨d, r, todo, hd, htodo, ht⟩ := QueueState.step_publish hstep
      exact capped_publish hs hd htodo ht
  | drainCommit =>
      obtain ⟨d, hd, htodo, ht⟩ := QueueState.step_drainCommit hstep
      exact capped_drainCommit hs hd htodo hfits ht
  | drainAbort =>
      obtain rfl := QueueState.step_drainAbort hstep
      exact { hs with inFlight := fun _ h => nomatch h }
  | clear =>
      cases hstep
      refine
        { depth := Nat.zero_le _
          bytes := Nat.zero_le _
          cleared := List.nil_sublist _
          written := rfl
          inFlight := ?_ }
      intro d hd
      obtain ⟨processed, htracks⟩ := hs.inFlight d hd
      exact ⟨processed, { htracks with grows := fun h => nomatch h }⟩

/-- In every run whose rewrites fit, every state reached is within both caps and
holds nothing that the last `clear` removed. -/
theorem retryQueue_withinCaps {events : List QueueEvent}
    (hfits : retryQueue.Guarded RewriteFits .empty events)
    (hrun : retryQueue.run .empty events = some s) : s.WithinCaps :=
  (retryQueue.run_preserves capped_preserved capped_empty hfits hrun).toWithinCaps

def clearedRun : List QueueEvent :=
  [.enqueue "a" [] none "t0", .drainBegin none, .clear, .enqueue "b" [] none "t1",
    .publish (.returned true []), .drainCommit]

theorem clearedRun_withinCaps : (retryQueue.endState .empty clearedRun).WithinCaps :=
  retryQueue_withinCaps (by decide +kernel : retryQueue.Guarded RewriteFits .empty clearedRun)
    (retryQueue.run_endState _ _ (by decide +kernel))

/-- A drain whose record fails puts back what was cleared in its window. -/
def snapshotHeld : QueueState :=
  retryQueue.endState .empty [.enqueue "a" [] none "t0", .drainBegin none]

def failsAfterClear : List QueueEvent := [.clear, .publish (.returned false []), .drainCommit]

theorem clear_undone :
    retryQueue.run .empty [.enqueue "a" [] none "t0", .drainBegin none] = some snapshotHeld ∧
      ("a", "t0") ∈ snapshotHeld.keys ∧
      retryQueue.run snapshotHeld failsAfterClear =
        some (retryQueue.endState snapshotHeld failsAfterClear) ∧
      ("a", "t0") ∈ (retryQueue.endState snapshotHeld failsAfterClear).keys ∧
      ¬ (retryQueue.endState snapshotHeld failsAfterClear).WithinCaps := by
  refine ⟨retryQueue.run_endState _ _ (by decide +kernel), by decide +kernel,
    retryQueue.run_endState _ _ (by decide +kernel), by decide +kernel, ?_⟩
  intro h
  exact absurd h.cleared (by decide +kernel)

end TrwMemory.Sync

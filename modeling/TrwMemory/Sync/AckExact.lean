import TrwMemory.Sync.AckRevision
import TrwMemory.Sync.MarkSynced

/-!
Where the revision-checked acknowledgement is exact. After runs in which the last write that
the hash does not follow comes before a renewal (`follows`), a hash that is set is the hash of
the row as it is read, and a row is stamped exactly when it has the number and the hashed fields
of the published snapshot.

The digest is assumed not to collide on the two contents compared, and never to be
the empty text.
-/
namespace TrwMemory.Sync

open Library.Transition Storage

/-- What holds of the row while its hash is up to date: it is the hash of the row, and a row
without one still has the content of the row at `origin`, which had none either. -/
def RevisionState.Tracked (digest : SyncContent → String) (origin : Option MemoryEntry)
    (s : RevisionState) : Prop :=
  s.LockHeld ∧ ∀ row ∈ s.row, HashCurrent digest row ∧
    (row.syncHash = "" → ∃ old ∈ origin, old.syncHash = "" ∧
      syncContent (readBack row) = syncContent (readBack old))

theorem tracked_here {digest : SyncContent → String} {origin : Option MemoryEntry}
    {s : RevisionState} (h : s.Tracked digest origin) : s.Tracked digest s.row :=
  ⟨h.1, fun row hrow => ⟨(h.2 row hrow).1, fun hempty => ⟨row, hrow, hempty, rfl⟩⟩⟩

theorem tracked_start {digest : SyncContent → String} {row : Option MemoryEntry}
    (h : ∀ r ∈ row, HashCurrent digest r) : (RevisionState.start row).Tracked digest row :=
  ⟨fun _ hpending => (by cases hpending),
    fun r hr => ⟨h r hr, fun hempty => ⟨r, hr, hempty, rfl⟩⟩⟩

theorem RevisionState.Tracked.step {digest : SyncContent → String} (hne : ∀ c, digest c ≠ "")
    {origin : Option MemoryEntry} {s t : RevisionState} {e : RevisionEvent}
    (hs : s.Tracked digest origin) (hkeeps : KeepsHash s e)
    (hstep : s.step digest e = some t) : t.Tracked digest origin := by
  obtain ⟨hlock, hrow⟩ := RevisionState.row_step hs.1 hkeeps hstep
  refine ⟨hlock, ?_⟩
  intro row hmem
  rcases hrow row hmem with hnew | ⟨old, hold, hkept⟩
  · refine ⟨hnew.current, ?_⟩
    intro hempty
    exact absurd (hnew.symm.trans hempty) (hne _)
  · obtain ⟨hcurrent, horigin⟩ := hs.2 old hold
    refine ⟨hkept.current hcurrent, ?_⟩
    intro hempty
    obtain ⟨first, hfirst, hunset, hcontent⟩ := horigin (hkept.1 ▸ hempty)
    exact ⟨first, hfirst, hunset, hkept.2.trans hcontent⟩

/-- A renewal makes up for whatever came before it. -/
theorem tracked_renewed {digest : SyncContent → String} (hne : ∀ c, digest c ≠ "")
    (origin : Option MemoryEntry) {s t : RevisionState} {e : RevisionEvent} (hheld : s.ReadHeld)
    (hrenews : renews digest s e = true) (hstep : s.step digest e = some t) :
    t.Tracked digest origin := by
  obtain ⟨hpending, hrow⟩ := RevisionState.renews_step hheld hrenews hstep
  refine ⟨?_, ?_⟩
  · intro update hupdate
    rw [hpending] at hupdate
    cases hupdate
  · intro row hmem
    have hnew := hrow row hmem
    refine ⟨hnew.current, ?_⟩
    intro hempty
    exact absurd (hnew.symm.trans hempty) (hne _)

/-- Over a run: while the hash is up to date, the row is tracked. -/
theorem tracked_follows {digest : SyncContent → String} (hne : ∀ c, digest c ≠ "")
    {origin : Option MemoryEntry} {events : List RevisionEvent} {upToDate : Bool}
    {s t : RevisionState} (hheld : s.ReadHeld)
    (hs : upToDate = true → s.Tracked digest origin)
    (hrun : (revisionMachine digest).run s events = some t) :
    t.ReadHeld ∧ (follows digest upToDate s events = true → t.Tracked digest origin) := by
  induction events generalizing s upToDate with
  | nil =>
      cases hrun
      exact ⟨hheld, hs⟩
  | cons e events ih =>
      obtain ⟨mid, hmid, hrun⟩ := ((revisionMachine digest).run_cons _ _ _ _).mp hrun
      have hstep : s.step digest e = some mid := hmid
      rw [follows, hstep]
      refine ih (RevisionState.readHeld_step hstep) (fun hfollows => ?_) hrun
      rcases Bool.or_eq_true_iff.mp hfollows with hrenews | hkeeps
      · exact tracked_renewed hne origin hheld hrenews hstep
      · rw [Bool.and_eq_true, decide_eq_true_iff] at hkeeps
        exact (hs hkeeps.1).step hne hkeeps.2 hstep

theorem stillRevision_iff (current : MemoryEntry) (seq : Int) (hash : String) :
    stillRevision current (some (seq, hash)) = true ↔
      current.syncSeq = seq ∧ current.syncHash = hash := by
  rw [stillRevision, beq_iff_eq, Option.some.injEq, Prod.mk.injEq]
  exact and_congr eq_comm eq_comm

/-- Whether an acknowledgement that returns has stamped the row. -/
theorem ackRevision_stamped {digest : SyncContent → String} {row current : MemoryEntry}
    {blocks : MemoryEntry → Bool} {revision : Option Revision} {fields : Patch} {now : Datetime}
    {row' : Option MemoryEntry} {stamped : Bool} (hread : rowToEntry row = some current)
    (h : ackRevision digest (some row) blocks revision fields now = .ok (row', stamped)) :
    (stamped = true ↔ blocks (servedView current) = false ∧
      stillRevision current revision = true) ∧
    (stamped = true → ∃ written ∈ row', written.lastSyncedAt = some now) := by
  simp only [ackRevision, hread] at h
  cases hblocks : blocks (servedView current) with
  | true =>
      rw [if_pos hblocks] at h
      obtain ⟨rfl, rfl⟩ := Prod.mk.inj (Except.ok.inj h)
      simp
  | false =>
      rw [if_neg (by simp [hblocks])] at h
      cases hclean : stillRevision current revision with
      | false =>
          rw [hclean] at h
          cases hupdate : updateRow digest row (ackFields fields false now) now with
          | error _ =>
              rw [hupdate] at h
              cases h
          | ok written =>
              rw [hupdate] at h
              obtain ⟨rfl, rfl⟩ := Prod.mk.inj (Except.ok.inj h)
              simp
      | true =>
          rw [hclean] at h
          cases hupdate : updateRow digest row (ackFields fields true now) now with
          | error _ =>
              rw [hupdate] at h
              cases h
          | ok written =>
              rw [hupdate] at h
              obtain ⟨rfl, rfl⟩ := Prod.mk.inj (Except.ok.inj h)
              refine ⟨by simp, fun _ => ⟨written, rfl, ?_⟩⟩
              have hset : ackFields fields true now .lastSyncedAt = some (some now) :=
                Patch.set_self fields .lastSyncedAt (some now)
              have hnames : namesSync (ackFields fields true now) = true := by
                simp [namesSync, Patch.names, hset]
              rcases updateRow_ok hupdate with ⟨hempty, -⟩ | ⟨-, existing, -, rfl, -⟩
              · have hmem : Column.lastSyncedAt ∈ (ackFields fields true now).fields :=
                  Patch.mem_fields.mpr (by simp [Patch.names, hset])
                rw [List.isEmpty_iff.mp hempty] at hmem
                cases hmem
              · simp only [MemoryEntry.patched, updateFields_named digest _ _ now hnames,
                  datedFields_other _ now (by decide : Column.lastSyncedAt ≠ .updatedAt), hset,
                  Option.getD_some]

/-- A digest for runs on fixed inputs. -/
def fieldDigest (c : SyncContent) : String :=
  "sha256:" ++ c.content ++ (if c.importance = 500000 then "" else " decayed") ++
    if c.invalidFrom.all fun closed => closed.offset == some 0 then "" else " zoned"

theorem fieldDigest_ne (c : SyncContent) : fieldDigest c ≠ "" := by
  intro h
  have hlength := congrArg String.length h
  simp [fieldDigest, String.length_append] at hlength

def revisionAfter (events : List RevisionEvent) : RevisionState :=
  (revisionMachine fieldDigest).endState (.start none) events

def rowOf (s : RevisionState) : MemoryEntry := s.row.getD (draft "" 0)

/-- The acknowledgement in the state `t` of the row read in the state `s`. -/
def ackOf (s t : RevisionState) : Except WriteError (Option MemoryEntry × Bool) :=
  ackRevision fieldDigest t.row (fun _ => false)
    (some ((readBack (rowOf s)).syncSeq, (readBack (rowOf s)).syncHash))
    (Patch.none.set .remoteId (some "r")) ⟨9, some 0⟩

def ackResult (s t : RevisionState) : Option MemoryEntry × Bool :=
  (ackOf s t).toOption.getD (none, false)

def published : RevisionState := revisionAfter [.store (draft "first" 0)]

/-- The row decays, which the hash does not follow, and then an update renews the hash. -/
def renewedEvents : List RevisionEvent :=
  [.store (draft "first" 0), .decay ⟨1, some 0⟩ "unused",
    .updateBegin (Patch.none.set .importance 0) ⟨3, some 0⟩, .updateFinish]

def renewed : RevisionState := revisionAfter renewedEvents

/-- A decay pass that reaches the row, whose importance is zero already. -/
def decayedAgain : RevisionState :=
  (revisionMachine fieldDigest).endState renewed [.decay ⟨2, some 0⟩ "unused"]

/-- An update of a field that is not hashed. -/
def touched : RevisionState :=
  revisionAfter [.store (draft "first" 0),
    .updateBegin (Patch.none.set .accessCount 1) ⟨3, some 0⟩, .updateFinish]

/-- A decay pass that reaches the row. -/
def decayed : RevisionState :=
  revisionAfter [.store (draft "first" 0), .decay ⟨1, some 0⟩ "unused"]

/-- A store that closes the window at an instant given in another zone. -/
def zoned : RevisionState :=
  revisionAfter [.store
    { draft "first" 0 with
      invalidFrom := some ⟨9000000000, some 7200000000⟩
      invalidatedBy := some "b" }]

/-- An update that names a sync field and a hashed one. -/
def numbered : RevisionState :=
  revisionAfter [.store (draft "first" 0),
    .updateBegin ((Patch.none.set .syncSeq 7).set .content "second") ⟨3, some 0⟩, .updateFinish]

end TrwMemory.Sync

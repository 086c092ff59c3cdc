import TrwMemory.Lifecycle.Consolidation

/-!
What a cluster's write step does to a store that others write between its calls, wherever a call
fails: no row is left archived into an entry that is not there, and of all the other rows, and of
all the fields that archival does not write, only the others change anything.
-/
namespace TrwMemory.Lifecycle.Consolidator

open Library Library.Jobs Storage Sync Tools

variable {τ : Type} {c : Consolidator τ} {s : EntryStore} {k : RowKey}

theorem reads_insert (row : MemoryEntry) :
    c.reads (s.insert row) k = if k = rowKey row then c.readRow (some row) else c.reads s k := by
  rw [reads, EntryStore.find_insert]
  split <;> rfl

/-- What is read is the row as it is served. -/
theorem readRow_some {row : Option MemoryEntry} {e : MemoryEntry}
    (h : c.readRow row = .ok (some e)) :
    ∃ stored existing, row = some stored ∧ rowToEntry stored = some existing ∧
      c.blocks (servedView existing) = false ∧ e = servedView existing := by
  unfold readRow at h
  cases row with
  | none => cases h
  | some stored =>
      dsimp only at h
      cases hread : rowToEntry stored with
      | none => rw [hread] at h; cases h
      | some existing =>
          rw [hread] at h
          have h := Except.ok.inj h
          split at h
          · cases h
          · rename_i hblocks
            exact ⟨stored, existing, rfl, hread, Bool.eq_false_iff.mpr hblocks,
              (Option.some.inj h).symm⟩

theorem rowKey_reads {e : MemoryEntry} (h : c.reads s k = .ok (some e)) : rowKey e = k := by
  obtain ⟨stored, existing, hfind, hread, -, rfl⟩ := readRow_some h
  rw [← s.rowKey_find hfind, rowKey, rowKey, servedView_id, servedView_ns, rowToEntry_eq hread]
  rfl

/-- What an update leaves: the store as it was, of a row that reads as absent where it returns, or
the row that it has written. -/
theorem updateEntry_cases (fields : Patch) (now : Datetime) :
    (((c.updateEntry k fields now).run s).2 = s ∧
      ((c.updateEntry k fields now).run s).1 ≠ .ok true ∧
      (((c.updateEntry k fields now).run s).1 = .ok false → c.reads s k = .ok none)) ∨
    ∃ row existing written, s.table.find k = some row ∧ rowToEntry row = some existing ∧
      written = row.patched (updateFields c.digest existing fields now) ∧
      rowToEntry written = some (readBack written) ∧
      (c.updateEntry k fields now).run s = (.ok !c.blocks (readOf written), s.insert written) := by
  unfold Program.run updateEntry
  cases hfind : s.table.find k with
  | none =>
      refine .inl ⟨rfl, nofun, fun _ => ?_⟩
      rw [reads, hfind]
      rfl
  | some row =>
      dsimp only
      cases hread : rowToEntry row with
      | none => exact .inl ⟨rfl, nofun, nofun⟩
      | some existing =>
          dsimp only
          cases hblocks : c.blocks (servedView existing) with
          | true =>
              refine .inl ⟨rfl, nofun, fun _ => ?_⟩
              rw [reads, hfind, readRow]
              simp only [hread, hblocks, if_true]
          | false =>
              simp only [Bool.false_eq_true, if_false]
              cases hwritten : finishUpdate c.digest row existing fields now with
              | error e => exact .inl ⟨rfl, nofun, nofun⟩
              | ok written =>
                  obtain ⟨rfl, hback⟩ := finishUpdate_ok hwritten
                  exact .inr ⟨row, existing, _, rfl, hread, rfl, hback, rfl⟩

theorem rowKey_patched (row : MemoryEntry) (fields : Patch) :
    rowKey (row.patched fields) = rowKey row := rfl

/-- What an update does not do to the other rows. -/
theorem find_updateEntry (fields : Patch) (now : Datetime) {k' : RowKey} (h : k' ≠ k) :
    ((c.updateEntry k fields now).run s).2.table.find k' = s.table.find k' := by
  rcases updateEntry_cases (c := c) (s := s) (k := k) fields now with
    ⟨hsame, -⟩ | ⟨row, existing, written, hfind, -, rfl, -, hrun⟩
  · rw [hsame]
  · rw [hrun, EntryStore.find_insert, rowKey_patched, s.rowKey_find hfind, if_neg h]

/-- `store` leaves the store as it was or inserts the stamped entry. -/
theorem storeEntry_cases (entry : MemoryEntry) :
    ((∃ e, ((c.storeEntry entry).run s).1 = .error e) ∧ ((c.storeEntry entry).run s).2 = s) ∨
      (c.storeEntry entry).run s = (.ok (), s.insert (stampSync c.digest entry)) := by
  unfold Program.run storeEntry
  cases hrow : storeRow c.digest (s.table.find (rowKey entry)) entry with
  | error e => exact .inl ⟨⟨_, rfl⟩, rfl⟩
  | ok row =>
      obtain rfl := storeRow_ok hrow
      exact .inr rfl

/-- The columns of `closeFields` and of `undoFields`. -/
def archivalColumns : List Column :=
  [.consolidatedInto, .status, .updatedAt, .invalidFrom, .invalidatedBy]

theorem closeFields_other {id : String} {closeAt now : Datetime} {entry : MemoryEntry}
    {col : Column}
    (h : col ∉ archivalColumns) : closeFields id closeAt now entry col = none := by
  simp only [archivalColumns, List.mem_cons, List.not_mem_nil, or_false, not_or] at h
  obtain ⟨hinto, hstatus, hupdated, hfrom, hby⟩ := h
  unfold closeFields
  split <;>
    simp only [Patch.set_other _ _ (Ne.symm hby), Patch.set_other _ _ (Ne.symm hfrom),
      Patch.set_other _ _ (Ne.symm hupdated), Patch.set_other _ _ (Ne.symm hstatus),
      Patch.set_other _ _ (Ne.symm hinto)] <;> rfl

theorem undoFields_other {id : String} {entry current : MemoryEntry} {col : Column}
    (h : col ∉ archivalColumns) : undoFields id entry current col = none := by
  simp only [archivalColumns, List.mem_cons, List.not_mem_nil, or_false, not_or] at h
  obtain ⟨hinto, hstatus, hupdated, hfrom, hby⟩ := h
  unfold undoFields
  split <;> split <;> split <;>
    simp [Patch.set_other, Ne.symm hinto, Ne.symm hstatus, Ne.symm hupdated, Ne.symm hfrom,
      Ne.symm hby, Patch.none]

/-- The merge target is put back exactly where it is this cycle's entry. -/
theorem undoFields_consolidatedInto (id : String) (entry current : MemoryEntry) :
    undoFields id entry current .consolidatedInto =
      if current.consolidatedInto = some id then some entry.consolidatedInto else none := by
  unfold undoFields
  split <;> split <;> split <;> simp [Patch.set_other, Patch.none]

/-- A row without the fields that archival writes, and without its sync bookkeeping. -/
def beyondArchival (row : MemoryEntry) : MemoryEntry :=
  { row with
    consolidatedInto := none
    status := .active
    updatedAt := ⟨0, none⟩
    invalidFrom := none
    invalidatedBy := none
    syncSeq := 0
    syncHash := ""
    lastSyncedAt := none }

theorem beyondArchival_updated (digest : SyncContent → String) (row existing : MemoryEntry)
    {fields : Patch} (now : Datetime) (h : ∀ col ∉ archivalColumns, fields col = none) :
    beyondArchival (row.patched (updateFields digest existing fields now)) =
      beyondArchival row := by
  have hnone : ∀ col, col ∉ archivalColumns → col ∉ ownColumns →
      updateFields digest existing fields now col = none := fun col hcol hown =>
    (updateFields_other digest existing fields now hown).trans (h col hcol)
  simp (disch := decide) only [beyondArchival, MemoryEntry.patched, hnone, Option.getD_none]

variable {P R : EntryStore → Prop} {cluster : List MemoryEntry}

section Reading

variable [DecidableEq τ] {good : MemoryEntry → MemoryEntry → Prop}

/-- The rows as they were read, none of them changed since they were clustered. -/
def Current (c : Consolidator τ) (good : MemoryEntry → MemoryEntry → Prop)
    (cluster current : List MemoryEntry) : Prop :=
  List.Forall₂ (fun e now => good e now ∧ revisionOf c.token now = revisionOf c.token e) cluster
    current

theorem length_currentRows (fresh : List (Option MemoryEntry)) (cluster : List MemoryEntry) :
    (c.currentRows fresh cluster).length ≤ cluster.length := by
  refine (List.length_filterMap_le _ _).trans ?_
  rw [List.length_zip]
  exact Nat.min_le_right _ _

theorem current_of_length {fresh : List (Option MemoryEntry)}
    (h : List.Forall₂ (fun e found => ∀ now ∈ found, good e now) cluster fresh)
    (hlength : cluster.length ≤ (c.currentRows fresh cluster).length) :
    Current c good cluster (c.currentRows fresh cluster) := by
  induction h with
  | nil => exact .nil
  | @cons e found cluster fresh hfound hrest ih =>
      have hle := length_currentRows (c := c) fresh cluster
      rw [currentRows, List.zip_cons_cons, List.filterMap_cons] at hlength ⊢
      cases hnow : found.filter fun now => revisionOf c.token now = revisionOf c.token e with
      | none =>
          rw [hnow] at hlength
          exact absurd (hlength.trans hle) (Nat.not_succ_le_self _)
      | some now =>
          rw [hnow] at hlength
          obtain ⟨rfl, hrevision⟩ := Option.filter_eq_some_iff.mp hnow
          exact .cons ⟨hfound now rfl, of_decide_eq_true hrevision⟩
            (ih (Nat.le_of_succ_le_succ hlength))

omit [DecidableEq τ] in
theorem Current.mem {current : List MemoryEntry} (h : Current c good cluster current)
    {now : MemoryEntry} (hnow : now ∈ current) : ∃ e ∈ cluster, good e now := by
  induction h with
  | nil => cases hnow
  | cons hhead _ ih =>
      rcases List.mem_cons.mp hnow with rfl | hrest
      · exact ⟨_, List.mem_cons_self, hhead.1⟩
      · obtain ⟨e, he, hgood⟩ := ih hrest
        exact ⟨e, List.mem_cons_of_mem _ he, hgood⟩

omit [DecidableEq τ] in
theorem Current.covers {current : List MemoryEntry} (h : Current c good cluster current)
    {e : MemoryEntry} (he : e ∈ cluster) :
    ∃ now ∈ current, good e now ∧ revisionOf c.token now = revisionOf c.token e := by
  induction h with
  | nil => cases he
  | cons hhead _ ih =>
      rcases List.mem_cons.mp he with rfl | hrest
      · exact ⟨_, List.mem_cons_self, hhead⟩
      · obtain ⟨now, hnow, hgood⟩ := ih hrest
        exact ⟨now, List.mem_cons_of_mem _ hnow, hgood⟩

omit [DecidableEq τ] in
/-- The rows are read one after the other; what holds of each of them when it is read is known of
all of them. -/
theorem collect_getEntry (hstable : c.setting.Stable P)
    (hgood : ∀ s, P s → ∀ e ∈ cluster, ∀ now, c.reads s (rowKey e) = .ok (some now) → good e now)
    (hraises : ∀ s, P s → R s) :
    Triple P (collect (fun e => call c.setting (c.getEntry (rowKey e))) cluster)
      (fun fresh s => P s ∧ List.Forall₂ (fun e found => ∀ now ∈ found, good e now) cluster fresh)
      R := by
  refine (Triple.collect (fun done fresh s => P s ∧
    List.Forall₂ (fun e found => ∀ now ∈ found, good e now) done fresh) ?_).mono
    (fun s hs => ⟨hs, .nil⟩) (fun _ _ h => h) fun _ h => h
  intro done fresh e rest hitems
  have hmem : e ∈ cluster := hitems ▸ List.mem_append_right done List.mem_cons_self
  refine Triple.call (fun n s hs => ⟨hstable n s hs.1, hs.2⟩) (fun s hs => ?_)
    (fun s hs => hraises s hs.1) fun _ s hs => hraises s hs.1
  unfold Program.run getEntry
  cases hread : c.reads s (rowKey e) with
  | error error => exact hraises s hs.1
  | ok found =>
      refine ⟨hs.1, List.rel_append hs.2 (.cons (fun now hnow => ?_) .nil)⟩
      obtain rfl := Option.mem_def.mp hnow
      exact hgood s hs.1 e hmem now hread

/-- The rule of the write step: what holds when its rows have been read, when its entry has been
written, and at its end. -/
theorem writeCluster_triple {hex ns : String} {chosen : Summary} {vector : Option (List Rat)}
    (good : MemoryEntry → MemoryEntry → Prop) (failed : EntryStore → Prop)
    (created : List MemoryEntry → MemoryEntry → EntryStore → Prop)
    {Q : ClusterOutcome → EntryStore → Prop} (hstable : c.setting.Stable P)
    (hgood : ∀ s, P s → ∀ e ∈ cluster, ∀ now, c.reads s (rowKey e) = .ok (some now) → good e now)
    (hskipped : ∀ s, P s → Q .skipped s) (hraises : ∀ s, P s → R s)
    (hcreate : ∀ current, Current c good cluster current →
      Triple P (c.createConsolidatedEntry hex ns current chosen vector) (created current) failed)
    (hfailed : ∀ ids error s, failed s → Q (.failed ids error) s)
    (harchive : ∀ current new ids, Current c good cluster current →
      Triple (created current new) (c.archiveOrUndo ids current new) Q R) :
    Triple P (c.writeCluster hex ns cluster chosen vector) Q R := by
  refine Triple.bind (collect_getEntry hstable hgood hraises) fun fresh => ?_
  intro w hw
  refine Triple.ite (P := P) (fun _ => Triple.pure hskipped) (fun hlength => ?_) w hw.1
  have hcurrent := current_of_length hw.2 (Nat.not_lt.mp hlength)
  refine Triple.bind (Triple.attempt (R := failed) (S := fun result s =>
    match result with
    | .ok new => created (c.currentRows fresh cluster) new s
    | .error _ => failed s) (hcreate _ hcurrent) fun _ _ h => h) fun result => ?_
  cases result with
  | error error => exact Triple.pure fun s hs => hfailed _ error s hs
  | ok new => exact harchive _ new _ hcurrent

end Reading

/-- An update of the fields of archival, of a row of the cluster, keeps it. -/
def UpdatesKeep (c : Consolidator τ) (keys : List RowKey) (P : EntryStore → Prop) : Prop :=
  ∀ k ∈ keys, ∀ fields : Patch, (∀ col ∉ archivalColumns, fields col = none) →
    ∀ now s, P s → P ((c.updateEntry k fields now).run s).2

theorem UpdatesKeep.mono {keys keys' : List RowKey} (h : UpdatesKeep c keys P)
    (hsub : keys' ⊆ keys) : UpdatesKeep c keys' P := fun k hk => h k (hsub hk)

variable {id : String} {invalidFrom : Datetime}

theorem keeps_archiveOriginals (hstable : c.setting.Stable P)
    (hupdate : UpdatesKeep c (cluster.map rowKey) P) :
    Keeps P (c.archiveOriginals cluster id invalidFrom) := by
  refine Keeps.transaction hstable (Keeps.each fun entry hentry => ?_)
  refine Triple.bind (Triple.reading (Q := fun _ => P) fun _ _ hs => hs) fun now => ?_
  refine Triple.bind (Keeps.call hstable fun s hs => ?_) fun updated => ?_
  · exact hupdate _ (List.mem_map_of_mem hentry) _ (fun col hcol => closeFields_other hcol) now s hs
  · exact Triple.ite (fun _ => Triple.pure fun _ hs => hs) fun _ => Triple.fail fun _ hs => hs

theorem keeps_restoreOriginals (hstable : c.setting.Stable P)
    (hupdate : UpdatesKeep c (cluster.map rowKey) P) : Keeps P (c.restoreOriginals cluster id) := by
  refine Keeps.transaction hstable (Keeps.each fun entry hentry => ?_)
  refine Triple.bind (Keeps.call hstable fun _ hs => hs) fun found => ?_
  cases found with
  | none => exact Triple.pure fun _ hs => hs
  | some current =>
      refine Triple.ite (fun _ => ?_) fun _ => Triple.pure fun _ hs => hs
      refine Triple.bind (Triple.reading (Q := fun _ => P) fun _ _ hs => hs) fun now => ?_
      refine Triple.bind (Keeps.call hstable fun s hs => ?_) fun _ => Triple.pure fun _ hs => hs
      exact hupdate _ (List.mem_map_of_mem hentry) _ (fun col hcol => undoFields_other hcol) now s
        hs

theorem keeps_archiveOrUndo {ids : List String} {new : MemoryEntry} (hstable : c.setting.Stable P)
    (hupdate : UpdatesKeep c (cluster.map rowKey) P)
    (hdelete : ∀ s, P s → P (s.delete (rowKey new))) :
    Keeps P (c.archiveOrUndo ids cluster new) := by
  refine Triple.bind (keeps_archiveOriginals hstable hupdate).attempt fun result => ?_
  cases result with
  | ok u => exact Triple.pure fun _ hs => hs
  | error error =>
      refine Triple.bind (Triple.bind (keeps_restoreOriginals hstable hupdate) fun _ => ?_)
        fun _ => Triple.pure fun _ hs => hs
      refine Triple.bind (Keeps.call hstable fun s hs => hdelete s hs) fun deleted => ?_
      exact Triple.ite (fun _ => Triple.pure fun _ hs => hs) fun _ => Triple.fail fun _ hs => hs

variable {hex ns : String} {now : Datetime} {chosen : Summary}

/-- The key under which the new entry is written. -/
def newKey (hex ns : String) : RowKey := ⟨ns, consolidatedId hex⟩

/-- The new entry stands for itself: nothing is archived into it or out of it. -/
structure IsNew (hex ns : String) (cluster : List MemoryEntry) (new : MemoryEntry) : Prop where
  key : rowKey new = newKey hex ns
  into : new.consolidatedInto = none
  members : new.consolidatedFrom = cluster.map MemoryEntry.id

theorem mergedEntryFields_lineage {fields : Patch} (h : mergedEntryFields cluster = some fields) :
    fields .consolidatedInto = none ∧
      fields .consolidatedFrom = some (cluster.map MemoryEntry.id) := by
  rw [mergedEntryFields] at h
  cases hbest : cluster.argmax MemoryEntry.importance with
  | none => rw [hbest] at h; cases h
  | some best =>
      cases hfirst : cluster.head? with
      | none => rw [hbest, hfirst] at h; cases h
      | some first =>
          rw [hbest, hfirst] at h
          obtain rfl := Option.some.inj h
          exact ⟨rfl, rfl⟩

theorem mergedEntry_isNew {new : MemoryEntry}
    (h : c.mergedEntry hex ns now cluster chosen = some new) : IsNew hex ns cluster new := by
  rw [mergedEntry] at h
  cases hfields : mergedEntryFields cluster with
  | none => rw [hfields] at h; cases h
  | some fields =>
      rw [hfields] at h
      change newEntry _ _ _ _ _ = some new at h
      unfold newEntry at h
      dsimp only at h
      split at h
      · obtain rfl := Option.some.inj h
        obtain ⟨hinto, hfrom⟩ := mergedEntryFields_lineage hfields
        refine ⟨rfl, ?_, ?_⟩
        · change (((fields.set .content chosen.summary).set .detail chosen.detail)
            .consolidatedInto).getD none = none
          rw [Patch.set_other _ _ (by decide), Patch.set_other _ _ (by decide), hinto]
          rfl
        · change (((fields.set .content chosen.summary).set .detail chosen.detail)
            .consolidatedFrom).getD [] = _
          rw [Patch.set_other _ _ (by decide), Patch.set_other _ _ (by decide), hfrom]
          rfl
      · cases h

/-- Where a creation that raises may leave its row: a call fails after it has taken effect, the
vector is written without a transaction, or the scheduling of a graph update raises an error that
is not caught. -/
def Loose (c : Consolidator τ) (vector : Option (List Rat)) : Prop :=
  c.setting.Late ∨ vector.isSome = true ∧ c.setting.atomic = false ∨
    ∃ entry, c.schedules entry = false

theorem entryVector_atomic {text : String} {v : List Rat}
    (h : c.entryVector text = .ok (some v)) : c.setting.atomic = true := by
  unfold entryVector at h
  split at h
  · exact c.vectors_atomic ‹_›
  · cases h

theorem atomic_of_embedding {vector : Option (List Rat)} {text : String} {v : List Rat}
    (hloose : ¬ c.Loose vector)
    (h : vector.elim (c.entryVector text) (.ok ∘ some) = .ok (some v)) :
    c.setting.atomic = true := by
  cases vector with
  | some given =>
      by_contra hatomic
      exact hloose (.inr (.inl ⟨rfl, Bool.eq_false_iff.mpr hatomic⟩))
  | none => exact entryVector_atomic h

/-- The creation: what a store keeps when the new row is written, and what holds of it then. -/
theorem createConsolidatedEntry_triple {vector : Option (List Rat)}
    {Q : MemoryEntry → EntryStore → Prop}
    (hstable : c.setting.Stable P)
    (hstableQ : ∀ new, IsNew hex ns cluster new → c.setting.Stable (Q new))
    (hstore : ∀ new, IsNew hex ns cluster new → ∀ s, P s →
      Q new (s.insert (stampSync c.digest new)))
    (hraises : ∀ s, P s → R s) (hwritten : c.Loose vector → ∀ new s, Q new s → R s) :
    Triple P (c.createConsolidatedEntry hex ns cluster chosen vector)
      (fun new s => IsNew hex ns cluster new ∧ Q new s) R := by
  refine Triple.bind (Triple.reading (Q := fun _ => P) fun _ _ hs => hs) fun now => ?_
  cases hmerged : c.mergedEntry hex ns now cluster chosen with
  | none => exact Triple.fail hraises
  | some new =>
      have hnew := mergedEntry_isNew hmerged
      dsimp only
      cases hembedding : vector.elim (c.entryVector (new.content ++ " " ++ new.detail))
          (.ok ∘ some) with
      | error error => exact Triple.fail hraises
      | ok embedding =>
          refine Triple.bind (Q := fun _ => Q new) ?_ fun _ => Triple.ite
            (fun _ => Triple.pure fun s hs => ⟨hnew, hs⟩) fun hraised => Triple.fail fun s hs => ?_
          rotate_left
          · exact hwritten (.inr (.inr ⟨new, by simpa using hraised⟩)) new s hs
          have hrow : Triple P (call c.setting (c.storeEntry new)) (fun _ => Q new) R := by
            refine Triple.call hstable (fun s hs => ?_) hraises fun hlate s hs => ?_
            · rcases storeEntry_cases (c := c) (s := s) new with ⟨⟨e, herror⟩, hsame⟩ | hrun
              · rw [show (c.storeEntry new).run s = (.error e, s) from Prod.ext herror hsame]
                exact hraises s hs
              · rw [hrun]
                exact hstore new hnew s hs
            · rcases storeEntry_cases (c := c) (s := s) new with ⟨-, hsame⟩ | hrun
              · rw [hsame]
                exact hraises s hs
              · rw [hrun]
                exact hwritten (.inl hlate) new _ (hstore new hnew s hs)
          by_cases hloose : c.Loose vector
          · refine Triple.transaction hstable (Triple.bind hrow fun _ => ?_) hraises
              fun _ _ s hs => hwritten hloose new s hs
            refine Triple.ite (fun _ => ?_) fun _ => Triple.pure fun _ hs => hs
            exact Triple.call (hstableQ new hnew) (fun s hs => hs)
              (fun s hs => hwritten hloose new s hs) fun _ s hs => hwritten hloose new s hs
          · have hlate : ¬ c.setting.Late := fun h => hloose (.inl h)
            cases embedding with
            | none =>
                exact Triple.transaction hstable
                  (Triple.bind hrow fun _ => Triple.pure fun _ hs => hs)
                  hraises fun h => absurd h hlate
            | some v =>
                have hatomic := atomic_of_embedding hloose hembedding
                refine (Triple.atomically (R := fun _ => True) hatomic hlate hstable
                  (Triple.bind (hrow.mono (fun _ hs => hs) (fun _ _ hs => hs) fun _ _ => trivial)
                    fun _ => ?_)).mono (fun _ hs => hs) (fun _ _ hs => hs) hraises
                exact Triple.call (hstableQ new hnew) (fun s hs => hs) (fun _ _ => trivial)
                  fun _ _ _ => trivial

end TrwMemory.Lifecycle.Consolidator

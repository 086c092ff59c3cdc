import TrwMemory.Lifecycle.ConsolidationUndo

/-!
Whole write steps of a cluster, among other writers and with failing calls. The others alone decide
what becomes of every other row and of every field that archival does not write; a row that is
archived into the new entry finds it there; and where nobody else writes the cluster's rows, a step
that fails has left each of them as it was read.
-/
namespace TrwMemory.Lifecycle.Consolidator

open Library Library.Jobs Storage Sync Tools

variable {τ : Type} {c : Consolidator τ} {hex ns : String}
  {cluster : List MemoryEntry} {chosen : Summary} {vector : Option (List Rat)}
  {w : World EntryStore}

/-- The store without what a write step of the rows `keys` may write. -/
def beside (new : RowKey) (keys : List RowKey) (s : EntryStore) : RowKey → Option MemoryEntry :=
  fun k =>
    if k = new then none
    else if k ∈ keys then (s.table.find k).map beyondArchival
    else s.table.find k

theorem beside_updateEntry {new k : RowKey} {keys : List RowKey} {fields : Patch} {now : Datetime}
    {s : EntryStore} (hk : k ∈ keys) (hfields : ∀ col ∉ archivalColumns, fields col = none) :
    beside new keys ((c.updateEntry k fields now).run s).2 = beside new keys s := by
  funext k'
  unfold beside
  by_cases hkk : k' = k
  · subst hkk
    rw [if_pos hk, if_pos hk]
    rcases updateEntry_cases (c := c) (s := s) (k := k') fields now with
      ⟨hsame, -⟩ | ⟨row, existing, written, hfind, -, rfl, -, hrun⟩
    · rw [hsame]
    · rw [hrun, EntryStore.find_insert, rowKey_patched, s.rowKey_find hfind, if_pos rfl, hfind,
        Option.map_some, Option.map_some, beyondArchival_updated _ _ _ now hfields]
  · rw [find_updateEntry fields now hkk]

theorem beside_insert {new : RowKey} {keys : List RowKey} {s : EntryStore} (row : MemoryEntry)
    (h : rowKey row = new) : beside new keys (s.insert row) = beside new keys s := by
  funext k
  unfold beside
  by_cases hk : k = new
  · rw [if_pos hk, if_pos hk]
  · rw [if_neg hk, if_neg hk, EntryStore.find_insert, h, if_neg hk]

theorem beside_delete {new : RowKey} {keys : List RowKey} {s : EntryStore} :
    beside new keys (s.delete new) = beside new keys s := by
  funext k
  unfold beside
  by_cases hk : k = new
  · rw [if_pos hk, if_pos hk]
  · rw [if_neg hk, if_neg hk, EntryStore.find_delete, beq_false_of_ne hk]
    rfl

/-- Other rows and other fields: what the others make of them is what becomes of them. -/
theorem writeCluster_beside [DecidableEq τ] {I : (RowKey → Option MemoryEntry) → Prop}
    (hothers : ∀ n s, I (beside (newKey hex ns) (cluster.map rowKey) s) →
      I (beside (newKey hex ns) (cluster.map rowKey) (c.setting.others n s)))
    (h : I (beside (newKey hex ns) (cluster.map rowKey) w.store)) :
    I (beside (newKey hex ns) (cluster.map rowKey)
      ((c.writeCluster hex ns cluster chosen vector).run w).2.store) := by
  have hkeeps : Keeps (fun s => I (beside (newKey hex ns) (cluster.map rowKey) s))
      (c.writeCluster hex ns cluster chosen vector) := by
    refine writeCluster_triple (fun _ now => rowKey now ∈ cluster.map rowKey)
      (fun s => I (beside (newKey hex ns) (cluster.map rowKey) s))
      (fun current new s => IsNew hex ns current new ∧
        I (beside (newKey hex ns) (cluster.map rowKey) s)) hothers ?_ (fun _ hs => hs)
      (fun _ hs => hs) ?_ (fun _ _ _ hs => hs) ?_
    · intro s _ e he now hread
      rw [rowKey_reads hread]
      exact List.mem_map_of_mem he
    · intro current _
      refine createConsolidatedEntry_triple hothers (fun _ _ => hothers) ?_ (fun _ hs => hs)
        fun _ _ _ hs => hs
      intro new hnew s hs
      rwa [beside_insert (stampSync c.digest new) hnew.key]
    · intro current new ids hcurrent w' hw'
      have hkeys : current.map rowKey ⊆ cluster.map rowKey := by
        intro k hk
        obtain ⟨e, he, rfl⟩ := List.mem_map.mp hk
        obtain ⟨_, -, hkey⟩ := hcurrent.mem he
        exact hkey
      refine keeps_archiveOrUndo hothers (UpdatesKeep.mono ?_ hkeys) ?_ w' hw'.2
      · intro k hk fields hfields now s hs
        rwa [beside_updateEntry hk hfields]
      · intro s hs
        rw [hw'.1.key]
        rwa [beside_delete]
  exact hkeeps.run h

variable (c) in
/-- A row that reads as archived into the entry of an id. -/
def Into (id : String) (s : EntryStore) (k : RowKey) : Prop :=
  ∃ e, c.reads s k = .ok (some e) ∧ e.consolidatedInto = some id

variable (c) in
/-- No row reads so. -/
def Clear (id : String) (s : EntryStore) : Prop := ∀ k, ¬ c.Into id s k

variable (c) in
/-- Rows of `keys` at most read so, and the new entry is there. -/
def Linked (hex ns : String) (keys : List RowKey) (s : EntryStore) : Prop :=
  (∀ k, c.Into (consolidatedId hex) s k → k ∈ keys) ∧ s.holdsId (newKey hex ns) = true

variable (c) in
/-- The others archive no row into the entry, show none that is, and leave the entry. -/
structure LeavesEntry (hex ns : String) : Prop where
  into : ∀ n s k, c.Into (consolidatedId hex) (c.setting.others n s) k →
    c.Into (consolidatedId hex) s k
  entry : ∀ n s, s.holdsId (newKey hex ns) = true →
    (c.setting.others n s).holdsId (newKey hex ns) = true

theorem into_of_find {id : String} {s s' : EntryStore} {k : RowKey}
    (hfind : s'.table.find k = s.table.find k) (h : c.Into id s' k) : c.Into id s k := by
  obtain ⟨e, hread, hinto⟩ := h
  refine ⟨e, ?_, hinto⟩
  rwa [reads, ← hfind]

theorem holdsId_updateEntry {k new : RowKey} {fields : Patch} {now : Datetime} {s : EntryStore}
    (h : s.holdsId new = true) : ((c.updateEntry k fields now).run s).2.holdsId new = true := by
  rcases updateEntry_cases (c := c) (s := s) (k := k) fields now with
    ⟨hsame, -⟩ | ⟨row, existing, written, hfind, -, rfl, -, hrun⟩
  · rwa [hsame]
  · rw [hrun, EntryStore.holdsId, EntryStore.find_insert]
    split
    · rfl
    · exact h

theorem linked_updateEntry {k : RowKey} {keys : List RowKey} (fields : Patch) (now : Datetime)
    {s : EntryStore} (hk : k ∈ keys) (h : c.Linked hex ns keys s) :
    c.Linked hex ns keys ((c.updateEntry k fields now).run s).2 := by
  refine ⟨fun k' hinto => ?_, holdsId_updateEntry h.2⟩
  by_cases hkk : k' = k
  · rw [hkk]
    exact hk
  · exact h.1 k' (into_of_find (find_updateEntry fields now hkk) hinto)

/-- A row whose merge target is put back does not read as archived into the entry. -/
theorem not_into_undone {k : RowKey} {fields : Patch} {s : EntryStore} {target : Option String}
    (now : Datetime) (hfields : fields .consolidatedInto = some target)
    (htarget : target ≠ some (consolidatedId hex))
    (hreturns : ∃ updated, ((c.updateEntry k fields now).run s).1 = .ok updated) :
    ¬ c.Into (consolidatedId hex) ((c.updateEntry k fields now).run s).2 k := by
  rintro ⟨e, hread, hinto⟩
  rcases updateEntry_cases (c := c) (s := s) (k := k) fields now with
    ⟨hsame, hnot, habsent⟩ | ⟨row, existing, written, hfind, -, rfl, hback, hrun⟩
  · obtain ⟨updated, hupdated⟩ := hreturns
    rw [hsame] at hread
    cases updated with
    | true => exact hnot hupdated
    | false =>
        rw [habsent hupdated] at hread
        cases hread
  · rw [hrun, reads_insert, rowKey_patched, s.rowKey_find hfind, if_pos rfl] at hread
    obtain ⟨stored, existing', hstored, hread', -, rfl⟩ := readRow_some hread
    obtain rfl := Option.some.inj hstored
    rw [hback] at hread'
    obtain rfl := Option.some.inj hread'
    obtain ⟨confidence, metadata, hserved⟩ := servedView_fields
      (readBack (row.patched (updateFields c.digest existing fields now)))
    rw [hserved] at hinto
    change textOrNone ((updateFields c.digest existing fields now .consolidatedInto).getD
      row.consolidatedInto) = _ at hinto
    rw [updateFields_other _ _ _ _ (by decide), hfields] at hinto
    exact htarget (Option.filter_eq_some_iff.mp hinto).1

/-- The rows of `done` do not read as archived into the entry. -/
def Undone (c : Consolidator τ) (hex ns : String) (keys done : List RowKey) (s : EntryStore) :
    Prop :=
  c.Linked hex ns keys s ∧ ∀ k ∈ done, ¬ c.Into (consolidatedId hex) s k

section Undoing

variable {keys done : List RowKey}

theorem LeavesEntry.linked (h : c.LeavesEntry hex ns) : c.setting.Stable (c.Linked hex ns keys) :=
  fun n s hs => ⟨fun k hinto => hs.1 k (h.into n s k hinto), h.entry n s hs.2⟩

theorem LeavesEntry.undone (h : c.LeavesEntry hex ns) :
    c.setting.Stable (c.Undone hex ns keys done) :=
  fun n s hs => ⟨h.linked n s hs.1, fun k hk hinto => hs.2 k hk (h.into n s k hinto)⟩

theorem LeavesEntry.clear (h : c.LeavesEntry hex ns) :
    c.setting.Stable (c.Clear (consolidatedId hex)) :=
  fun n s hs k hinto => hs k (h.into n s k hinto)

theorem Undone.concat {k : RowKey} {s : EntryStore} (h : c.Undone hex ns keys done s)
    (hk : ¬ c.Into (consolidatedId hex) s k) : c.Undone hex ns keys (done ++ [k]) s := by
  refine ⟨h.1, fun k' hk' => ?_⟩
  rcases List.mem_append.mp hk' with hold | hnew
  · exact h.2 k' hold
  · rwa [List.mem_singleton.mp hnew]

/-- One turn: the row is read, and put back where it is archived into the entry. -/
theorem restoreOriginal_undone (hleaves : c.LeavesEntry hex ns) {entry : MemoryEntry}
    (hkey : rowKey entry ∈ keys) (hentry : entry.consolidatedInto ≠ some (consolidatedId hex)) :
    Triple (c.Undone hex ns keys done) (c.restoreOriginal (consolidatedId hex) entry)
      (fun _ => c.Undone hex ns keys (done ++ [rowKey entry])) (c.Linked hex ns keys) := by
  refine Triple.bind (Q := fun found s => c.Undone hex ns keys done s ∧
    ((∀ current ∈ found, current.consolidatedInto ≠ some (consolidatedId hex)) →
      ¬ c.Into (consolidatedId hex) s (rowKey entry))) ?_ fun found => ?_
  · refine Triple.call hleaves.undone (fun s hs => ?_) (fun s hs => hs.1) fun _ s hs => hs.1
    unfold Program.run getEntry
    cases hread : c.reads s (rowKey entry) with
    | error error => exact hs.1
    | ok found =>
        refine ⟨hs, fun hfound hinto => ?_⟩
        obtain ⟨e, he, htarget⟩ := hinto
        rw [hread] at he
        exact hfound e (Except.ok.inj he) htarget
  · cases found with
    | none => exact Triple.pure fun s hs => hs.1.concat (hs.2 (by simp))
    | some current =>
        refine Triple.ite (fun hnames => ?_) fun hnames => Triple.pure fun s hs => ?_
        · refine Triple.bind (Q := fun _ => c.Undone hex ns keys done)
            (Triple.reading fun _ _ hs => hs.1) fun now => ?_
          refine Triple.bind (Q := fun _ => c.Undone hex ns keys (done ++ [rowKey entry])) ?_
            fun _ => Triple.pure fun _ hs => hs
          have hfields : undoFields (consolidatedId hex) entry current .consolidatedInto =
              some entry.consolidatedInto := by
            rw [Patch.names, undoFields_consolidatedInto] at hnames
            rw [undoFields_consolidatedInto]
            split at hnames
            · rw [if_pos ‹_›]
            · cases hnames
          refine Triple.call hleaves.undone (fun s hs => ?_) (fun s hs => hs.1)
            fun _ s hs => linked_updateEntry _ now hkey hs.1
          have hlinked :=
            linked_updateEntry (undoFields (consolidatedId hex) entry current) now hkey hs.1
          have hundone := not_into_undone (k := rowKey entry) (s := s) (c := c) now hfields hentry
          rcases hrun : (c.updateEntry (rowKey entry)
            (undoFields (consolidatedId hex) entry current) now).run s with ⟨result, t⟩
          rw [hrun] at hlinked hundone
          cases result with
          | error e => exact hlinked
          | ok updated =>
              refine Undone.concat ⟨hlinked, fun k hk hinto => ?_⟩ (hundone ⟨_, rfl⟩)
              by_cases hkk : k = rowKey entry
              · rw [hkk] at hinto
                exact hundone ⟨_, rfl⟩ hinto
              · refine hs.2 k hk (into_of_find ?_ hinto)
                have hfind := find_updateEntry (c := c) (s := s)
                  (undoFields (consolidatedId hex) entry current) now hkk
                rwa [hrun] at hfind
        · refine hs.1.concat (hs.2 fun e he htarget => hnames ?_)
          obtain rfl := Option.some.inj he
          rw [Patch.names, undoFields_consolidatedInto, if_pos htarget]
          rfl

/-- The restoring of the originals leaves none that reads as archived into the entry. -/
theorem restoreOriginals_clear (hleaves : c.LeavesEntry hex ns)
    (hcluster : ∀ e ∈ cluster, e.consolidatedInto ≠ some (consolidatedId hex)) :
    Triple (c.Linked hex ns (cluster.map rowKey))
      (c.restoreOriginals cluster (consolidatedId hex))
      (fun _ s => c.Clear (consolidatedId hex) s ∧ s.holdsId (newKey hex ns) = true)
      (c.Linked hex ns (cluster.map rowKey)) := by
  refine (Triple.transaction hleaves.linked
    ((Triple.each (fun done => c.Undone hex ns (cluster.map rowKey) (done.map rowKey)) ?_).mono
      (fun s hs => ⟨hs, by simp⟩) (fun _ _ hs => hs) fun _ hs => hs) (fun _ hs => hs)
      fun _ _ _ hs => hs.1).mono (fun _ hs => hs) (fun _ s hs => ?_) fun _ hs => hs
  · intro done entry rest hitems
    have hmem : entry ∈ cluster := hitems ▸ List.mem_append_right done List.mem_cons_self
    rw [List.map_append]
    exact restoreOriginal_undone hleaves (List.mem_map_of_mem hmem) (hcluster entry hmem)
  · exact ⟨fun k hinto => hs.2 k (hs.1.1 k hinto) hinto, hs.1.2⟩

theorem not_into_delete {id : String} {new k : RowKey} {s : EntryStore} (h : ¬ c.Into id s k) :
    ¬ c.Into id (s.delete new) k := by
  rintro ⟨e, hread, hinto⟩
  rw [reads, EntryStore.find_delete] at hread
  split at hread
  · cases hread
  · exact h ⟨e, hread, hinto⟩

/-- The archival or its undoing: a failure leaves no row archived into the entry. -/
theorem archiveOrUndo_linked (hleaves : c.LeavesEntry hex ns) {ids : List String}
    {members : List MemoryEntry}
    {new : MemoryEntry} (hnew : IsNew hex ns members new)
    (hcluster : ∀ e ∈ cluster, e.consolidatedInto ≠ some (consolidatedId hex)) :
    Triple (c.Linked hex ns (cluster.map rowKey)) (c.archiveOrUndo ids cluster new)
      (fun outcome s => (outcome = .written ∧ c.Linked hex ns (cluster.map rowKey) s) ∨
        c.Clear (consolidatedId hex) s)
      fun s => c.Linked hex ns (cluster.map rowKey) s ∨ c.Clear (consolidatedId hex) s := by
  have hid : new.id = consolidatedId hex := congrArg RowKey.id hnew.key
  have hupdate : UpdatesKeep c (cluster.map rowKey) (c.Linked hex ns (cluster.map rowKey)) :=
    fun k hk _ _ _ s hs => linked_updateEntry _ _ hk hs
  have hrestored : c.setting.Stable fun s =>
      c.Clear (consolidatedId hex) s ∧ s.holdsId (newKey hex ns) = true :=
    fun n s hs => ⟨hleaves.clear n s hs.1, hleaves.entry n s hs.2⟩
  unfold archiveOrUndo
  rw [hid]
  refine Triple.bind (Triple.attempt (S := fun _ => c.Linked hex ns (cluster.map rowKey))
    (keeps_archiveOriginals hleaves.linked hupdate) fun _ _ hs => hs) fun result => ?_
  cases result with
  | ok u => exact Triple.pure fun s hs => .inl ⟨rfl, hs⟩
  | error error =>
      refine Triple.bind (Q := fun _ => c.Clear (consolidatedId hex)) ?_
        fun _ => Triple.pure fun s hs => .inr hs
      unfold rollbackConsolidation
      rw [hid]
      refine Triple.bind ((restoreOriginals_clear hleaves hcluster).mono (fun _ hs => hs)
        (fun _ _ hs => hs) fun _ hs => .inl hs) fun _ => ?_
      refine Triple.bind (Q := fun _ => c.Clear (consolidatedId hex)) ?_ fun deleted => ?_
      · exact Triple.call hrestored (fun s hs k => not_into_delete (hs.1 k))
          (fun s hs => .inr hs.1) fun _ s hs => .inr fun k => not_into_delete (hs.1 k)
      · exact Triple.ite (fun _ => Triple.pure fun _ hs => hs)
          fun _ => Triple.fail fun _ hs => .inr hs

end Undoing

theorem clear_insert_new {s : EntryStore} {new : MemoryEntry} {id : String}
    (hinto : new.consolidatedInto = none) (h : c.Clear id s) :
    c.Clear id (s.insert (stampSync c.digest new)) := by
  rintro k ⟨e, hread, htarget⟩
  rw [reads_insert] at hread
  split at hread
  · obtain ⟨stored, existing, hstored, hread', -, rfl⟩ := readRow_some hread
    obtain rfl := Option.some.inj hstored
    rw [rowToEntry_eq hread'] at htarget
    obtain ⟨confidence, metadata, hserved⟩ := servedView_fields
      (readBack (stampSync c.digest new))
    rw [hserved] at htarget
    change textOrNone new.consolidatedInto = _ at htarget
    rw [hinto] at htarget
    cases htarget
  · exact h k ⟨e, hread, htarget⟩

/-- Whatever the others do to the store but for the entry and what is archived into it, and
whichever calls fail: as long as a row reads as archived into the entry, the entry is there, and
a step that reports a failure leaves no such row. -/
theorem writeCluster_linked [DecidableEq τ] (hleaves : c.LeavesEntry hex ns)
    (hclear : c.Clear (consolidatedId hex) w.store) :
    ((∃ k, c.Into (consolidatedId hex)
        ((c.writeCluster hex ns cluster chosen vector).run w).2.store k) →
      ((c.writeCluster hex ns cluster chosen vector).run w).2.store.holdsId (newKey hex ns) =
        true) ∧
      ∀ ids error, ((c.writeCluster hex ns cluster chosen vector).run w).1 =
          .ok (.failed ids error) →
        c.Clear (consolidatedId hex)
          ((c.writeCluster hex ns cluster chosen vector).run w).2.store := by
  have htriple : Triple (c.Clear (consolidatedId hex))
      (c.writeCluster hex ns cluster chosen vector)
      (fun outcome s => (outcome = .written ∧ ∃ keys, c.Linked hex ns keys s) ∨
        c.Clear (consolidatedId hex) s)
      fun s => (∃ keys, c.Linked hex ns keys s) ∨ c.Clear (consolidatedId hex) s := by
    refine writeCluster_triple
      (fun _ now => now.consolidatedInto ≠ some (consolidatedId hex))
      (c.Clear (consolidatedId hex))
      (fun current new s => IsNew hex ns current new ∧ c.Clear (consolidatedId hex) s ∧
        s.holdsId (newKey hex ns) = true) hleaves.clear ?_ (fun _ hs => .inr hs)
      (fun _ hs => .inr hs) ?_ (fun _ _ _ hs => .inr hs) ?_
    · exact fun s hs e _ now hread htarget => hs (rowKey e) ⟨now, hread, htarget⟩
    · intro current _
      refine createConsolidatedEntry_triple hleaves.clear (fun _ _ n s hs => ?_) ?_ (fun _ hs => hs)
        fun _ _ _ hs => hs.1
      · exact ⟨hleaves.clear n s hs.1, hleaves.entry n s hs.2⟩
      · refine fun new hnew s hs => ⟨clear_insert_new hnew.into hs, ?_⟩
        have hkey : newKey hex ns = rowKey (stampSync c.digest new) := hnew.key.symm
        rw [EntryStore.holdsId, EntryStore.find_insert, if_pos hkey]
        rfl
    · intro current new ids hcurrent w' hw'
      have hlinked : c.Linked hex ns (current.map rowKey) w'.store :=
        ⟨fun k hinto => absurd hinto (hw'.2.1 k), hw'.2.2⟩
      have hmembers : ∀ e ∈ current, e.consolidatedInto ≠ some (consolidatedId hex) := fun e he =>
        (hcurrent.mem he).elim fun _ h => h.2
      exact ((archiveOrUndo_linked hleaves hw'.1 hmembers).mono (fun _ hs => hs)
        (fun outcome s hs => hs.imp_left fun h => ⟨h.1, _, h.2⟩)
        fun s hs => hs.imp_left fun h => ⟨_, h⟩) w' hlinked
  have hrun := htriple w hclear
  rcases hjob : (c.writeCluster hex ns cluster chosen vector).run w with ⟨result, t⟩
  rw [hjob] at hrun
  cases result with
  | ok outcome =>
      rcases hrun with ⟨rfl, keys, hlinked⟩ | hclear
      · exact ⟨fun _ => hlinked.2, fun ids error h => by cases Except.ok.inj h⟩
      · exact ⟨fun ⟨k, hinto⟩ => absurd hinto (hclear k), fun _ _ _ => hclear⟩
  | error error =>
      refine ⟨fun ⟨k, hinto⟩ => ?_, fun _ _ h => by cases h⟩
      rcases hrun with ⟨keys, hlinked⟩ | hclear
      · exact hlinked.2
      · exact absurd hinto (hclear k)

def firstNote : MemoryEntry := MemoryEntry.ofDefaults "a" "one" "ns" ⟨0, some 0⟩ a_ne_empty

def secondNote : MemoryEntry := MemoryEntry.ofDefaults "b" "two" "ns" ⟨0, some 0⟩ b_ne_empty

def notes : World EntryStore := ⟨(EntryStore.empty.insert firstNote).insert secondNote, 0, false⟩

/-- A store without transactions and without vectors. -/
def plainConsolidator (others : Nat → EntryStore → EntryStore) (fault : Nat → Option CallFault) :
    Consolidator MemoryEntry where
  digest := fun _ => ""
  token := id
  contentDigest := id
  held := fun _ => false
  localNodeId := id
  encode := fun _ => .ok none
  schedules := fun _ => true
  clock := fun n => ⟨1000000 + n, some 0⟩
  setting := ⟨others, fault, false⟩
  supportsVectors := false
  vectors_atomic := fun h => by cases h

/-- The second archival fails. -/
def secondFails (n : Nat) : Option CallFault := if n = 4 then some .before else none

def mergeNotes (others : Nat → EntryStore → EntryStore) (fault : Nat → Option CallFault) :
    Except (JobError CycleError) ClusterOutcome × World EntryStore :=
  ((plainConsolidator others fault).writeCluster "1" "ns" [firstNote, secondNote]
    ⟨"one", ""⟩ none).run notes

def reportsFailure : Except (JobError CycleError) ClusterOutcome → Bool
  | .ok (.failed _ _) => true
  | _ => false

/-- Another writer deletes the second note before it is archived. -/
def forgetsSecond (n : Nat) (s : EntryStore) : EntryStore :=
  if n = 4 then s.delete ⟨"ns", "b"⟩ else s

theorem clear_of_rows {id : String} {s : EntryStore}
    (h : ∀ row ∈ s.table.rows, row.2.consolidatedInto = none) : c.Clear id s := by
  rintro k ⟨e, hread, hinto⟩
  obtain ⟨stored, existing, hfind, hback, -, rfl⟩ := readRow_some hread
  obtain ⟨confidence, metadata, hserved⟩ := servedView_fields existing
  rw [hserved, rowToEntry_eq hback] at hinto
  have hnone := h _ ((s.table.mem_rows _ _).mpr hfind)
  change textOrNone stored.consolidatedInto = _ at hinto
  dsimp only at hnone
  rw [hnone] at hinto
  cases hinto

theorem writeCluster_linked_notes :
    reportsFailure (mergeNotes (fun _ s => s) secondFails).1 = true ∧
      ∀ k, ¬ (plainConsolidator (fun _ s => s) secondFails).Into "M-1"
        (mergeNotes (fun _ s => s) secondFails).2.store k := by
  have hreport : reportsFailure (mergeNotes (fun _ s => s) secondFails).1 = true := by
    decide +kernel
  have hlinked := @writeCluster_linked _ (plainConsolidator (fun _ s => s) secondFails) "1" "ns"
    [firstNote, secondNote] ⟨"one", ""⟩ none notes _ ⟨fun _ _ _ h => h, fun _ _ h => h⟩
    (clear_of_rows (by decide +kernel))
  refine ⟨hreport, ?_⟩
  cases hrun : (mergeNotes (fun _ s => s) secondFails).1 with
  | error error => rw [hrun] at hreport; cases hreport
  | ok outcome =>
      cases outcome with
      | written | skipped => rw [hrun] at hreport; cases hreport
      | failed ids error => exact hlinked.2 ids error hrun

theorem writeCluster_beside_notes :
    beside (newKey "1" "ns") [⟨"ns", "a"⟩, ⟨"ns", "b"⟩]
        (mergeNotes forgetsSecond secondFails).2.store ⟨"ns", "b"⟩ ∈
      [none, some (beyondArchival secondNote)] := by
  refine @writeCluster_beside _ (plainConsolidator forgetsSecond secondFails) "1" "ns"
    [firstNote, secondNote] ⟨"one", ""⟩ none notes _
    (fun view => view ⟨"ns", "b"⟩ ∈ [none, some (beyondArchival secondNote)])
    (fun n s h => ?_) (by decide +kernel)
  change beside _ _ (forgetsSecond n s) _ ∈ _
  unfold forgetsSecond
  split
  · have hgone : (s.delete ⟨"ns", "b"⟩).table.find ⟨"ns", "b"⟩ = none := by
      rw [EntryStore.find_delete, beq_self_eq_true]
      rfl
    have hnone : beside (newKey "1" "ns") [⟨"ns", "a"⟩, ⟨"ns", "b"⟩] (s.delete ⟨"ns", "b"⟩)
        ⟨"ns", "b"⟩ = none := by
      rw [beside, hgone]
      rfl
    change beside (newKey "1" "ns") [⟨"ns", "a"⟩, ⟨"ns", "b"⟩] _ _ ∈ _
    rw [hnone]
    exact List.mem_cons_self
  · exact h

end TrwMemory.Lifecycle.Consolidator

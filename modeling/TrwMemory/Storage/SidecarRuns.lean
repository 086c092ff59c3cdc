import TrwMemory.Library.Transition
import TrwMemory.Storage.SidecarBatch
import TrwMemory.Storage.SidecarDeletes

/-!
Runs of calls on a consistent store. Where no call writes a tag that only one of the
two trims finds blank, the sidecars are those of the rows after every call, and no edge
names a deleted row.

Graph edges are added by none of these calls.
-/
namespace TrwMemory.Storage

open Library.Keyed Library.Transition Sync

/-- The store, and the rows that calls have deleted so far. -/
structure SidecarState where
  db : Db
  deleted : List RowKey

/-- The tags a call has posted when it is carried out. -/
def Call.tagsWritten : Call → List String
  | store entry => entry.tags
  | storeMany entries => (finalEntries entries).flatMap MemoryEntry.tags
  | update _ _ fields _ => (fields .tags).getD []
  | delete _ | deleteMany _ _ | deleteByNamespace _ => []

/-- The call runs statements. -/
def Call.carriedOut (digest : SyncContent → String) (b : Backend) (db : Db) (call : Call) : Bool :=
  match call.script digest b db with
  | .ok statements => !statements.isEmpty
  | .error _ => false

def sidecarMachine (digest : SyncContent → String) (b : Backend) : Machine SidecarState Call where
  step s call := some ⟨call.run digest b s.db, s.deleted ++ call.deletes s.db⟩

/-- No tag is written that is white space for Python but not for SQL's `TRIM`. -/
def PostsAlike (digest : SyncContent → String) (b : Backend) (s : SidecarState) (call : Call) :
    Prop :=
  call.carriedOut digest b s.db = true → TrimsAlike call.tagsWritten

instance (digest : SyncContent → String) (b : Backend) (s : SidecarState) (call : Call) :
    Decidable (PostsAlike digest b s call) :=
  inferInstanceAs (Decidable (_ → _))

variable {digest : SyncContent → String} {b : Backend} {db : Db}

theorem finalEntries_stampSync (digest : SyncContent → String) (entries : List MemoryEntry) :
    finalEntries (entries.map (stampSync digest)) =
      (finalEntries entries).map (stampSync digest) := by
  have hkeys : (entries.map (stampSync digest)).map rowKey = entries.map rowKey := by
    rw [List.map_map]
    rfl
  rw [finalEntries, hkeys, finalEntries, List.map_filterMap]
  congr 1
  funext k
  rw [← List.map_reverse, List.find?_map]
  rfl

theorem storeManyRows_ok {entries rows : List MemoryEntry}
    (h : storeManyRows digest db entries = .ok rows) : rows = entries.map (stampSync digest) := by
  unfold storeManyRows at h
  cases hv : entries.forM validateEntryForWrite with
  | error _ => rw [hv] at h; cases h
  | ok _ =>
      rw [hv] at h
      cases hr : entries.forM fun e => refuseViolation (db.memories.find (rowKey e)) e with
      | error _ =>
          simp only [bind, Except.bind] at h
          rw [hr] at h
          cases h
      | ok _ =>
          simp only [bind, Except.bind] at h
          rw [hr] at h
          exact (Except.ok.inj h).symm

/-- A call that deletes nothing and runs nothing leaves the store as it is. -/
theorem written_self (h : Consistent b db) : Written b db db := ⟨h, rfl⟩

theorem written_store (h : Consistent b db) {entry : MemoryEntry} {deleted : List RowKey}
    (hposts : PostsAlike digest b ⟨db, deleted⟩ (.store entry)) :
    Written b db (Call.run digest b db (.store entry)) := by
  cases hrow : storeRow digest (db.memories.find (rowKey entry)) entry with
  | error _ =>
      simp only [Call.run, Call.script, storeScript, hrow, Except.map]
      exact written_self h
  | ok row =>
      have hscript : Call.script digest b db (.store entry) = .ok (storeStatements b row) := by
        simp only [Call.script, storeScript, hrow, Except.map]
      have htags : TrimsAlike entry.tags := hposts (by rw [Call.carriedOut, hscript]; rfl)
      rw [Call.run, hscript]
      obtain rfl := storeRow_ok hrow
      exact written_storeStatements h htags

theorem written_storeMany (h : Consistent b db) {entries : List MemoryEntry}
    {deleted : List RowKey} (hposts : PostsAlike digest b ⟨db, deleted⟩ (.storeMany entries)) :
    Written b db (Call.run digest b db (.storeMany entries)) := by
  cases hempty : entries.isEmpty with
  | true =>
      simp only [Call.run, Call.script, storeManyScript, hempty, if_true]
      exact written_self h
  | false =>
      cases hrows : storeManyRows digest db entries with
      | error _ =>
          simp only [Call.run, Call.script, storeManyScript, hempty, hrows, Except.map]
          exact written_self h
      | ok rows =>
          have hscript : Call.script digest b db (.storeMany entries) =
              .ok (storeManyStatements b rows) := by
            simp only [Call.script, storeManyScript, hempty, hrows, Except.map]
            rfl
          obtain rfl := storeManyRows_ok hrows
          have hsome :
              (storeManyStatements b (entries.map (stampSync digest))).isEmpty = false := by
            cases entries with
            | nil => cases hempty
            | cons first rest => rfl
          have htags : TrimsAlike ((finalEntries entries).flatMap MemoryEntry.tags) :=
            hposts (by rw [Call.carriedOut, hscript]; simp [hsome])
          rw [Call.run, hscript]
          refine written_storeManyStatements h fun e he => ?_
          rw [finalEntries_stampSync] at he
          obtain ⟨entry, hentry, rfl⟩ := List.mem_map.mp he
          exact fun tag htag => htags tag (List.mem_flatMap.mpr ⟨entry, hentry, htag⟩)

theorem written_update (h : Consistent b db) {k : RowKey} {blocks : MemoryEntry → Bool}
    {fields : Patch} {now : Datetime} {deleted : List RowKey}
    (hposts : PostsAlike digest b ⟨db, deleted⟩ (.update k blocks fields now)) :
    Written b db (Call.run digest b db (.update k blocks fields now)) := by
  cases hrow : db.memories.find k with
  | none =>
      simp only [Call.run, Call.script, updateScript, hrow]
      exact written_self h
  | some row =>
      cases hread : rowToEntry row with
      | none =>
          simp only [Call.run, Call.script, updateScript, hrow, hread]
          exact written_self h
      | some existing =>
          by_cases hskip : (blocks (servedView existing) || fields.fields.isEmpty) = true
          · simp only [Call.run, Call.script, updateScript, hrow, hread, hskip, if_true]
            exact written_self h
          · cases hfinish : finishUpdate digest row existing fields now with
            | error _ =>
                simp only [Call.run, Call.script, updateScript, hrow, hread, if_neg hskip, hfinish,
                  Except.map]
                exact written_self h
            | ok written =>
                have hscript : Call.script digest b db (.update k blocks fields now) =
                    .ok (updateStatements digest b existing k fields now) := by
                  simp only [Call.script, updateScript, hrow, hread, if_neg hskip, hfinish,
                    Except.map]
                have htags : TrimsAlike ((fields .tags).getD []) :=
                  hposts (by rw [Call.carriedOut, hscript]; rfl)
                rw [Call.run, hscript]
                exact written_updateStatements h hrow hread htags

/-- What a call that deletes leaves: the sidecars of the rows that stay, and no edge that
names a row that went. -/
structure Purged (b : Backend) (db db' : Db) (gone : List RowKey) : Prop where
  consistent : Consistent b db'
  edges : ∀ edge ∈ db'.graphEdges, edge ∈ db.graphEdges ∧ ∀ k ∈ gone, ¬edge.names k

theorem purged_self (h : Consistent b db) : Purged b db db [] :=
  ⟨h, fun _ hedge => ⟨hedge, fun _ hk => by cases hk⟩⟩

theorem Written.purged {db' : Db} (h : Written b db db') : Purged b db db' [] :=
  ⟨h.consistent, fun _ hedge => ⟨h.edges ▸ hedge, fun _ hk => by cases hk⟩⟩

theorem Deleted.purged {db' : Db} {ns : String} {ids : List String} (h : Consistent b db)
    (hdel : Deleted b (keyed ns ids) db db') : Purged b db db' (ids.map (RowKey.mk ns)) := by
  refine ⟨hdel.consistent h, fun edge hedge => ?_⟩
  obtain ⟨hmem, hnot⟩ := hdel.edges edge hedge
  refine ⟨hmem, fun k hk => hnot k ?_⟩
  obtain ⟨id, hid, rfl⟩ := List.mem_map.mp hk
  simp [keyed, hid]

theorem purged_delete (h : Consistent b db) (k : RowKey) :
    Purged b db (Call.run digest b db (.delete k)) (Call.deletes db (.delete k)) := by
  cases hk : (db.memories.find k).isSome with
  | true =>
      have hgone : Call.deletes db (.delete k) = [k.id].map (RowKey.mk k.ns) := by
        simp [Call.deletes, hk]
      rw [hgone]
      exact (deleted_deleteStatements h.indexed hk).purged h
  | false =>
      have hgone : Call.deletes db (.delete k) = [] := by
        simp [Call.deletes, hk]
      have hrun : Call.run digest b db (.delete k) = db := execute_deleteStatements_absent b hk
      rw [hgone, hrun]
      exact purged_self h

theorem purged_deleteMany (h : Consistent b db) (ns : String) (ids : List String) :
    Purged b db (Call.run digest b db (.deleteMany ns ids))
      (Call.deletes db (.deleteMany ns ids)) := by
  cases hgone : (existingIds db ns ids).isEmpty with
  | true =>
      have hrun : Call.run digest b db (.deleteMany ns ids) = db := by
        simp only [Call.run, Call.script, deleteManyStatements, hgone, if_true, execute_nil]
      rw [hrun, Call.deletes, List.isEmpty_iff.mp hgone]
      exact purged_self h
  | false => exact (deleted_deleteManyStatements h.indexed hgone).purged h

theorem purged_deleteByNamespace (h : Consistent b db) (ns : String) :
    Purged b db (Call.run digest b db (.deleteByNamespace ns))
      (Call.deletes db (.deleteByNamespace ns)) := by
  cases hids : (namespaceIds db ns).isEmpty with
  | true =>
      have hrun : Call.run digest b db (.deleteByNamespace ns) = db := by
        simp only [Call.run, Call.script, deleteByNamespaceStatements, hids, if_true, execute_nil]
      rw [hrun, Call.deletes, List.isEmpty_iff.mp hids]
      exact purged_self h
  | false => exact (deleted_deleteByNamespaceStatements h.indexed hids).purged h

/-- The script of an update that runs statements. -/
theorem updateScript_cases {k : RowKey} {blocks : MemoryEntry → Bool} {fields : Patch}
    {now : Datetime} {statements : List Statement}
    (h : updateScript digest b db k blocks fields now = .ok statements) :
    statements = [] ∨ ∃ row existing written, db.memories.find k = some row ∧
      rowToEntry row = some existing ∧ finishUpdate digest row existing fields now = .ok written ∧
      statements = updateStatements digest b existing k fields now := by
  unfold updateScript at h
  cases hrow : db.memories.find k with
  | none =>
      simp only [hrow] at h
      exact .inl (Except.ok.inj h).symm
  | some row =>
      cases hread : rowToEntry row with
      | none =>
          simp only [hrow, hread] at h
          cases h
      | some existing =>
          simp only [hrow, hread] at h
          split at h
          · exact .inl (Except.ok.inj h).symm
          · cases hfinish : finishUpdate digest row existing fields now with
            | error _ =>
                rw [hfinish] at h
                cases h
            | ok written =>
                rw [hfinish] at h
                exact .inr ⟨row, existing, written, rfl, hread, hfinish, (Except.ok.inj h).symm⟩

/-- The FTS tables and the keys keep up with every call. -/
theorem Indexed.run (h : Indexed b db) (call : Call) : Indexed b (call.run digest b db) := by
  cases call with
  | store entry =>
      simp only [Call.run, Call.script, storeScript]
      cases storeRow digest (db.memories.find (rowKey entry)) entry with
      | error _ => exact h
      | ok row => exact indexed_storeStatements h row
  | storeMany entries =>
      simp only [Call.run, Call.script, storeManyScript]
      split
      · rename_i statements hscript
        split at hscript
        · obtain rfl := Except.ok.inj hscript
          exact h
        · cases hrows : storeManyRows digest db entries with
          | error _ =>
              rw [hrows] at hscript
              cases hscript
          | ok rows =>
              rw [hrows] at hscript
              obtain rfl := Except.ok.inj hscript
              exact indexed_storeManyStatements h rows
      · exact h
  | update k blocks fields now =>
      simp only [Call.run, Call.script]
      cases hscript : updateScript digest b db k blocks fields now with
      | error _ => exact h
      | ok statements =>
          obtain rfl | ⟨row, existing, _, hrow, hread, _, rfl⟩ := updateScript_cases hscript
          · exact h
          · exact indexed_updateStatements h hrow hread
  | delete k =>
      cases hk : (db.memories.find k).isSome with
      | true => exact (deleted_deleteStatements h hk).indexed h
      | false =>
          have hrun : Call.run digest b db (.delete k) = db := execute_deleteStatements_absent b hk
          exact hrun.symm ▸ h
  | deleteMany ns ids =>
      cases hgone : (existingIds db ns ids).isEmpty with
      | true =>
          simp only [Call.run, Call.script, deleteManyStatements, hgone, if_true, execute_nil]
          exact h
      | false => exact (deleted_deleteManyStatements h hgone).indexed h
  | deleteByNamespace ns =>
      cases hids : (namespaceIds db ns).isEmpty with
      | true =>
          simp only [Call.run, Call.script, deleteByNamespaceStatements, hids, if_true, execute_nil]
          exact h
      | false => exact (deleted_deleteByNamespaceStatements h hids).indexed h

/-- One call, in the six cases. -/
theorem Consistent.run (h : Consistent b db) {call : Call} {deleted : List RowKey}
    (hposts : PostsAlike digest b ⟨db, deleted⟩ call) :
    Purged b db (call.run digest b db) (call.deletes db) := by
  cases call with
  | store entry => exact (written_store h hposts).purged
  | storeMany entries => exact (written_storeMany h hposts).purged
  | update k blocks fields now => exact (written_update h hposts).purged
  | delete k => exact purged_delete h k
  | deleteMany ns ids => exact purged_deleteMany h ns ids
  | deleteByNamespace ns => exact purged_deleteByNamespace h ns

/-- The sidecars are those of the rows, and no edge names a deleted row. -/
structure SidecarState.InStep (b : Backend) (s : SidecarState) : Prop where
  consistent : Consistent b s.db
  edges : ∀ k ∈ s.deleted, ∀ edge ∈ s.db.graphEdges, ¬edge.names k

theorem inStep_preserved (digest : SyncContent → String) (b : Backend) :
    (sidecarMachine digest b).Preserves (PostsAlike digest b) (SidecarState.InStep b) := by
  intro s call t hs hposts hstep
  obtain rfl := Option.some.inj hstep
  have hposts : PostsAlike digest b ⟨s.db, s.deleted⟩ call := hposts
  obtain ⟨hconsistent, hedges⟩ := hs.consistent.run hposts
  refine ⟨hconsistent, fun k hk edge hedge => ?_⟩
  obtain ⟨hmem, hnot⟩ := hedges edge hedge
  rcases List.mem_append.mp hk with hk | hk
  · exact hs.edges k hk edge hmem
  · exact hnot k hk

def connection : Backend := ⟨true, true, 4⟩

/-- A store without rows, in which an edge is waiting for two. -/
def edged : Db := { Db.empty with graphEdges := [⟨"south", "a", "b"⟩] }

theorem consistent_of_empty (edges : List GraphEdge) :
    Consistent connection { Db.empty with graphEdges := edges } := by
  refine .of_parts (fun k e he => by cases he) (fun _ => ?_) ?_ ?_
  · exact ⟨fun k => rfl, fun k e rowid he => (by cases he), fun rowid row hrow => by cases hrow⟩
  · exact fun k v _ => ⟨fun hmem => (by simp [Db.empty] at hmem), fun ⟨e, he, _⟩ => by cases he⟩
  · exact fun k v _ => ⟨fun hmem => (by simp [Db.empty] at hmem), fun ⟨e, he, _⟩ => by cases he⟩

def tagged (id : String) (tags : List String) (hid : id ≠ "") : MemoryEntry :=
  { MemoryEntry.ofDefaults id "text" "south" ⟨0, some 0⟩ hid with tags }

def contentDigest (c : SyncContent) : String := "sha256:" ++ c.content

def sixCalls : List Call :=
  [.store (tagged "a" ["x", "  "] a_ne_empty),
    .storeMany [tagged "b" ["y"] b_ne_empty, tagged "a" [] a_ne_empty, tagged "b" ["z"] b_ne_empty],
    .update ⟨"south", "a"⟩ (fun _ => false) (Patch.none.set .tags ["w"]) ⟨1, some 0⟩,
    .delete ⟨"south", "a"⟩, .deleteMany "south" ["c", "b"], .deleteByNamespace "south"]

def afterCalls (db : Db) (calls : List Call) : SidecarState :=
  (sidecarMachine contentDigest connection).endState ⟨db, []⟩ calls

def tabbed : List Call := [.store (tagged "a" ["\t"] a_ne_empty)]

end TrwMemory.Storage

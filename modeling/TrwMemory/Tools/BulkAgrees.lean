import TrwMemory.Storage.SidecarCalls
import TrwMemory.Tools.BulkStore
import TrwMemory.Tools.StoreInterleavings

/-!
`bulk_store` ends as storing its requests one by one ends, as long as no write of the batch
would have changed how a later request of it is decided; requests of distinct ids are such.
Where a request raises over the store as it is, or a write is refused, the batch raises.

Vectors derived from an entry, which only the single store drops, are left out.
-/
namespace TrwMemory.Tools

open Library.Keyed Storage Sync

namespace StoringClient

variable (c : StoringClient)

/-- Each request is let through, or not, over what the stores before it have left as it is
over the store that the batch reads. -/
def DecidedAlike (db : Db) : Db → List BulkStoreRequest → Prop
  | _, [] => True
  | current, r :: rest =>
      (c.decision .bulkStore current r).taken = (c.decision .bulkStore db r).taken ∧
        DecidedAlike db (c.store current r).2 rest

/-- A vector derived from an entry that the batch accepts: a single store drops it. -/
def LeftBehind (db : Db) (requests : List BulkStoreRequest) (k : RowKey) : Prop :=
  ∃ r ∈ requests, ∃ taken ∈ (c.decision .bulkStore db r).taken,
    isDerived db (rowKey taken.1) k = true

/-- The store that `MemoryClient.store` writes over, in its transaction. -/
def purged (entry : MemoryEntry) (db : Db) : Db :=
  if c.writer.backend.vecAvailable then deleteHypeSiblings (rowKey entry) db else db

section Steps

variable {c} {entry : MemoryEntry}

theorem purged_memories (db : Db) : (c.purged entry db).memories = db.memories := by
  unfold purged deleteHypeSiblings
  split
  · split
    · rfl
    · rfl
  · rfl

/-- The purge reaches derived vectors only. -/
theorem purged_vectors {db : Db} {k : RowKey} (h : isDerived db (rowKey entry) k = false) :
    (c.purged entry db).vectors.find k = db.vectors.find k := by
  unfold purged deleteHypeSiblings
  split
  · split
    · rw [Table.find_discard, h]
      rfl
    · rfl
  · rfl

theorem clientStore_embedded (db : Db) :
    clientStore c.digest c.digests c.writer entry (c.embedded entry) db =
      finishStore db (storeWithVector c.digest c.digests c.writer entry
        ((c.embedded entry).encoded c.digests (embeddingText entry)) (c.purged entry db)) := by
  have hembedded : c.embedded entry ≠ .failed := by
    unfold embedded
    split
    · nofun
    · nofun
  unfold clientStore
  rw [if_neg hembedded]
  rfl

variable {current : Db} {r : BulkStoreRequest} {op : StoreOp}

theorem store_untaken (h : (c.decision .bulkStore current r).taken = none) :
    c.store current r = (.rejected, current) := by
  unfold store
  rw [decision_clientStore]
  cases hdecision : c.decision .bulkStore current r with
  | raises | rejected => rfl
  | accepted entry op => rw [hdecision] at h; cases h

theorem accepted_of_taken {decided : Decision} (h : decided.taken = some (entry, op)) :
    decided = .accepted entry op := by
  cases decided with
  | raises | rejected => cases h
  | accepted entry' op' =>
      obtain ⟨rfl, rfl⟩ := Prod.mk.inj (Option.some.inj h)
      rfl

theorem store_refused (h : (c.decision .bulkStore current r).taken = some (entry, op))
    (hrefused : c.writable current entry = false) : c.store current r = (.rejected, current) := by
  unfold store
  rw [decision_clientStore, accepted_of_taken h]
  dsimp only
  rw [clientStore_embedded, finishStore_refused (purged_memories current) hrefused]

/-- A store of an accepted entry. -/
theorem store_taken (h : (c.decision .bulkStore current r).taken = some (entry, op))
    (hwritable : c.writable current entry = true) :
    ∃ written, c.store current r = (op.status, written) ∧
      written.memories = current.memories.put (rowKey entry) (stampSync c.digest entry) ∧
      written.vectors = upserted c.writer (rowKey entry)
        ((c.embedded entry).encoded c.digests (embeddingText entry))
        (c.purged entry current).vectors := by
  obtain ⟨written, hwritten, hmemories, hvectors⟩ :=
    finishStore_writable (purged_memories current) hwritable
  refine ⟨written, ?_, hmemories, hvectors⟩
  unfold store
  rw [decision_clientStore, accepted_of_taken h]
  dsimp only
  rw [clientStore_embedded, hwritten]

/-- An upsert acts on its own key alone, and there alike. -/
theorem find_upserted {w : Writer} {k k' : RowKey} {vector : Option StoredVector}
    {left right : Table RowKey StoredVector} (h : left.find k' = right.find k') :
    (upserted w k vector left).find k' = (upserted w k vector right).find k' := by
  cases vector with
  | none => exact h
  | some vector =>
      simp only [upserted]
      split
      · rw [Table.find_put, Table.find_put, h]
      · exact h

/-- A single store and a write of the batch keep an agreement. -/
theorem agreeBut_written {db single batch single' batch' : Db} {apart : RowKey → Prop}
    (hagree : AgreeBut apart single batch)
    (hrows : ∀ k, single.memories.find k = none → db.memories.find k = none)
    (hapart : ∀ k, isDerived db (rowKey entry) k = true → apart k)
    (hsingle : single'.memories =
      single.memories.put (rowKey entry) (stampSync c.digest entry) ∧
      single'.vectors = upserted c.writer (rowKey entry)
        ((c.embedded entry).encoded c.digests (embeddingText entry))
        (c.purged entry single).vectors)
    (hbatch : batch'.memories = batch.memories.put (rowKey entry) (stampSync c.digest entry) ∧
      batch'.vectors = upserted c.writer (rowKey entry)
        ((c.embedded entry).encoded c.digests (embeddingText entry)) batch.vectors) :
    AgreeBut apart single' batch' where
  memories k := by
    rw [hsingle.1, hbatch.1, Table.find_put, Table.find_put, hagree.memories]
  vectors k hk := by
    rw [hsingle.2, hbatch.2]
    refine find_upserted ?_
    rw [purged_vectors, hagree.vectors k hk]
    refine Bool.eq_false_iff.mpr fun hderived => hk (hapart k ?_)
    simp only [isDerived, Bool.and_eq_true, Option.isNone_iff_eq_none] at hderived ⊢
    exact ⟨hderived.1, hrows k hderived.2⟩

end Steps

/-- The batch ends as the single stores do, or it raises at a write that is refused, with what
they have left before it. -/
def EndsLike (apart : RowKey → Prop) (db current : Db) (requests : List BulkStoreRequest)
    (result : Option (List ItemStatus) × Db) : Prop :=
  (result.1 = some (c.storeEach current requests).1 ∧
      AgreeBut apart (c.storeEach current requests).2 result.2) ∨
    ∃ before r after, requests = before ++ r :: after ∧ result.1 = none ∧
      AgreeBut apart (c.storeEach current before).2 result.2 ∧
      ∃ taken ∈ (c.decision .bulkStore db r).taken,
        c.writable (c.storeEach current before).2 taken.1 = false

section Batch

variable {c} {db : Db}

theorem plan_cons {r : BulkStoreRequest} {rest : List BulkStoreRequest} {decisions : List Decision}
    (h : c.plan db (r :: rest) = some decisions) :
    ∃ later, c.plan db rest = some later ∧ decisions = c.decision .bulkStore db r :: later := by
  unfold plan at h
  cases hdecision : c.decision .bulkStore db r with
  | raises => rw [hdecision] at h; cases h
  | rejected | accepted =>
      rw [hdecision] at h
      obtain ⟨later, hlater, rfl⟩ := Option.map_eq_some_iff.mp h
      exact ⟨later, hlater, rfl⟩

theorem plan_eq_none {requests : List BulkStoreRequest} :
    c.plan db requests = none ↔ ∃ r ∈ requests, c.decision .bulkStore db r = .raises := by
  induction requests with
  | nil => simp [plan]
  | cons r rest ih =>
      rw [List.exists_mem_cons_iff, ← ih, plan]
      cases c.decision .bulkStore db r with
      | raises => simp
      | rejected | accepted => simp

/-- The head of the requests stored, the rest ends alike. -/
theorem EndsLike.cons {apart : RowKey → Prop} {current stored : Db} {r : BulkStoreRequest}
    {rest : List BulkStoreRequest} {status : ItemStatus} {result : Option (List ItemStatus) × Db}
    (hstore : c.store current r = (status, stored)) (h : c.EndsLike apart db stored rest result) :
    c.EndsLike apart db current (r :: rest) (result.1.map (status :: ·), result.2) := by
  have hsteps : ∀ requests, c.storeEach current (r :: requests) =
      (status :: (c.storeEach stored requests).1, (c.storeEach stored requests).2) := by
    intro requests
    rw [storeEach, hstore]
  rcases h with ⟨hstatuses, hagree⟩ | ⟨before, r', after, rfl, hnone, hagree, hrefused⟩
  · refine .inl ⟨?_, ?_⟩
    · rw [hsteps, hstatuses, Option.map_some]
    · rw [hsteps]
      exact hagree
  · refine .inr ⟨r :: before, r', after, rfl, ?_, ?_, ?_⟩
    · rw [hnone, Option.map_none]
    · rw [hsteps]
      exact hagree
    · rw [hsteps]
      exact hrefused

/-- The writes of the batch follow the single stores, as long as these decide alike. -/
theorem persist_endsLike {apart : RowKey → Prop} {requests : List BulkStoreRequest}
    (hapart : ∀ k, c.LeftBehind db requests k → apart k) {current batch : Db}
    {decisions : List Decision} (hplan : c.plan db requests = some decisions)
    (halike : c.DecidedAlike db current requests) (hagree : AgreeBut apart current batch)
    (hrows : ∀ k, current.memories.find k = none → db.memories.find k = none) :
    c.EndsLike apart db current requests (c.persist decisions batch) := by
  induction requests generalizing current batch decisions with
  | nil =>
      obtain rfl := Option.some.inj hplan
      exact .inl ⟨rfl, hagree⟩
  | cons r rest ih =>
      obtain ⟨later, hlater, rfl⟩ := plan_cons hplan
      obtain ⟨htaken, hrest⟩ := halike
      have hapartRest : ∀ k, c.LeftBehind db rest k → apart k := by
        rintro k ⟨r', hr', hleft⟩
        exact hapart k ⟨r', List.mem_cons_of_mem r hr', hleft⟩
      cases hdecision : (c.decision .bulkStore db r).taken with
      | none =>
          have hstore := store_untaken (htaken.trans hdecision)
          rw [hstore] at hrest
          have hpersist : c.persist (c.decision .bulkStore db r :: later) batch =
              ((c.persist later batch).1.map (.rejected :: ·), (c.persist later batch).2) := by
            cases hd : c.decision .bulkStore db r with
            | raises | rejected => rfl
            | accepted entry op => rw [hd] at hdecision; cases hdecision
          rw [hpersist]
          exact .cons hstore (ih hapartRest hlater hrest hagree hrows)
      | some taken =>
          obtain ⟨entry, op⟩ := taken
          have hsame : c.writable batch entry = c.writable current entry := by
            unfold writable
            rw [hagree.memories]
          rw [accepted_of_taken hdecision]
          cases hwritable : c.writable current entry with
          | false =>
              refine .inr ⟨[], r, rest, rfl, ?_, ?_, (entry, op), hdecision, hwritable⟩
              · simp only [persist, bulkStore,
                  finishStore_refused rfl (hsame.trans hwritable)]
              · simp only [persist, bulkStore,
                  finishStore_refused rfl (hsame.trans hwritable)]
                exact hagree
          | true =>
              obtain ⟨single', hstore, hsingle⟩ := store_taken (htaken.trans hdecision) hwritable
              obtain ⟨batch', hwritten, hbatch⟩ :=
                finishStore_writable (rfl : batch.memories = batch.memories)
                  (hsame.trans hwritable)
              rw [hstore] at hrest
              have hpersist : c.persist (.accepted entry op :: later) batch =
                  ((c.persist later batch').1.map (op.status :: ·),
                    (c.persist later batch').2) := by
                simp only [persist, bulkStore, hwritten]
              rw [hpersist]
              refine .cons hstore (ih hapartRest hlater hrest
                (agreeBut_written hagree hrows ?_ hsingle hbatch) ?_)
              · exact fun k hk => hapart k ⟨r, List.mem_cons_self, (entry, op), hdecision, hk⟩
              · intro k hk
                rw [hsingle.1, Table.find_put] at hk
                split at hk
                · cases hk
                · exact hrows k hk

end Batch

section Distinct

variable {c} {db db' : Db} {r : BulkStoreRequest}

theorem rowKey_backendGet {blocks : MemoryEntry → Bool} {k : RowKey} {current : MemoryEntry}
    (hkeyed : RowsKeyed db) (h : backendGet blocks db k = .ok (some current)) :
    rowKey current = k := by
  obtain ⟨row, entry, hrow, hread, -, rfl⟩ := backendGet_some h
  obtain ⟨confidence, metadata, hserved⟩ := servedView_fields entry
  rw [hserved, rowToEntry_eq hread]
  exact hkeyed k row hrow

theorem backendGet_congr {blocks : MemoryEntry → Bool} {k : RowKey}
    (h : db.memories.find k = db'.memories.find k) :
    backendGet blocks db k = backendGet blocks db' k := by
  unfold backendGet
  rw [h]

theorem rowKey_built {path : StorePath} {r : StoreRequest} {existing : Option MemoryEntry}
    {built : MemoryEntry} (hexisting : ∀ e ∈ existing, rowKey e = r.key)
    (h : buildStoreEntry path r existing = some built) : rowKey built = r.key := by
  cases existing with
  | none =>
      unfold buildStoreEntry newEntry at h
      dsimp only at h
      split at h
      · exact Option.some.inj h ▸ rfl
      · cases h
  | some e =>
      obtain rfl := Option.some.inj h
      exact hexisting e rfl

theorem rowKey_prepared {i : Intake} {e prepared : MemoryEntry}
    (h : prepareEntryForStore i e = some prepared) : rowKey prepared = rowKey e := by
  unfold prepareEntryForStore at h
  dsimp only at h
  split at h
  · cases h
  · obtain ⟨screened, hscreened, hsigned⟩ := Option.bind_eq_some_iff.mp h
    obtain ⟨provenance, -, rfl⟩ := Option.map_eq_some_iff.mp hsigned
    obtain ⟨found, -, rfl⟩ := Option.map_eq_some_iff.mp hscreened
    change rowKey (flagCodeSnippet i.isCode (stripReservedMetadata e)) = rowKey e
    unfold flagCodeSnippet
    split
    · rfl
    · rfl

theorem rowKey_prepare {built entry : MemoryEntry} {op : StoreOp}
    (h : c.prepare db r built = .accepted entry op) : rowKey entry = rowKey built := by
  unfold prepare at h
  split at h
  · cases h
  · split at h
    · cases h
    · cases hprepared : prepareEntryForStore (c.intake r.sessionId) built with
      | none =>
          rw [hprepared] at h
          dsimp only at h
          split at h
          · cases h
          · cases h
      | some prepared =>
          rw [hprepared] at h
          obtain ⟨rfl, -⟩ := Decision.accepted.inj h
          exact rowKey_prepared hprepared

theorem existingEntry_key (hkeyed : RowsKeyed db) {existing : Option MemoryEntry}
    (h : c.existingEntry db r = .ok existing) : ∀ e ∈ existing, rowKey e = (c.request r).key := by
  intro e he
  obtain rfl := Option.mem_def.mp he
  unfold existingEntry at h
  split at h
  · exact rowKey_backendGet hkeyed h
  · cases h

/-- A decision reads the row of its request, and no other. -/
theorem decision_congr (hkeyed : RowsKeyed db)
    (h : db.memories.find (c.request r).key = db'.memories.find (c.request r).key) :
    c.decision .bulkStore db r = c.decision .bulkStore db' r := by
  have hexisting : c.existingEntry db r = c.existingEntry db' r := by
    unfold existingEntry
    rw [backendGet_congr h]
  unfold decision
  rw [← hexisting]
  split
  · rfl
  · cases hread : c.existingEntry db r with
    | error e => rfl
    | ok existing =>
        dsimp only
        split
        · rfl
        · cases hbuilt : buildStoreEntry .bulkStore (c.request r) existing with
          | none => rfl
          | some built =>
              dsimp only
              unfold prepare
              rw [rowKey_built (existingEntry_key hkeyed hread) hbuilt, backendGet_congr h]

theorem rowKey_taken (hkeyed : RowsKeyed db) {entry : MemoryEntry} {op : StoreOp}
    (h : (c.decision .bulkStore db r).taken = some (entry, op)) :
    rowKey entry = (c.request r).key := by
  have haccepted := accepted_of_taken h
  unfold decision at haccepted
  split at haccepted
  · cases haccepted
  · cases hread : c.existingEntry db r with
    | error e => rw [hread] at haccepted; cases haccepted
    | ok existing =>
        rw [hread] at haccepted
        dsimp only at haccepted
        split at haccepted
        · cases haccepted
        · cases hbuilt : buildStoreEntry .bulkStore (c.request r) existing with
          | none => rw [hbuilt] at haccepted; cases haccepted
          | some built =>
              rw [hbuilt] at haccepted
              rw [← rowKey_built (existingEntry_key hkeyed hread) hbuilt]
              exact rowKey_prepare haccepted

/-- A store writes under the key of its request, if anywhere. -/
theorem store_elsewhere (hkeyed : RowsKeyed db) :
    RowsKeyed (c.store db r).2 ∧ ∀ k, k ≠ (c.request r).key →
      (c.store db r).2.memories.find k = db.memories.find k := by
  cases htaken : (c.decision .bulkStore db r).taken with
  | none =>
      rw [store_untaken htaken]
      exact ⟨hkeyed, fun _ _ => rfl⟩
  | some taken =>
      obtain ⟨entry, op⟩ := taken
      cases hwritable : c.writable db entry with
      | false =>
          rw [store_refused htaken hwritable]
          exact ⟨hkeyed, fun _ _ => rfl⟩
      | true =>
          obtain ⟨written, hstore, hmemories, -⟩ := store_taken htaken hwritable
          rw [hstore]
          refine ⟨fun k e he => ?_, fun k hk => ?_⟩
          · rw [hmemories] at he
            exact rowsKeyed_put hkeyed
              (rfl : rowKey (stampSync c.digest entry) = rowKey entry) k e he
          · rw [hmemories, Table.find_put_of_ne]
            rwa [rowKey_taken hkeyed htaken]

/-- Requests of distinct ids are decided alike. -/
theorem decidedAlike_of_distinct {requests : List BulkStoreRequest}
    (hdistinct : (requests.map fun r => (c.request r).key).Nodup) {current : Db}
    (hcurrent : RowsKeyed current)
    (hsame : ∀ r ∈ requests,
      current.memories.find (c.request r).key = db.memories.find (c.request r).key) :
    c.DecidedAlike db current requests := by
  induction requests generalizing current with
  | nil => trivial
  | cons r rest ih =>
      obtain ⟨hfresh, hrest⟩ := List.nodup_cons.mp hdistinct
      obtain ⟨hstored, helsewhere⟩ := store_elsewhere (c := c) (r := r) hcurrent
      refine ⟨?_, ih hrest hstored fun r' hr' => ?_⟩
      · rw [decision_congr hcurrent (hsame r List.mem_cons_self)]
      · rw [helsewhere _ fun heq => hfresh (List.mem_map.mpr ⟨r', hr', heq⟩)]
        exact hsame r' (List.mem_cons_of_mem r hr')

end Distinct

/-- The batch against the single stores. Where it is empty, or a request of it raises over the
store as it is, it raises and writes nothing. Else, if every request is decided alike one by
one, it ends as they do, up to vectors derived from the entries of the batch. -/
theorem bulkStoreImpl_one_by_one (db : Db) (requests : List BulkStoreRequest) :
    (requests = [] ∨ (∃ r ∈ requests, c.decision .bulkStore db r = .raises) →
        c.bulkStoreImpl db requests = (none, db)) ∧
      (requests ≠ [] → (∀ r ∈ requests, c.decision .bulkStore db r ≠ .raises) →
        c.DecidedAlike db db requests →
          c.EndsLike (c.LeftBehind db requests) db db requests (c.bulkStoreImpl db requests)) := by
  refine ⟨?_, fun hne hnone halike => ?_⟩
  · rintro (rfl | hraises)
    · rfl
    · rw [bulkStoreImpl, plan_eq_none.mpr hraises]
      exact ite_self _
  · have hnonempty : ¬requests.isEmpty = true := by
      rwa [List.isEmpty_iff]
    cases hplan : c.plan db requests with
    | none =>
        obtain ⟨r, hr, hraises⟩ := plan_eq_none.mp hplan
        exact absurd hraises (hnone r hr)
    | some decisions =>
        rw [bulkStoreImpl, if_neg hnonempty, hplan]
        exact persist_endsLike (fun _ h => h) hplan halike ⟨fun _ => rfl, fun _ _ => rfl⟩
          fun _ h => h

end StoringClient

def southClient (intake : Intake) : StoringClient where
  ns := "south"
  installationId := "installation"
  localNodeId := "node"
  digest := rowDigest
  digests := textDigest
  writer := textOnly
  blocks := fun _ => false
  defaultsResolve := true
  intake := fun _ => intake
  encode := fun _ => none
  now := ⟨0, some 0⟩

def named (id content : String) : BulkStoreRequest where
  content
  detail := ""
  tags := []
  importance := 1 / 2
  metadata := ∅
  source := .agent
  sourceIdentity := ""
  sessionId := none
  entryId := some id
  evidence := none
  expires := ""
  assertions := none
  drawn := ⟨"M-0", by decide⟩

/-- A batch of two ids, of which one is turned away, ends as it should. -/
theorem bulkStoreImpl_two_ids :
    let c := southClient openGate
    let requests := [named "a" "first", named "b" " "]
    c.EndsLike (c.LeftBehind Db.empty requests) Db.empty Db.empty requests
      (c.bulkStoreImpl Db.empty requests) := by
  intro c requests
  have hkeyed : RowsKeyed Db.empty := by
    intro k e he
    cases (Table.find_empty k).symm.trans he
  refine (c.bulkStoreImpl_one_by_one Db.empty requests).2 (by decide) ?_
    (StoringClient.decidedAlike_of_distinct (by decide) hkeyed fun _ _ => rfl)
  have hplan : (c.plan Db.empty requests).isSome = true := by decide +kernel
  intro r hr hraises
  rw [StoringClient.plan_eq_none.mpr ⟨r, hr, hraises⟩] at hplan
  cases hplan

/-- An id that comes twice is stored twice by the batch, and then updated one by one. Without a
signing key the batch raises, where each store is a rejection. -/
theorem bulkStoreImpl_differs :
    (let c := southClient openGate
      let requests := [named "a" "first", named "a" "second"]
      (c.bulkStoreImpl Db.empty requests).1 ≠ some (c.storeEach Db.empty requests).1) ∧
    (let c := southClient { openGate with sign := fun _ => none }
      let requests := [named "a" "first"]
      (c.bulkStoreImpl Db.empty requests).1 ≠ some (c.storeEach Db.empty requests).1) := by
  decide +kernel

end TrwMemory.Tools

import TrwMemory.Storage.BatchObjects

/-!
Storing a batch and storing its entries one by one. They leave the same store and the
same objects when no claim is carried over an entry of the batch that does not carry
it, and when every row can be bound; `store_many` compares a violating entry with the
row that the batch found, `store` with the entry stored before it.
-/
namespace TrwMemory.Storage

open Library.Keyed Sync

variable {ρ : Type} [DecidableEq ρ]

theorem mapError_ok {α β : Type} {f : α → β} {x : Except α Unit} :
    x.mapError f = .ok () ↔ x = .ok () := by
  cases x with
  | error _ => exact ⟨fun h => (by cases h), fun h => (by cases h)⟩
  | ok _ => exact ⟨fun _ => rfl, fun _ => rfl⟩

/-- A violating entry is admitted over a row that carries the same claim. -/
theorem refuseViolation_ok {replaced : Option MemoryEntry} {e : MemoryEntry} :
    refuseViolation replaced e = .ok () ↔
      (violatesEvidenceInvariant e = true → ∃ row, replaced = some row ∧
        (rowToEntry row).isSome = true ∧ violatesEvidenceInvariant row = true ∧
        sameClaim row e = true) := by
  unfold refuseViolation
  cases hv : violatesEvidenceInvariant e with
  | false => exact ⟨fun _ h => (by cases h), fun _ => rfl⟩
  | true =>
      cases replaced with
      | none => simp [mapError_ok, refuseNewViolation_ok, hv]
      | some row =>
          cases hread : rowToEntry row with
          | none => simp [hread]
          | some existing =>
              obtain rfl := rowToEntry_eq hread
              have hviolates : violatesEvidenceInvariant (readBack row) =
                  violatesEvidenceInvariant row := rfl
              have hclaim : sameClaim (readBack row) e = sameClaim row e := rfl
              simp [mapError_ok, refuseNewViolation_ok, hv, hviolates, hclaim, hread]

theorem refuseViolation_restamped {replaced : Option MemoryEntry} {e e' : MemoryEntry}
    (h : Restamped e e') :
    refuseViolation replaced e' = .ok () ↔ refuseViolation replaced e = .ok () := by
  rw [refuseViolation_ok, refuseViolation_ok, h.violates]
  simp only [h.sameClaim_right]

theorem forM_ok {α : Type} {check : α → Except WriteError Unit} {values : List α} :
    values.forM check = .ok () ↔ ∀ a ∈ values, check a = .ok () := by
  rw [List.forM_eq_forM]
  induction values with
  | nil => simp [pure, Except.pure]
  | cons a values ih =>
      rw [List.forM_cons, List.forall_mem_cons, ← ih]
      cases check a with
      | error _ => simp [bind, Except.bind]
      | ok _ => simp [bind, Except.bind]

theorem storeRow_eq_ok {digest : SyncContent → String} {replaced : Option MemoryEntry}
    {e row : MemoryEntry} :
    storeRow digest replaced e = .ok row ↔
      validateEntryForWrite e = .ok () ∧ refuseViolation replaced e = .ok () ∧
        row = stampSync digest e := by
  unfold storeRow
  cases hv : validateEntryForWrite e with
  | error _ => simp [bind, Except.bind]
  | ok _ =>
      cases hr : refuseViolation replaced e with
      | error _ => simp [bind, Except.bind]
      | ok _ => simp [bind, Except.bind, pure, Except.pure, eq_comm]

/-- The last object of the batch with the key. -/
def lastRef (objects : ρ → MemoryEntry) (refs : List ρ) (k : RowKey) : Option ρ :=
  refs.reverse.find? fun r => rowKey (objects r) = k

/-- The batch passes its own checks: each entry is written over the row found. -/
def Admitted (held : Held ρ) (refs : List ρ) : Prop :=
  ∀ r ∈ refs, validateEntryForWrite (held.objects r) = .ok () ∧
    refuseViolation (held.db.memories.find (rowKey (held.objects r))) (held.objects r) = .ok ()

/-- A violating entry comes after no entry of its key, or right after one that violates
too and can be read back. -/
def Carried (objects : ρ → MemoryEntry) (refs : List ρ) : Prop :=
  ∀ before r rest, refs = before ++ r :: rest → violatesEvidenceInvariant (objects r) = true →
    ∀ p, lastRef objects before (rowKey (objects r)) = some p →
      violatesEvidenceInvariant (objects p) = true ∧
        (rowToEntry (unacknowledged (objects p))).isSome = true

/-- The object after it was numbered `n` times. -/
def numbered (e : MemoryEntry) (n : Nat) : MemoryEntry := { e with syncSeq := e.syncSeq + n }

/-- The integers of every object can be bound with its first and with its last number. -/
def Bindable (objects : ρ → MemoryEntry) (refs : List ρ) : Prop :=
  ∀ r ∈ refs, bindable (numbered (objects r) 1) = true ∧
    bindable (numbered (objects r) (refs.count r)) = true

theorem bindable_restamped {e e' : MemoryEntry} (h : Restamped e e') {n : Nat}
    (hseq : e'.syncSeq = e.syncSeq + n) : bindable e' = bindable (numbered e n) := by
  obtain ⟨seq, _, _, rfl⟩ := h
  simp only at hseq
  subst hseq
  rfl

/-- Between two numbers that fit, every number fits. -/
theorem bindable_between {e : MemoryEntry} {n m : Nat} (hone : bindable (numbered e 1) = true)
    (hm : bindable (numbered e m) = true) (hn : 1 ≤ n) (hnm : n ≤ m) :
    bindable (numbered e n) = true := by
  simp only [bindable, numbered, Bool.and_eq_true, fitsInteger_iff] at hone hm ⊢
  omega

theorem bindable_stamped (digest : SyncContent → String) (objects : ρ → MemoryEntry)
    (refs : List ρ) (r : ρ) :
    bindable (stampSyncBookkeeping digest objects refs r) =
      bindable (numbered (objects r) (refs.count r)) :=
  bindable_restamped (restamped_stampSyncBookkeeping digest objects refs r)
    (syncSeq_stampSyncBookkeeping digest objects refs r)

omit [DecidableEq ρ] in
theorem lastRef_concat (objects : ρ → MemoryEntry) (refs : List ρ) (r : ρ) (k : RowKey) :
    lastRef objects (refs ++ [r]) k =
      if rowKey (objects r) = k then some r else lastRef objects refs k := by
  rw [lastRef, List.reverse_append, List.reverse_singleton, List.singleton_append, List.find?_cons]
  split
  · rename_i h
    rw [if_pos (by simpa using h)]
  · rename_i h
    rw [if_neg (by simpa using h)]
    rfl

omit [DecidableEq ρ] in
theorem lastRef_mem {objects : ρ → MemoryEntry} {refs : List ρ} {k : RowKey} {r : ρ}
    (h : lastRef objects refs k = some r) : r ∈ refs ∧ rowKey (objects r) = k :=
  ⟨List.mem_reverse.mp (List.mem_of_find?_eq_some h), by simpa using List.find?_some h⟩

variable {digest : SyncContent → String} {b : Backend} {held after : Held ρ}

theorem storeObject_ok {r : ρ} :
    storeObject digest b held r = .ok after ↔
      validateEntryForWrite (held.objects r) = .ok () ∧
      refuseViolation (held.db.memories.find (rowKey (held.objects r))) (held.objects r) = .ok () ∧
      bindable (stampSync digest (held.objects r)) = true ∧
      after = ⟨Function.update held.objects r (stampSync digest (held.objects r)),
        execute (storeStatements b (stampSync digest (held.objects r))) held.db⟩ := by
  unfold storeObject
  dsimp only
  cases hrow : storeRow digest (held.db.memories.find (rowKey (held.objects r)))
      (held.objects r) with
  | error _ =>
      refine ⟨fun h => (by cases h), fun ⟨hv, hr, _⟩ => ?_⟩
      rw [storeRow_eq_ok.mpr ⟨hv, hr, rfl⟩] at hrow
      cases hrow
  | ok row =>
      obtain ⟨hv, hr, rfl⟩ := storeRow_eq_ok.mp hrow
      dsimp only
      cases hb : bindable (stampSync digest (held.objects r)) with
      | true => simp [hv, hr, eq_comm]
      | false => simp

theorem storeEach_concat (held : Held ρ) (refs : List ρ) (r : ρ) :
    storeEach digest b held (refs ++ [r]) =
      match storeEach digest b held refs with
      | .error failure => .error failure
      | .ok after => storeObject digest b after r := by
  induction refs generalizing held with
  | nil =>
      simp only [List.nil_append, storeEach]
      cases storeObject digest b held r <;> rfl
  | cons s refs ih =>
      simp only [List.cons_append, storeEach]
      cases storeObject digest b held s with
      | error _ => rfl
      | ok after => exact ih after

theorem storeEach_concat_ok {refs : List ρ} {r : ρ} :
    storeEach digest b held (refs ++ [r]) = .ok after ↔
      ∃ mid, storeEach digest b held refs = .ok mid ∧ storeObject digest b mid r = .ok after := by
  rw [storeEach_concat]
  cases storeEach digest b held refs <;> simp

/-- What storing the entries one by one leaves. -/
structure StoredEach (digest : SyncContent → String) (b : Backend) (held : Held ρ)
    (refs : List ρ) (after : Held ρ) : Prop where
  objects : after.objects = stampSyncBookkeeping digest held.objects refs
  memories : ∀ k, after.db.memories.find k =
    ((lastRef held.objects refs k).map after.objects).or (held.db.memories.find k)
  indexed : Indexed b after.db
  noFts : b.ftsAvailable = false → after.db.memoriesFts = held.db.memoriesFts ∧
    after.db.memoriesFtsRowid = held.db.memoriesFtsRowid
  tags : after.db.memoryTags =
    postRows (fun e => tagPostings e.tags) held.db.memoryTags (refs.map held.objects)
  anchors : after.db.anchorPostings =
    postRows (fun e => anchorFiles e.anchors) held.db.anchorPostings (refs.map held.objects)
  edges : after.db.graphEdges = held.db.graphEdges
  vectors : after.db.vectors = held.db.vectors

theorem StoredEach.restamped {refs : List ρ} (h : StoredEach digest b held refs after) (r : ρ) :
    Restamped (held.objects r) (after.objects r) := by
  rw [h.objects]
  exact restamped_stampSyncBookkeeping digest held.objects refs r

theorem storedEach_nil (hindexed : Indexed b held.db) : StoredEach digest b held [] held where
  objects := rfl
  memories _ := rfl
  indexed := hindexed
  noFts _ := ⟨rfl, rfl⟩
  tags := rfl
  anchors := rfl
  edges := rfl
  vectors := rfl

/-- One more entry. -/
theorem StoredEach.concat {refs : List ρ} {mid : Held ρ} (h : StoredEach digest b held refs mid)
    {r : ρ} (hstore : storeObject digest b mid r = .ok after) :
    StoredEach digest b held (refs ++ [r]) after := by
  obtain ⟨-, -, -, rfl⟩ := storeObject_ok.mp hstore
  obtain ⟨row, hrow⟩ : ∃ row, row = stampSync digest (mid.objects r) := ⟨_, rfl⟩
  have hre : Restamped (held.objects r) row :=
    hrow ▸ (h.restamped r).trans (restamped_stampSync digest _)
  obtain ⟨fts, map, hexec, -, hnone⟩ := parts_storeStatements h.indexed row
  rw [← hrow, hexec]
  have hindexed := indexed_storeStatements h.indexed row
  rw [hexec] at hindexed
  refine ⟨?_, fun k => ?_, hindexed, fun hb => ?_, ?_, ?_, h.edges, h.vectors⟩
  · rw [stampSyncBookkeeping_concat, ← h.objects, hrow]
  · rw [lastRef_concat]
    by_cases hk : rowKey (held.objects r) = k
    · rw [if_pos hk, Table.find_put, if_pos (hk.symm.trans hre.key.symm)]
      simp
    · rw [if_neg hk, Table.find_put, if_neg fun heq => hk (hre.key.symm.trans heq.symm),
        h.memories k]
      cases hlast : lastRef held.objects refs k with
      | none => rfl
      | some p =>
          have hne : p ≠ r := by
            rintro rfl
            exact hk (lastRef_mem hlast).2
          simp [Function.update_of_ne hne]
  · obtain ⟨rfl, rfl⟩ := hnone hb
    exact h.noFts hb
  · simp only [List.map_append, List.map_cons, List.map_nil, postRows_concat, ← h.tags, hre.key,
      hre.tags]
  · simp only [List.map_append, List.map_cons, List.map_nil, postRows_concat, ← h.anchors, hre.key,
      hre.anchors]

theorem storedEach (hindexed : Indexed b held.db) {refs : List ρ}
    (h : storeEach digest b held refs = .ok after) : StoredEach digest b held refs after := by
  induction refs using List.reverseRecOn generalizing after with
  | nil =>
      obtain rfl := Except.ok.inj h
      exact storedEach_nil hindexed
  | append_singleton refs r ih =>
      obtain ⟨mid, hmid, hstore⟩ := storeEach_concat_ok.mp h
      exact (ih hmid).concat hstore

omit [DecidableEq ρ] in
theorem carried_concat {objects : ρ → MemoryEntry} {refs : List ρ} {r : ρ} :
    Carried objects (refs ++ [r]) ↔
      Carried objects refs ∧ (violatesEvidenceInvariant (objects r) = true →
        ∀ p, lastRef objects refs (rowKey (objects r)) = some p →
          violatesEvidenceInvariant (objects p) = true ∧
            (rowToEntry (unacknowledged (objects p))).isSome = true) := by
  constructor
  · intro h
    refine ⟨fun before s rest hrefs => ?_, h refs r [] rfl⟩
    exact h before s (rest ++ [r]) (by rw [hrefs, List.append_assoc, List.cons_append])
  · rintro ⟨hrefs, hr⟩ before s rest heq
    cases rest using List.reverseRecOn with
    | nil =>
        obtain ⟨rfl, hs⟩ := List.append_inj' heq rfl
        obtain rfl := List.singleton_injective hs
        exact hr
    | append_singleton rest x =>
        rw [← List.cons_append, ← List.append_assoc] at heq
        obtain ⟨rfl, -⟩ := List.append_inj' heq rfl
        exact hrefs before s rest rfl

/-- Every number an object is given fits. -/
def Numbered (objects : ρ → MemoryEntry) (refs : List ρ) : Prop :=
  ∀ r n, 1 ≤ n → n ≤ refs.count r → bindable (numbered (objects r) n) = true

theorem numbered_iff {objects : ρ → MemoryEntry} {refs : List ρ} :
    Numbered objects refs ↔ Bindable objects refs := by
  constructor
  · intro h r hr
    have hpos : 1 ≤ refs.count r := List.count_pos_iff.mpr hr
    exact ⟨h r 1 le_rfl hpos, h r _ hpos le_rfl⟩
  · intro h r n hn hcount
    have hr : r ∈ refs := List.count_pos_iff.mp (by omega)
    exact bindable_between (h r hr).1 (h r hr).2 hn hcount

theorem numbered_concat {objects : ρ → MemoryEntry} {refs : List ρ} {r : ρ} :
    Numbered objects (refs ++ [r]) ↔
      Numbered objects refs ∧ bindable (numbered (objects r) (refs.count r + 1)) = true := by
  have hself : (refs ++ [r]).count r = refs.count r + 1 := by
    rw [List.count_append, List.count_singleton_self]
  have hother : ∀ s, s ≠ r → (refs ++ [r]).count s = refs.count s := fun s hs => by
    have hnone : [r].count s = 0 := List.count_eq_zero.mpr (by simpa using hs)
    rw [List.count_append, hnone, Nat.add_zero]
  constructor
  · intro h
    refine ⟨fun s n hn hcount => h s n hn ?_, h r _ (by omega) hself.ge⟩
    rw [List.count_append]
    omega
  · rintro ⟨hrefs, hr⟩ s n hn hcount
    by_cases hs : s = r
    · subst hs
      rw [hself] at hcount
      rcases Nat.lt_or_eq_of_le hcount with hbefore | rfl
      · exact hrefs s n hn (Nat.le_of_lt_succ hbefore)
      · exact hr
    · exact hrefs s n hn (hother s hs ▸ hcount)

omit [DecidableEq ρ] in
theorem admitted_concat {refs : List ρ} {r : ρ} :
    Admitted held (refs ++ [r]) ↔
      Admitted held refs ∧ validateEntryForWrite (held.objects r) = .ok () ∧
        refuseViolation (held.db.memories.find (rowKey (held.objects r))) (held.objects r) =
          .ok () := by
  simp only [Admitted, List.forall_mem_append, List.forall_mem_singleton]

/-- The row an entry replaces is that of the last entry of its key, or the row found. -/
theorem StoredEach.replaced {refs : List ρ} (h : StoredEach digest b held refs after) {r : ρ} :
    refuseViolation (after.db.memories.find (rowKey (held.objects r))) (held.objects r) = .ok () ↔
      match lastRef held.objects refs (rowKey (held.objects r)) with
      | none => refuseViolation (held.db.memories.find (rowKey (held.objects r)))
          (held.objects r) = .ok ()
      | some p => violatesEvidenceInvariant (held.objects r) = true →
          (rowToEntry (unacknowledged (held.objects p))).isSome = true ∧
            violatesEvidenceInvariant (held.objects p) = true ∧
            sameClaim (held.objects p) (held.objects r) = true := by
  rw [h.memories]
  cases hlast : lastRef held.objects refs (rowKey (held.objects r)) with
  | none => rfl
  | some p =>
      have hp := h.restamped p
      have hnone : (after.objects p).lastSyncedAt = none := by
        rw [h.objects]
        exact stampSyncBookkeeping_lastSyncedAt digest held.objects (lastRef_mem hlast).1
      rw [refuseViolation_ok, Option.map_some, Option.some_or]
      simp only [Option.some.injEq, exists_eq_left', hp.readable hnone, hp.violates,
        hp.sameClaim_left]

/-- Two entries over one row that carry its claim carry one claim. -/
theorem sameClaim_of_row {row e e' : MemoryEntry} (h : sameClaim row e = true)
    (h' : sameClaim row e' = true) : sameClaim e e' = true := by
  simp only [sameClaim, Bool.and_eq_true, beq_iff_eq] at h h' ⊢
  exact ⟨h.1.symm.trans h'.1, h.2.symm.trans h'.2⟩

theorem sameClaim_trans {row e e' : MemoryEntry} (h : sameClaim row e = true)
    (h' : sameClaim e e' = true) : sameClaim row e' = true := by
  simp only [sameClaim, Bool.and_eq_true, beq_iff_eq] at h h' ⊢
  exact ⟨h.1.trans h'.1, h.2.trans h'.2⟩

omit [DecidableEq ρ] in
/-- Over the entries stored so far, the check of `store` is the check of the batch and
that of the carried claims. -/
theorem replaced_iff {refs : List ρ} (hadmitted : Admitted held refs) {r : ρ} :
    (match lastRef held.objects refs (rowKey (held.objects r)) with
      | none => refuseViolation (held.db.memories.find (rowKey (held.objects r)))
          (held.objects r) = .ok ()
      | some p => violatesEvidenceInvariant (held.objects r) = true →
          (rowToEntry (unacknowledged (held.objects p))).isSome = true ∧
            violatesEvidenceInvariant (held.objects p) = true ∧
            sameClaim (held.objects p) (held.objects r) = true) ↔
      refuseViolation (held.db.memories.find (rowKey (held.objects r))) (held.objects r) =
          .ok () ∧
        (violatesEvidenceInvariant (held.objects r) = true →
          ∀ p, lastRef held.objects refs (rowKey (held.objects r)) = some p →
            violatesEvidenceInvariant (held.objects p) = true ∧
              (rowToEntry (unacknowledged (held.objects p))).isSome = true) := by
  cases hlast : lastRef held.objects refs (rowKey (held.objects r)) with
  | none => simp
  | some p =>
      obtain ⟨hmem, hkey⟩ := lastRef_mem hlast
      have hp := refuseViolation_ok.mp (hadmitted p hmem).2
      rw [hkey] at hp
      simp only [Option.some.injEq, forall_eq', refuseViolation_ok]
      constructor
      · intro h
        refine ⟨fun hv => ?_, fun hv => ⟨(h hv).2.1, (h hv).1⟩⟩
        obtain ⟨-, hpv, hclaim⟩ := h hv
        obtain ⟨row, hrow, hread, hrowv, hrowp⟩ := hp hpv
        exact ⟨row, hrow, hread, hrowv, sameClaim_trans hrowp hclaim⟩
      · rintro ⟨hr, hcarried⟩ hv
        obtain ⟨hpv, hpread⟩ := hcarried hv
        obtain ⟨row, hrow, -, -, hrowr⟩ := hr hv
        obtain ⟨row', hrow', -, -, hrowp⟩ := hp hpv
        obtain rfl := Option.some.inj (hrow.symm.trans hrow')
        exact ⟨hpread, hpv, sameClaim_of_row hrowp hrowr⟩

/-- One more entry can be stored. -/
theorem StoredEach.storable {refs : List ρ} {mid : Held ρ}
    (h : StoredEach digest b held refs mid) (hadmitted : Admitted held refs) {r : ρ} :
    (∃ after, storeObject digest b mid r = .ok after) ↔
      (validateEntryForWrite (held.objects r) = .ok () ∧
        refuseViolation (held.db.memories.find (rowKey (held.objects r))) (held.objects r) =
          .ok ()) ∧
      (violatesEvidenceInvariant (held.objects r) = true →
        ∀ p, lastRef held.objects refs (rowKey (held.objects r)) = some p →
          violatesEvidenceInvariant (held.objects p) = true ∧
            (rowToEntry (unacknowledged (held.objects p))).isSome = true) ∧
      bindable (numbered (held.objects r) (refs.count r + 1)) = true := by
  have hr := h.restamped r
  have hbind : bindable (stampSync digest (mid.objects r)) =
      bindable (numbered (held.objects r) (refs.count r + 1)) := by
    apply bindable_restamped (hr.trans (restamped_stampSync digest _))
    rw [stampSync, h.objects]
    simp only [syncSeq_stampSyncBookkeeping, Nat.cast_add, Nat.cast_one]
    ring
  have hstore := h.replaced.trans (replaced_iff hadmitted (r := r))
  simp only [storeObject_ok, hbind, hr.key, hr.validate, refuseViolation_restamped hr, hstore]
  constructor
  · rintro ⟨_, hv, ⟨hrefuse, hcarried⟩, hb, -⟩
    exact ⟨⟨hv, hrefuse⟩, hcarried, hb⟩
  · rintro ⟨⟨hv, hrefuse⟩, hcarried, hb⟩
    exact ⟨_, hv, ⟨hrefuse, hcarried⟩, hb, rfl⟩

theorem storeEach_isOk_iff (digest : SyncContent → String) (hindexed : Indexed b held.db)
    (refs : List ρ) :
    (∃ after, storeEach digest b held refs = .ok after) ↔
      Admitted held refs ∧ Carried held.objects refs ∧ Numbered held.objects refs := by
  induction refs using List.reverseRecOn with
  | nil =>
      refine ⟨fun _ => ⟨fun _ h => (by cases h), fun before _ _ h => ?_, fun _ n hn h => ?_⟩,
        fun _ => ⟨held, rfl⟩⟩
      · cases before <;> cases h
      · simp at h
        omega
  | append_singleton refs r ih =>
      rw [admitted_concat, carried_concat, numbered_concat]
      constructor
      · rintro ⟨after, h⟩
        obtain ⟨mid, hmid, hstore⟩ := storeEach_concat_ok.mp h
        obtain ⟨hadmitted, hcarried, hnumbered⟩ := ih.mp ⟨mid, hmid⟩
        obtain ⟨hr, hrc, hrb⟩ :=
          ((storedEach hindexed hmid).storable hadmitted).mp ⟨after, hstore⟩
        exact ⟨⟨hadmitted, hr⟩, ⟨hcarried, hrc⟩, hnumbered, hrb⟩
      · rintro ⟨⟨hadmitted, hr⟩, ⟨hcarried, hrc⟩, hnumbered, hrb⟩
        obtain ⟨mid, hmid⟩ := ih.mpr ⟨hadmitted, hcarried, hnumbered⟩
        obtain ⟨after, hstore⟩ :=
          ((storedEach hindexed hmid).storable hadmitted).mpr ⟨hr, hrc, hrb⟩
        exact ⟨after, storeEach_concat_ok.mpr ⟨mid, hmid, hstore⟩⟩

end TrwMemory.Storage

import TrwMemory.Tools.Forget

/-!
`memory_forget` by actor, repeated until it no longer reports truncated: the repetition ends,
what all its calls remove together, and when that is every copy of the actor's rows. With what
a call by id leaves, this is when erasure is complete.
-/
namespace TrwMemory.Tools

open Library.Keyed Storage Security Lifecycle

section Actor

variable {config : ForgetConfig} {ns actor : String}

/-- The ids of the actor's rows that are seen. -/
def actorIds (config : ForgetConfig) (c : Copies) (ns actor : String) : List String :=
  (actorRows config c ns actor).map MemoryEntry.id

def seen (config : ForgetConfig) (actor : String) (row : MemoryEntry) : Bool :=
  row.sourceIdentity == actor && config.scans row

theorem actorRows_perm (c : Copies) :
    (actorRows config c ns actor).Perm ((c.active.rowsOf ns).filter (seen config actor)) :=
  (config.order_perm _).filter _

theorem mem_actorIds {c : Copies} {id : String} : id ∈ actorIds config c ns actor ↔
    ∃ row ∈ c.active.rowsOf ns, seen config actor row = true ∧ row.id = id := by
  rw [actorIds, List.mem_map]
  refine exists_congr fun row => ?_
  rw [(actorRows_perm c).mem_iff, List.mem_filter, and_assoc]

theorem forgetRow_held (c : Copies) (held : EntryStore) (id : String) :
    forgetRow config ns { c with held } id = { forgetRow config ns c id with held } := by
  rw [forgetRow, forgetRow, removeEntryFromTiers, removeEntryFromTiers]
  split <;> rfl

theorem foldl_forgetRow_held (ids : List String) (c : Copies) (held : EntryStore) :
    ids.foldl (forgetRow config ns) { c with held } =
      { ids.foldl (forgetRow config ns) c with held } := by
  induction ids generalizing c with
  | nil => rfl
  | cons id ids ih =>
      rw [List.foldl_cons, forgetRow_held, ih, List.foldl_cons]

/-- The stores after the rows of some ids are deleted. -/
theorem foldl_forgetRow (ids : List String) (c : Copies) :
    (ids.foldl (forgetRow config ns) c).held = c.held ∧
      (ids.foldl (forgetRow config ns) c).active.rowsOf ns =
        (c.active.rowsOf ns).filter fun row => !ids.contains row.id := by
  induction ids generalizing c with
  | nil => simp
  | cons id ids ih =>
      have hfirst : (forgetRow config ns c id).held = c.held ∧
          (forgetRow config ns c id).active = c.active.delete ⟨ns, id⟩ := by
        rw [forgetRow, removeEntryFromTiers]
        split <;> exact ⟨rfl, rfl⟩
      obtain ⟨hheld, hrows⟩ := ih (forgetRow config ns c id)
      refine ⟨hheld.trans hfirst.1, hrows.trans ?_⟩
      rw [hfirst.2, EntryStore.rowsOf_delete, List.filter_filter]
      apply List.filter_congr
      intro row _
      rw [List.contains_cons, Bool.not_or, Bool.and_comm, bne]

/-- The actor's rows after a call. -/
theorem actorRows_forget (c : Copies) :
    (actorRows config (forgetByActor config c ns actor) ns actor).Perm
      ((actorRows config c ns actor).filter fun row =>
        !(forgotten config c ns actor).contains row.id) := by
  refine (actorRows_perm _).trans ?_
  have hrows : (forgetByActor config c ns actor).active.rowsOf ns =
      (c.active.rowsOf ns).filter fun row => !(forgotten config c ns actor).contains row.id :=
    (foldl_forgetRow _ c).2
  rw [hrows, List.filter_filter]
  refine List.Perm.trans ?_ ((actorRows_perm c).symm.filter _)
  rw [List.filter_filter]
  exact List.Perm.of_eq (List.filter_congr fun row _ => Bool.and_comm _ _)

/-- A call that is truncated leaves fewer. -/
theorem length_actorRows_forget {c : Copies} (h : truncated config c ns actor = true) :
    (actorRows config (forgetByActor config c ns actor) ns actor).length <
      (actorRows config c ns actor).length := by
  rw [(actorRows_forget c).length_eq, List.length_filter_lt_length_iff_exists]
  have hmany : SCAN_ROWS < (actorRows config c ns actor).length := of_decide_eq_true h
  cases hrows : actorRows config c ns actor with
  | nil =>
      rw [hrows] at hmany
      exact absurd hmany (Nat.not_lt_zero _)
  | cons row rows =>
      refine ⟨row, List.mem_cons_self, ?_⟩
      rw [Bool.not_eq_true', Bool.not_eq_false, List.contains_iff_mem, forgotten, hrows]
      exact List.mem_map_of_mem List.mem_cons_self

theorem actorIds_forget {c : Copies} {id : String} :
    id ∈ actorIds config (forgetByActor config c ns actor) ns actor ↔
      id ∈ actorIds config c ns actor ∧ id ∉ forgotten config c ns actor := by
  rw [actorIds, List.mem_map, actorIds, List.mem_map]
  constructor
  · rintro ⟨row, hrow, rfl⟩
    rw [(actorRows_forget c).mem_iff, List.mem_filter] at hrow
    exact ⟨⟨row, hrow.1, rfl⟩, by simpa using hrow.2⟩
  · rintro ⟨⟨row, hrow, rfl⟩, hleft⟩
    refine ⟨row, ?_, rfl⟩
    rw [(actorRows_forget c).mem_iff, List.mem_filter]
    exact ⟨hrow, by simpa using hleft⟩

theorem forgotten_subset {c : Copies} {id : String} (h : id ∈ forgotten config c ns actor) :
    id ∈ actorIds config c ns actor := by
  obtain ⟨row, hrow, rfl⟩ := List.mem_map.mp h
  exact List.mem_map_of_mem (List.mem_of_mem_take hrow)

/-- A call that is not truncated deletes all of them. -/
theorem forgotten_all {c : Copies} (h : truncated config c ns actor = false) :
    forgotten config c ns actor = actorIds config c ns actor := by
  have hfew : (actorRows config c ns actor).length ≤ SCAN_ROWS :=
    Nat.not_lt.mp (of_decide_eq_false h)
  rw [forgotten, List.take_of_length_le hfew, actorIds]

/-- Calls that are repeated while they are truncated come to an end, and together they forget
the rows that were seen at the start. -/
theorem beforeLast_spec (calls : Nat) (c : Copies)
    (h : (actorRows config c ns actor).length ≤ calls) :
    truncated config (beforeLast config ns actor calls c) ns actor = false ∧
      ∃ ids : List String, (∀ id, id ∈ ids ↔ id ∈ actorIds config c ns actor) ∧
        forgetByActor config (beforeLast config ns actor calls c) ns actor =
          { ids.foldl (forgetRow config ns) c with
            held := deleteHeldOf (beforeLast config ns actor calls c).held ns (some actor) } := by
  have hended : ∀ c, truncated config c ns actor = false →
      ∃ ids : List String, (∀ id, id ∈ ids ↔ id ∈ actorIds config c ns actor) ∧
        forgetByActor config c ns actor =
          { ids.foldl (forgetRow config ns) c with
            held := deleteHeldOf c.held ns (some actor) } := by
    intro c hfew
    refine ⟨forgotten config c ns actor, fun id => by rw [forgotten_all hfew], ?_⟩
    rw [forgetByActor, (foldl_forgetRow _ c).1]
  induction calls generalizing c with
  | zero =>
      have hfew : truncated config c ns actor = false :=
        decide_eq_false (Nat.not_lt.mpr (Nat.le_trans h (Nat.zero_le _)))
      exact ⟨hfew, hended c hfew⟩
  | succ calls ih =>
      rw [beforeLast]
      cases hmany : truncated config c ns actor with
      | false => exact ⟨hmany, hended c hmany⟩
      | true =>
          rw [if_pos rfl]
          have hless := length_actorRows_forget hmany
          obtain ⟨hfew, ids, hids, hforget⟩ := ih (forgetByActor config c ns actor) (by omega)
          refine ⟨hfew, forgotten config c ns actor ++ ids, ?_, ?_⟩
          · intro id
            rw [List.mem_append, hids, actorIds_forget]
            constructor
            · exact fun h => h.elim forgotten_subset fun h => h.1
            · intro h
              by_cases hgone : id ∈ forgotten config c ns actor
              · exact .inl hgone
              · exact .inr ⟨h, hgone⟩
          · have hfirst : forgetByActor config c ns actor =
                { (forgotten config c ns actor).foldl (forgetRow config ns) c with
                  held := deleteHeldOf c.held ns (some actor) } := by
              rw [forgetByActor, (foldl_forgetRow _ c).1]
            have hboth : ids.foldl (forgetRow config ns) (forgetByActor config c ns actor) =
                { (forgotten config c ns actor ++ ids).foldl (forgetRow config ns) c with
                  held := deleteHeldOf c.held ns (some actor) } := by
              rw [hfirst, foldl_forgetRow_held, List.foldl_append]
            rw [hforget, hboth]

/-- The actor's rows of the quarantine store that one deletion reaches. -/
def HeldReached (held : EntryStore) (ns actor : String) : Prop :=
  ∀ row ∈ held.rowsOf ns, row.sourceIdentity = actor →
    heldFlag (readOf row) = true ∧ readOf row ∈ held.listEntries (fun _ => true) ns 10000

/-- When repeated calls by actor leave no copy; `last` is what the last of them finds. -/
structure ActorErasable (config : ForgetConfig) (c last : Copies) (ns actor : String) : Prop where
  scanned : ∀ row ∈ c.active.rowsOf ns, row.sourceIdentity = actor → config.scans row = true
  tiers : Removable config (actorIds config c ns actor) c fun e => e.sourceIdentity = actor
  held : HeldReached last.held ns actor

theorem readOf_sourceIdentity (row : MemoryEntry) :
    (readOf row).sourceIdentity = row.sourceIdentity := by
  obtain ⟨confidence, metadata, h⟩ := servedView_fields (readBack row)
  rw [readOf, h]
  rfl

theorem rowsOf_foldl_delete (entries : List MemoryEntry) (held : EntryStore)
    (hns : ∀ e ∈ entries, e.ns = ns) :
    (entries.foldl (fun held e => held.delete (rowKey e)) held).rowsOf ns =
      (held.rowsOf ns).filter fun row => !(entries.map MemoryEntry.id).contains row.id := by
  induction entries generalizing held with
  | nil => simp
  | cons e entries ih =>
      rw [List.forall_mem_cons] at hns
      have hkey : rowKey e = ⟨ns, e.id⟩ := by rw [rowKey, hns.1]
      rw [List.foldl_cons, ih _ hns.2, hkey, EntryStore.rowsOf_delete, List.filter_filter]
      apply List.filter_congr
      intro row _
      rw [List.map_cons, List.contains_cons, Bool.not_or, Bool.and_comm, bne]

theorem deleteHeldOf_clears (held : EntryStore) :
    (∀ row ∈ (deleteHeldOf held ns (some actor)).rowsOf ns, row.sourceIdentity ≠ actor) ↔
      HeldReached held ns actor := by
  have hlisted : ∀ e ∈ held.listEntries (fun _ => true) ns 10000,
      ∃ row ∈ held.rowsOf ns, e = readOf row := by
    intro e he
    obtain ⟨row, hrow, -, heq⟩ := held.mem_listEntries he
    exact ⟨row, hrow, heq⟩
  let entries := (held.listEntries (fun _ => true) ns 10000).filter fun entry =>
    (some actor).all (entry.sourceIdentity == ·) && heldFlag entry
  have hrows : (deleteHeldOf held ns (some actor)).rowsOf ns =
      (held.rowsOf ns).filter fun row => !(entries.map MemoryEntry.id).contains row.id := by
    refine rowsOf_foldl_delete entries held ?_
    intro e he
    obtain ⟨row, hrow, rfl⟩ := hlisted e (List.mem_of_mem_filter he)
    rw [readOf_ns]
    exact congrArg RowKey.ns (held.rowKey_find (held.mem_rowsOf.mp hrow))
  have hdeleted : ∀ row ∈ held.rowsOf ns, row.sourceIdentity = actor →
      (row.id ∈ entries.map MemoryEntry.id ↔ heldFlag (readOf row) = true ∧
        readOf row ∈ held.listEntries (fun _ => true) ns 10000) := by
    intro row hrow hactor
    rw [List.mem_map]
    constructor
    · rintro ⟨e, he, hid⟩
      obtain ⟨hmem, hkept⟩ := List.mem_filter.mp he
      obtain ⟨row', hrow', rfl⟩ := hlisted e hmem
      rw [readOf_id] at hid
      obtain rfl := held.rowsOf_inj hrow' hrow hid
      exact ⟨(Bool.and_eq_true_iff.mp hkept).2, hmem⟩
    · rintro ⟨hflag, hmem⟩
      refine ⟨readOf row, List.mem_filter.mpr ⟨hmem, ?_⟩, readOf_id row⟩
      rw [Option.all_some, readOf_sourceIdentity, hactor, beq_self_eq_true, hflag]
      rfl
  rw [hrows]
  simp only [List.mem_filter, Bool.not_eq_true', List.contains_eq_mem, decide_eq_false_iff_not]
  constructor
  · intro h row hrow hactor
    rw [← hdeleted row hrow hactor]
    by_contra hleft
    exact h row ⟨hrow, hleft⟩ hactor
  · rintro h row ⟨hrow, hleft⟩ hactor
    exact hleft ((hdeleted row hrow hactor).mpr (h row hrow hactor))

theorem forget_by_actor_iff (config : ForgetConfig) (c : Copies) (ns actor : String) :
    let last := beforeLast config ns actor (actorRows config c ns actor).length c
    truncated config last ns actor = false ∧
      (NoCopyOf (forgetByActor config last ns actor) ns actor ↔
        ActorErasable config c last ns actor) := by
  intro last
  obtain ⟨hfew, ids, hids, hforget⟩ := beforeLast_spec
    _ c (Nat.le_refl _)
  refine ⟨hfew, ?_⟩
  have hforget : forgetByActor config last ns actor =
      { ids.foldl (forgetRow config ns) c with
        held := deleteHeldOf last.held ns (some actor) } := hforget
  have hremoved : TiersRemoved config ids c (ids.foldl (forgetRow config ns) c) :=
    tiersRemoved_foldl ns ids c
  have hrows := (@foldl_forgetRow config ns ids c).2
  have hactive : (∀ row ∈ (ids.foldl (forgetRow config ns) c).active.rowsOf ns,
      row.sourceIdentity ≠ actor) ↔
      ∀ row ∈ c.active.rowsOf ns, row.sourceIdentity = actor → config.scans row = true := by
    rw [hrows]
    simp only [List.mem_filter, Bool.not_eq_true', List.contains_eq_mem, decide_eq_false_iff_not,
      hids, mem_actorIds]
    constructor
    · intro h row hrow hactor
      by_contra hunseen
      refine h row ⟨hrow, ?_⟩ hactor
      rintro ⟨row', hrow', hseen, hid⟩
      obtain rfl := c.active.rowsOf_inj hrow' hrow hid
      exact hunseen (Bool.and_eq_true_iff.mp hseen).2
    · rintro h row ⟨hrow, hleft⟩ hactor
      refine hleft ⟨row, hrow, ?_, rfl⟩
      rw [seen, hactor, beq_self_eq_true, h row hrow hactor]
      rfl
  have htiers := tiersClear_iff hremoved fun e => e.sourceIdentity = actor
  have hsame : Removable config ids c (fun e => e.sourceIdentity = actor) ↔
      Removable config (actorIds config c ns actor) c fun e => e.sourceIdentity = actor := by
    constructor
    · rintro ⟨hhot, hsidecar, harchive⟩
      simp only [hids] at hhot hsidecar harchive
      exact ⟨hhot, hsidecar, harchive⟩
    · rintro ⟨hhot, hsidecar, harchive⟩
      simp only [← hids] at hhot hsidecar harchive
      exact ⟨hhot, hsidecar, harchive⟩
  rw [hforget]
  constructor
  · intro h
    exact ⟨hactive.mp h.active, hsame.mp (htiers.mp ⟨h.hot, h.sidecar, h.archive⟩),
      (deleteHeldOf_clears last.held).mp h.held⟩
  · intro h
    have hclear := htiers.mpr (hsame.mpr h.tiers)
    exact ⟨hactive.mpr h.scanned, (deleteHeldOf_clears last.held).mpr h.held, hclear.hot,
      hclear.sidecar, hclear.archive⟩

end Actor

def everything : ForgetConfig where
  blocks := fun _ => false
  scans := fun _ => true
  tiers := true
  order := id
  order_perm := fun rows => List.Perm.refl rows

def erasable (content : String) : MemoryEntry :=
  MemoryEntry.ofDefaults "a" content "project:south" ⟨0, some 0⟩ a_ne_empty

/-- An entry that was archived. -/
def archivedOnly : Copies where
  active := .empty
  held := .empty
  hot := []
  sidecar := []
  archive := Table.empty.put "2024/01/a.yaml" ⟨erasable "text", none⟩
  stuck := []

/-- A visible row, and a quarantined write of the same key. -/
def activeAndHeld : Copies where
  active := EntryStore.empty.insert (erasable "first")
  held := EntryStore.empty.insert
    { erasable "second" with metadata := (∅ : Metadata).insert "quarantined" "true" }
  hot := []
  sidecar := []
  archive := .empty
  stuck := []

end TrwMemory.Tools

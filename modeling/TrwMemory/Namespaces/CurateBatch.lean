import TrwMemory.Namespaces.Curate

/-!
What a batch of a move reads, and what it changes. A page is read from rows ahead of the
cursor, whatever the ledger hides of it. Of its rows those with a free id go to the
destination; nothing else moves.
-/
namespace TrwMemory.Namespaces

open Library.Keyed Library.Keyset Storage Sync

theorem NamespaceRows.ids_nodup (t : NamespaceRows) : (t.entries.map MemoryEntry.id).Nodup := by
  have hids : t.entries.map MemoryEntry.id = t.table.keys := by
    rw [entries, Table.keys, List.map_map]
    apply List.map_congr_left
    intro row hrow
    exact t.keyed row.1 row.2 ((t.table.mem_rows row.1 row.2).mp hrow)
  exact hids ▸ t.table.nodup

theorem NamespaceRows.length_entries (t : NamespaceRows) : t.entries.length = t.count := by
  rw [entries, List.length_map, count]

theorem NamespaceRows.entries_inj (t : NamespaceRows) {a b : MemoryEntry} (ha : a ∈ t.entries)
    (hb : b ∈ t.entries) (hid : a.id = b.id) : a = b :=
  List.inj_on_of_nodup_map t.ids_nodup ha hb hid

theorem mem_ahead {t : NamespaceRows} {after : Option EntryCursor} {row : MemoryEntry} :
    row ∈ ahead t after ↔
      row ∈ t.entries ∧ after.all (fun cursor => cursor.selects row) = true := by
  rw [ahead, List.mem_filter, mem_sortOn]

theorem ahead_strict (t : NamespaceRows) (after : Option EntryCursor) :
    StrictlySorted listKey (ahead t after) := by
  have hkeys : (t.entries.map listKey).Nodup := by
    refine t.ids_nodup.of_map.map_on ?_
    intro a ha b hb hkey
    exact t.entries_inj ha hb (congrArg (fun k => (ofLex (OrderDual.ofDual k)).2) hkey)
  exact (sortOn_strict listKey hkeys).sublist List.filter_sublist

theorem ahead_nodup (t : NamespaceRows) (after : Option EntryCursor) : (ahead t after).Nodup :=
  (ahead_strict t after).imp fun hlt heq => absurd (heq ▸ hlt) (lt_irrefl _)

/-- The entries of readable rows out of `rows`, in their order. -/
def Serves (rows served : List MemoryEntry) : Prop :=
  ∃ shown : List MemoryEntry, shown.Sublist rows ∧ (∀ row ∈ shown, readable row = true) ∧
    served = shown.map readOf

namespace Serves

variable {rows rows' served served' : List MemoryEntry}

theorem sublist (h : Serves rows served) (hsub : served'.Sublist served) : Serves rows served' := by
  obtain ⟨shown, hshown, hreadable, rfl⟩ := h
  obtain ⟨kept, hkept, rfl⟩ := List.sublist_map_iff.mp hsub
  exact ⟨kept, hkept.trans hshown, fun row hrow => hreadable row (hkept.subset hrow), rfl⟩

theorem mono (h : Serves rows served) (hsub : rows.Sublist rows') : Serves rows' served := by
  obtain ⟨shown, hshown, hreadable, rfl⟩ := h
  exact ⟨shown, hshown.trans hsub, hreadable, rfl⟩

theorem append (h : Serves rows served) (h' : Serves rows' served') :
    Serves (rows ++ rows') (served ++ served') := by
  obtain ⟨shown, hshown, hreadable, rfl⟩ := h
  obtain ⟨shown', hshown', hreadable', rfl⟩ := h'
  refine ⟨shown ++ shown', hshown.append hshown', ?_, List.map_append.symm⟩
  intro row hrow
  exact (List.mem_append.mp hrow).elim (hreadable row) (hreadable' row)

theorem fetchRows (h : Storage.fetchRows rows = .ok served) : Serves rows served :=
  ⟨rows.filter readable, List.filter_sublist, fun _ hrow => (List.mem_filter.mp hrow).2,
    fetchRows_ok h⟩

end Serves

theorem fetchKept_serves {blocks : MemoryEntry → Bool} {fuel limit : Nat}
    {rows kept : List MemoryEntry} (h : fetchKept blocks fuel limit rows = .ok kept) :
    Serves rows kept := by
  induction fuel generalizing limit rows kept with
  | zero =>
      obtain rfl := Except.ok.inj h
      exact ⟨[], List.nil_sublist _, List.forall_mem_nil _, rfl⟩
  | succ fuel ih =>
      cases rows with
      | nil =>
          obtain rfl := Except.ok.inj h
          exact ⟨[], List.nil_sublist _, List.forall_mem_nil _, rfl⟩
      | cons row rows =>
          rw [fetchKept] at h
          cases hfetch : fetchRows ((row :: rows).take 256) with
          | error _ => simp only [hfetch, reduceCtorEq] at h
          | ok served =>
              simp only [hfetch] at h
              have hblock := (Serves.fetchRows hfetch).sublist
                (List.filter_sublist (p := fun e => !blocks e))
              split at h
              · obtain rfl := Except.ok.inj h
                exact (hblock.sublist (List.take_sublist _ _)).mono (List.take_sublist _ _)
              · cases hrest : fetchKept blocks fuel
                    (limit - (served.filter fun e => !blocks e).length)
                    ((row :: rows).drop 256) with
                | error _ => simp only [hrest, Except.map, reduceCtorEq] at h
                | ok rest =>
                    rw [hrest] at h
                    obtain rfl := Except.ok.inj h
                    have hall := hblock.append (ih hrest)
                    rwa [List.take_append_drop] at hall

theorem listBatch_serves {blocks : MemoryEntry → Bool} {t : NamespaceRows} {limit : Nat}
    {after : Option EntryCursor} {batch : List MemoryEntry}
    (h : listBatch blocks t limit after = .ok batch) : Serves (ahead t after) batch := by
  rw [listBatch] at h
  dsimp only at h
  cases hfetch : fetchRows ((ahead t after).take limit) with
  | error _ => simp [hfetch] at h
  | ok raw =>
      simp only [hfetch] at h
      split at h
      · obtain rfl := Except.ok.inj h
        exact ((Serves.fetchRows hfetch).sublist List.filter_sublist).mono (List.take_sublist _ _)
      · exact fetchKept_serves h

section Batch

variable {digest : SyncContent → String} {destinationNs : String}

/-- The rows of the ids `moving` have gone from the source to the destination, where these
ids were free. -/
structure Moved (digest : SyncContent → String) (destinationNs : String) (s s' : MoveStores)
    (moving : List String) : Prop where
  free : ∀ id ∈ moving, s.destination.find id = none
  source : ∀ id, s'.source.find id = if id ∈ moving then none else s.source.find id
  destination : ∀ id, s'.destination.find id =
    if id ∈ moving then (s.source.find id).map fun row => movedRow digest destinationNs (readOf row)
    else s.destination.find id

theorem Moved.refl (s : MoveStores) : Moved digest destinationNs s s [] :=
  ⟨List.forall_mem_nil _, fun _ => by simp, fun _ => by simp⟩

theorem find_storeMoved_of_not_mem {t : NamespaceRows} {moving : List MemoryEntry} {id : String}
    (h : id ∉ moving.map MemoryEntry.id) :
    (moving.foldl (fun t e => t.put (movedRow digest destinationNs e)) t).find id = t.find id := by
  induction moving generalizing t with
  | nil => rfl
  | cons e moving ih =>
      rw [List.map_cons, List.mem_cons, not_or] at h
      rw [List.foldl_cons, ih h.2, NamespaceRows.find_put]
      exact if_neg h.1

theorem find_storeMoved_of_mem {t : NamespaceRows} {moving : List MemoryEntry} {e : MemoryEntry}
    (hnodup : (moving.map MemoryEntry.id).Nodup) (h : e ∈ moving) :
    (moving.foldl (fun t e => t.put (movedRow digest destinationNs e)) t).find e.id =
      some (movedRow digest destinationNs e) := by
  induction moving generalizing t with
  | nil => cases h
  | cons first moving ih =>
      rw [List.map_cons, List.nodup_cons] at hnodup
      rw [List.foldl_cons]
      cases List.mem_cons.mp h with
      | inl heq =>
          subst heq
          rw [find_storeMoved_of_not_mem hnodup.1, NamespaceRows.find_put]
          exact if_pos rfl
      | inr hmem => exact ih hnodup.2 hmem

theorem storeMoved_ok {t t' : NamespaceRows} {moving : List MemoryEntry}
    (h : storeMoved digest destinationNs t moving = .ok t') :
    t' = moving.foldl (fun t e => t.put (movedRow digest destinationNs e)) t := by
  rw [storeMoved] at h
  split at h
  · cases h
  · exact (Except.ok.inj h).symm

/-- The rows of a page whose ids the destination does not hold. -/
def movable (s : MoveStores) (shown : List MemoryEntry) : List MemoryEntry :=
  shown.filter fun row => (s.destination.find row.id).isNone

/-- The rows of a page whose ids the destination holds. -/
def conflicting (s : MoveStores) (shown : List MemoryEntry) : List MemoryEntry :=
  shown.filter fun row => (s.destination.find row.id).isSome

theorem length_movable (s : MoveStores) (shown : List MemoryEntry) :
    (movable s shown).length + (conflicting s shown).length = shown.length := by
  rw [movable, conflicting, ← List.length_append, ← (List.filter_append_perm
    (fun row => (s.destination.find row.id).isNone) shown).length_eq]
  simp only [List.length_append, Option.not_isNone]

theorem moved_of_page {s : MoveStores} {shown : List MemoryEntry}
    (hshown : ∀ row ∈ shown, row ∈ s.source.entries) (hnodup : (shown.map MemoryEntry.id).Nodup) :
    Moved digest destinationNs s
      ⟨s.source.discard (((movable s shown).map readOf).map MemoryEntry.id).contains,
        ((movable s shown).map readOf).foldl
          (fun t e => t.put (movedRow digest destinationNs e)) s.destination⟩
      ((movable s shown).map MemoryEntry.id) := by
  have hids : ((movable s shown).map readOf).map MemoryEntry.id =
      (movable s shown).map MemoryEntry.id := by
    rw [List.map_map]
    exact List.map_congr_left fun row _ => readOf_id row
  refine ⟨?_, ?_, ?_⟩
  · intro id hid
    obtain ⟨row, hrow, rfl⟩ := List.mem_map.mp hid
    exact Option.isNone_iff_eq_none.mp (List.mem_filter.mp hrow).2
  · intro id
    rw [hids, NamespaceRows.find_discard]
    simp only [List.contains_iff_mem]
  · intro id
    split
    · rename_i hid
      obtain ⟨row, hrow, rfl⟩ := List.mem_map.mp hid
      have hsource : s.source.find row.id = some row :=
        s.source.mem_entries.mp (hshown row (List.mem_filter.mp hrow).1)
      rw [hsource, Option.map_some, ← readOf_id row]
      exact find_storeMoved_of_mem (hids ▸ hnodup.sublist (List.filter_sublist.map _))
        (List.mem_map_of_mem hrow)
    · rename_i hid
      exact find_storeMoved_of_not_mem (hids ▸ hid)

/-- `_move_entries` on a page. -/
theorem moveEntries_ok {s s' : MoveStores} {shown : List MemoryEntry} {skipConflicts : Bool}
    {moved skipped : Nat} (hshown : ∀ row ∈ shown, row ∈ s.source.entries)
    (hnodup : (shown.map MemoryEntry.id).Nodup)
    (h : moveEntries digest destinationNs s (shown.map readOf) skipConflicts =
      .ok (s', moved, skipped)) :
    Moved digest destinationNs s s' ((movable s shown).map MemoryEntry.id) ∧
      moved = (movable s shown).length ∧ skipped = (conflicting s shown).length := by
  have hids : (shown.map readOf).map MemoryEntry.id = shown.map MemoryEntry.id := by
    rw [List.map_map]
    exact List.map_congr_left fun row _ => readOf_id row
  have hmoving : (shown.map readOf).filter (fun e => !(((shown.map readOf).map
      MemoryEntry.id).filter fun id => (s.destination.find id).isSome).contains e.id) =
      (movable s shown).map readOf := by
    rw [hids, List.filter_map, movable]
    congr 1
    apply List.filter_congr
    intro row hrow
    rw [Function.comp_apply, readOf_id, ← Option.not_isSome, Bool.not_inj_iff, Bool.eq_iff_iff,
      List.contains_iff_mem, List.mem_filter]
    exact and_iff_right (List.mem_map_of_mem hrow)
  rw [moveEntries] at h
  dsimp only at h
  rw [hmoving] at h
  split at h
  · cases h
  · cases hstore : storeMoved digest destinationNs s.destination ((movable s shown).map readOf) with
    | error _ =>
        rw [hstore] at h
        cases h
    | ok destination =>
        rw [hstore] at h
        obtain ⟨rfl, hcounts⟩ := Prod.mk.inj (Except.ok.inj h)
        obtain ⟨rfl, rfl⟩ := Prod.mk.inj hcounts
        obtain rfl := storeMoved_ok hstore
        have hlength := length_movable s shown
        refine ⟨moved_of_page hshown hnodup, List.length_map _, ?_⟩
        rw [List.length_map, List.length_map]
        omega

/-- The rows `shown` are what a batch read. -/
structure Page (s : MoveStores) (p : MoveProgress) (shown : List MemoryEntry)
    (last : MemoryEntry) : Prop where
  sublist : shown.Sublist (ahead s.source p.cursor)
  readable : ∀ row ∈ shown, readable row = true
  last : shown.getLast? = some last

def pageProgress (s : MoveStores) (p : MoveProgress) (shown : List MemoryEntry)
    (last : MemoryEntry) : MoveProgress :=
  { p with
    cursor := some (readCursor last)
    moved := p.moved + (movable s shown).length
    skipped := p.skipped + (conflicting s shown).length
    passMoved := p.passMoved + (movable s shown).length }

variable {blocks : MemoryEntry → Bool} {limit : Nat} {s s' : MoveStores} {p p' : MoveProgress}

namespace Page

variable {shown : List MemoryEntry} {last : MemoryEntry}

theorem mem_source (h : Page s p shown last) : ∀ row ∈ shown, row ∈ s.source.entries :=
  fun _ hrow => (mem_ahead.mp (h.sublist.subset hrow)).1

theorem strict (h : Page s p shown last) : StrictlySorted listKey shown :=
  (ahead_strict s.source p.cursor).sublist h.sublist

theorem nodup (h : Page s p shown last) : shown.Nodup :=
  (ahead_nodup s.source p.cursor).sublist h.sublist

theorem ids_nodup (h : Page s p shown last) : (shown.map MemoryEntry.id).Nodup :=
  h.nodup.map_on fun a ha b hb => s.source.entries_inj (h.mem_source a ha) (h.mem_source b hb)

theorem mem_last (h : Page s p shown last) : last ∈ shown := List.mem_of_getLast? h.last

end Page

/-- A batch reads a page and moves what is free of it, or finds nothing to read. -/
theorem moveNext_cases
    (h : moveNext digest destinationNs blocks limit s p = .ok (s', p')) :
    (s' = s ∧ endOfPass s.source p = .ok p') ∨
      ∃ shown last, Page s p shown last ∧
        Moved digest destinationNs s s' ((movable s shown).map MemoryEntry.id) ∧
        (p' = pageProgress s p shown last ∨
          endOfPass s'.source (pageProgress s p shown last) = .ok p') := by
  rw [moveNext] at h
  cases hlist : listBatch blocks s.source limit p.cursor with
  | error _ => simp only [hlist, reduceCtorEq] at h
  | ok batch =>
      simp only [hlist] at h
      obtain ⟨shown, hahead, hreadable, rfl⟩ := listBatch_serves hlist
      rw [List.getLast?_map] at h
      cases hlast : shown.getLast? with
      | none =>
          rw [hlast] at h
          simp only [Option.map_none] at h
          cases hend : endOfPass s.source p with
          | error _ => simp only [hend, Except.map, reduceCtorEq] at h
          | ok next =>
              rw [hend] at h
              obtain ⟨rfl, rfl⟩ := Prod.mk.inj (Except.ok.inj h)
              exact .inl ⟨rfl, rfl⟩
      | some last =>
          rw [hlast] at h
          simp only [Option.map_some, readOf_cursor] at h
          have hpage : Page s p shown last := ⟨hahead, hreadable, hlast⟩
          split at h
          · cases h
          · split at h
            · cases h
            · cases hmove : moveEntries digest destinationNs s (shown.map readOf) p.merge with
              | error _ =>
                  rw [hmove] at h
                  cases h
              | ok result =>
                  obtain ⟨t, moved, skipped⟩ := result
                  obtain ⟨hmoved, rfl, rfl⟩ :=
                    moveEntries_ok hpage.mem_source hpage.ids_nodup hmove
                  rw [hmove] at h
                  refine .inr ⟨shown, last, hpage, ?_⟩
                  change (if _ then Except.map _ (endOfPass t.source
                    (pageProgress s p shown last)) else _) = _ at h
                  split at h
                  · cases hend : endOfPass t.source (pageProgress s p shown last) with
                    | error _ => simp only [hend, Except.map, reduceCtorEq] at h
                    | ok next =>
                        rw [hend] at h
                        obtain ⟨rfl, rfl⟩ := Prod.mk.inj (Except.ok.inj h)
                        exact ⟨hmoved, .inr hend⟩
                  · obtain ⟨rfl, rfl⟩ := Prod.mk.inj (Except.ok.inj h)
                    exact ⟨hmoved, .inl rfl⟩

/-- The first batch counts the source, and completes the move of an empty one. -/
theorem moveBatch_cases
    (h : moveBatch digest destinationNs blocks limit s p = .ok (s', p')) :
    (s' = s ∧ s.source.count = 0 ∧ p'.complete = true) ∨
      ∃ q : MoveProgress, q.cursor = p.cursor ∧ q.skipped = p.skipped ∧
        q.passMoved = p.passMoved ∧ q.complete = p.complete ∧
        moveNext digest destinationNs blocks limit s q = .ok (s', p') := by
  rw [moveBatch] at h
  split at h
  · exact .inr ⟨p, rfl, rfl, rfl, rfl, h⟩
  · dsimp only at h
    split at h
    · rename_i hempty
      obtain ⟨rfl, rfl⟩ := Prod.mk.inj (Except.ok.inj h)
      exact .inl ⟨rfl, hempty, rfl⟩
    · exact .inr ⟨{ p with started := true, sourceRows := s.source.count }, rfl, rfl, rfl, rfl, h⟩

/-- How a pass ends: with rows that were all skipped, or with another pass. -/
theorem endOfPass_cases {source : NamespaceRows} (h : endOfPass source p = .ok p') :
    (source.count = p.skipped ∧ p'.complete = true) ∨
      (p.passMoved ≠ 0 ∧ p' = { p with cursor := none, skipped := 0, passMoved := 0 }) := by
  rw [endOfPass] at h
  split at h
  · rename_i hdrained
    exact .inl ⟨hdrained, by rw [← Except.ok.inj h]⟩
  · split at h
    · rename_i hmoved
      exact .inr ⟨hmoved, (Except.ok.inj h).symm⟩
    · cases h

end Batch

end TrwMemory.Namespaces

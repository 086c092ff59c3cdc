import TrwMemory.Namespaces.CurateBatch

/-!
How a move gets on. A batch counts only conflicts that its cursor has passed, so that a
count that meets the source leaves no row unread; and it makes the source smaller, or
leaves less of it ahead of the cursor. Both rest on the cursor of a row standing where the
row stands in the listing.

Runs of a move with tenants who write either namespace between batches. Under an id that no
tenant writes, a row stays where it is or goes over once, onto no other. A move is
completed on a count of rows, which stands for the rows while every skipped one is still a
conflict behind the cursor.
-/
namespace TrwMemory.Namespaces

open Library.Keyset Storage Sync

section Progress

variable {digest : SyncContent → String} {destinationNs : String}
  {blocks : MemoryEntry → Bool} {limit : Nat} {s s' : MoveStores} {p p' : MoveProgress}

/-- The text of each row, once it was read, stands where its stored text stands. -/
def CursorsStand (source : NamespaceRows) : Prop :=
  ∀ a ∈ source.entries, readable a = true → ∀ b ∈ source.entries,
    (readCursor a).selects b = (EntryCursor.fromEntry a).selects b

instance (source : NamespaceRows) : Decidable (CursorsStand source) :=
  inferInstanceAs (Decidable (∀ a ∈ source.entries, readable a = true → ∀ b ∈ source.entries,
    (readCursor a).selects b = (EntryCursor.fromEntry a).selects b))

theorem CursorsStand.mono {source source' : NamespaceRows} (h : CursorsStand source)
    (hsub : source'.entries ⊆ source.entries) : CursorsStand source' :=
  fun a ha hreadable b hb => h a (hsub ha) hreadable b (hsub hb)

namespace Page

variable {shown : List MemoryEntry} {last : MemoryEntry}

theorem selects_iff (h : Page s p shown last) (hstand : CursorsStand s.source)
    {row : MemoryEntry} (hrow : row ∈ s.source.entries) :
    (readCursor last).selects row = true ↔ listKey last < listKey row := by
  rw [hstand last (h.mem_source last h.mem_last) (h.readable last h.mem_last) row hrow,
    Storage.selects_iff]
  rfl

/-- The cursor passes the rows of its page. -/
theorem passed (h : Page s p shown last) (hstand : CursorsStand s.source) {row : MemoryEntry}
    (hrow : row ∈ shown) : (readCursor last).selects row = false := by
  rw [← Bool.not_eq_true, h.selects_iff hstand (h.mem_source row hrow), not_lt]
  obtain ⟨front, rfl⟩ := List.getLast?_eq_some_iff.mp h.last
  rcases List.mem_append.mp hrow with hfront | hlast
  · exact ((List.pairwise_append.mp h.strict).2.2 row hfront last (List.mem_singleton_self _)).le
  · rw [List.mem_singleton.mp hlast]

/-- What the cursor leaves was ahead of the page. -/
theorem selects_ahead (h : Page s p shown last) (hstand : CursorsStand s.source)
    {row : MemoryEntry} (hrow : row ∈ s.source.entries)
    (hselects : (readCursor last).selects row = true) :
    p.cursor.all (fun cursor => cursor.selects row) = true := by
  have hlast := (mem_ahead.mp (h.sublist.subset h.mem_last)).2
  cases hcursor : p.cursor with
  | none => rfl
  | some cursor =>
      rw [hcursor, Option.all_some, Storage.selects_iff] at hlast
      rw [Option.all_some, Storage.selects_iff]
      exact hlast.trans ((h.selects_iff hstand hrow).mp hselects)

end Page

theorem Moved.mem_source {moving : List String} (h : Moved digest destinationNs s s' moving)
    {row : MemoryEntry} :
    row ∈ s'.source.entries ↔ row ∈ s.source.entries ∧ row.id ∉ moving := by
  rw [NamespaceRows.mem_entries, NamespaceRows.mem_entries, h.source]
  split <;> simp_all

theorem Moved.entries_subset {moving : List String} (h : Moved digest destinationNs s s' moving) :
    s'.source.entries ⊆ s.source.entries :=
  fun _ hrow => (h.mem_source.mp hrow).1

theorem NamespaceRows.count_le {t t' : NamespaceRows} (h : t'.entries ⊆ t.entries) :
    t'.count ≤ t.count := by
  rw [← length_entries, ← length_entries]
  exact (t'.ids_nodup.of_map.subperm h).length_le

/-- A row that moves makes the source smaller. -/
theorem Moved.count_lt {moving : List String} (h : Moved digest destinationNs s s' moving)
    {row : MemoryEntry} (hrow : row ∈ s.source.entries) (hmoving : row.id ∈ moving) :
    s'.source.count < s.source.count := by
  rw [← NamespaceRows.length_entries, ← NamespaceRows.length_entries]
  have hnodup : (row :: s'.source.entries).Nodup :=
    List.nodup_cons.mpr ⟨fun hmem => (h.mem_source.mp hmem).2 hmoving, s'.source.ids_nodup.of_map⟩
  have hle := (hnodup.subperm (List.cons_subset.mpr ⟨hrow, h.entries_subset⟩)).length_le
  rw [List.length_cons] at hle
  exact hle

/-- The rows whose ids the destination holds and which the cursor has passed. -/
def passedConflicts (s : MoveStores) (cursor : Option EntryCursor) : List MemoryEntry :=
  s.source.entries.filter fun row =>
    (s.destination.find row.id).isSome && !cursor.all fun cursor => cursor.selects row

theorem mem_passedConflicts {cursor : Option EntryCursor} {row : MemoryEntry} :
    row ∈ passedConflicts s cursor ↔ row ∈ s.source.entries ∧
      (s.destination.find row.id).isSome = true ∧
        cursor.all (fun cursor => cursor.selects row) = false := by
  rw [passedConflicts, List.mem_filter, Bool.and_eq_true, Bool.not_eq_true']

theorem Moved.conflict {moving : List String} (h : Moved digest destinationNs s s' moving)
    {row : MemoryEntry} (hrow : row ∈ s.source.entries)
    (hheld : (s.destination.find row.id).isSome = true) :
    row ∈ s'.source.entries ∧ (s'.destination.find row.id).isSome = true := by
  have hstays : row.id ∉ moving := by
    intro hmoving
    rw [h.free row.id hmoving] at hheld
    cases hheld
  rw [h.mem_source, h.destination, if_neg hstays]
  exact ⟨⟨hrow, hstays⟩, hheld⟩

/-- The conflicts of a page come on top of those that were passed before. -/
theorem Page.length_passedConflicts {shown : List MemoryEntry} {last : MemoryEntry}
    (h : Page s p shown last) (hstand : CursorsStand s.source) {moving : List String}
    (hmoved : Moved digest destinationNs s s' moving) :
    (passedConflicts s p.cursor).length + (conflicting s shown).length ≤
      (passedConflicts s' (some (readCursor last))).length := by
  have hnodup : (passedConflicts s p.cursor ++ conflicting s shown).Nodup := by
    refine List.nodup_append.mpr ⟨s.source.ids_nodup.of_map.filter _, h.nodup.filter _, ?_⟩
    intro a ha b hb heq
    subst heq
    have hahead := (mem_ahead.mp (h.sublist.subset (List.mem_filter.mp hb).1)).2
    rw [(mem_passedConflicts.mp ha).2.2] at hahead
    cases hahead
  rw [← List.length_append]
  refine (hnodup.subperm ?_).length_le
  intro row hrow
  rcases List.mem_append.mp hrow with hpassed | hpage
  · obtain ⟨hsource, hheld, hbehind⟩ := mem_passedConflicts.mp hpassed
    obtain ⟨hsource', hheld'⟩ := hmoved.conflict hsource hheld
    refine mem_passedConflicts.mpr ⟨hsource', hheld', ?_⟩
    rw [Option.all_some, ← Bool.not_eq_true]
    intro hselects
    rw [h.selects_ahead hstand hsource hselects] at hbehind
    cases hbehind
  · obtain ⟨hshown, hheld⟩ := List.mem_filter.mp hpage
    obtain ⟨hsource', hheld'⟩ := hmoved.conflict (h.mem_source row hshown) hheld
    refine mem_passedConflicts.mpr ⟨hsource', hheld', ?_⟩
    rw [Option.all_some]
    exact h.passed hstand hshown

/-- The source holds only rows whose ids the destination holds. -/
def Drained (s : MoveStores) : Prop :=
  ∀ id, (s.source.find id).isSome = true → (s.destination.find id).isSome = true

/-- A source that holds no more rows than conflicts were passed is drained. -/
theorem drained_of_count (cursor : Option EntryCursor)
    (h : s.source.count ≤ (passedConflicts s cursor).length) : Drained s := by
  rw [← NamespaceRows.length_entries] at h
  have hall := (List.filter_sublist.eq_of_length_le h).symm
  intro id hid
  obtain ⟨row, hrow⟩ := Option.isSome_iff_exists.mp hid
  obtain rfl := s.source.keyed id row hrow
  have hmem : row ∈ s.source.entries := s.source.mem_entries.mpr hrow
  rw [hall] at hmem
  exact (mem_passedConflicts.mp hmem).2.1

/-- The skipped rows are conflicts that the cursor has passed. -/
def SkipsPassed (s : MoveStores) (p : MoveProgress) : Prop :=
  p.skipped ≤ (passedConflicts s p.cursor).length

/-- The move is complete and the source drained, or the skipped rows were passed. -/
def Settled (s : MoveStores) (p : MoveProgress) : Prop :=
  (p.complete = true ∧ Drained s) ∨ (p.complete = false ∧ SkipsPassed s p)

theorem endOfPass_settled (hskips : SkipsPassed s p) (hopen : p.complete = false)
    (h : endOfPass s.source p = .ok p') : Settled s p' := by
  rcases endOfPass_cases h with ⟨hcount, hcomplete⟩ | ⟨-, rfl⟩
  · exact .inl ⟨hcomplete, drained_of_count p.cursor (hcount.le.trans hskips)⟩
  · exact .inr ⟨hopen, Nat.zero_le _⟩

theorem moveBatch_settled (hstand : CursorsStand s.source) (hskips : SkipsPassed s p)
    (hopen : p.complete = false)
    (h : moveBatch digest destinationNs blocks limit s p = .ok (s', p')) : Settled s' p' := by
  rcases moveBatch_cases h with ⟨rfl, hempty, hcomplete⟩ | ⟨q, hcursor, hskipped, -, hq, hnext⟩
  · exact .inl ⟨hcomplete, drained_of_count none (hempty.le.trans (Nat.zero_le _))⟩
  · rw [SkipsPassed, ← hcursor, ← hskipped] at hskips
    rw [← hq] at hopen
    rcases moveNext_cases hnext with ⟨rfl, hend⟩ | ⟨shown, last, hpage, hmoved, hp'⟩
    · exact endOfPass_settled hskips hopen hend
    · have hpassed : SkipsPassed s' (pageProgress s q shown last) :=
        (Nat.add_le_add_right hskips _).trans (hpage.length_passedConflicts hstand hmoved)
      rcases hp' with rfl | hend
      · exact .inr ⟨hopen, hpassed⟩
      · exact endOfPass_settled hpassed hopen hend

/-- What a pass can still move, twice, and whether the pass moved anything. -/
def rank (s : MoveStores) (p : MoveProgress) : Nat :=
  2 * s.source.count + if p.passMoved = 0 then 0 else 1

theorem rank_rescan (h : endOfPass s.source p = .ok p') (hopen : p'.complete = false) :
    rank s p' < rank s p := by
  rcases endOfPass_cases h with ⟨-, hcomplete⟩ | ⟨hmoved, rfl⟩
  · rw [hopen] at hcomplete
    cases hcomplete
  · simp [rank, hmoved]

/-- A page moves a row, or leaves fewer rows ahead. -/
theorem Page.rank_lt {shown : List MemoryEntry} {last : MemoryEntry}
    (h : Page s p shown last) (hstand : CursorsStand s.source)
    (hmoved : Moved digest destinationNs s s' ((movable s shown).map MemoryEntry.id)) :
    rank s' (pageProgress s p shown last) < rank s p ∨
      rank s' (pageProgress s p shown last) ≤ rank s p ∧
        (ahead s'.source (some (readCursor last))).length < (ahead s.source p.cursor).length := by
  cases hmovable : movable s shown with
  | nil =>
      right
      have hsame : rank s' (pageProgress s p shown last) = 2 * s'.source.count +
          if p.passMoved = 0 then 0 else 1 := by
        rw [rank, pageProgress, hmovable]
        rfl
      have hcount := NamespaceRows.count_le hmoved.entries_subset
      refine ⟨?_, ?_⟩
      · rw [hsame, rank]
        omega
      · have hnodup : (last :: ahead s'.source (some (readCursor last))).Nodup := by
          refine List.nodup_cons.mpr ⟨fun hmem => ?_, ahead_nodup _ _⟩
          have hselects := (mem_ahead.mp hmem).2
          rw [Option.all_some, h.passed hstand h.mem_last] at hselects
          cases hselects
        have hsub : ahead s'.source (some (readCursor last)) ⊆ ahead s.source p.cursor := by
          intro row hrow
          obtain ⟨hsource', hselects⟩ := mem_ahead.mp hrow
          have hsource := hmoved.entries_subset hsource'
          rw [Option.all_some] at hselects
          exact mem_ahead.mpr ⟨hsource, h.selects_ahead hstand hsource hselects⟩
        have hle := (hnodup.subperm
          (List.cons_subset.mpr ⟨h.sublist.subset h.mem_last, hsub⟩)).length_le
        rw [List.length_cons] at hle
        exact hle
  | cons row rest =>
      left
      have hrow : row ∈ movable s shown := hmovable ▸ List.mem_cons_self
      have hcount := hmoved.count_lt (h.mem_source row (List.mem_filter.mp hrow).1)
        (List.mem_map_of_mem hrow)
      rw [rank, rank]
      split <;> split <;> omega

/-- A batch that leaves the move open comes nearer to its end. -/
theorem moveBatch_rank (hstand : CursorsStand s.source)
    (h : moveBatch digest destinationNs blocks limit s p = .ok (s', p'))
    (hopen : p'.complete = false) :
    s'.source.entries ⊆ s.source.entries ∧
      (rank s' p' < rank s p ∨ rank s' p' ≤ rank s p ∧
        (ahead s'.source p'.cursor).length < (ahead s.source p.cursor).length) := by
  rcases moveBatch_cases h with ⟨-, -, hcomplete⟩ | ⟨q, hcursor, -, hpassMoved, -, hnext⟩
  · rw [hopen] at hcomplete
    cases hcomplete
  · have hrank : rank s p = rank s q := by rw [rank, rank, hpassMoved]
    rw [← hcursor, hrank]
    rcases moveNext_cases hnext with ⟨rfl, hend⟩ | ⟨shown, last, hpage, hmoved, hp'⟩
    · exact ⟨List.Subset.refl _, .inl (rank_rescan hend hopen)⟩
    · refine ⟨hmoved.entries_subset, ?_⟩
      have hlt := hpage.rank_lt hstand hmoved
      rcases hp' with rfl | hend
      · exact hlt
      · have hrescan := rank_rescan hend hopen
        left
        rcases hlt with hlt | ⟨hle, -⟩
        · exact hrescan.trans hlt
        · exact hrescan.trans_le hle

/-- The two measures of a batch as one, where the source holds at most `n` rows. -/
def steps (n : Nat) (s : MoveStores) (p : MoveProgress) : Nat :=
  rank s p * (n + 1) + (ahead s.source p.cursor).length

theorem length_ahead_le (t : NamespaceRows) (after : Option EntryCursor) :
    (ahead t after).length ≤ t.count := by
  rw [← NamespaceRows.length_entries]
  exact ((ahead_nodup t after).subperm fun row hrow => (mem_ahead.mp hrow).1).length_le

theorem moveBatch_steps {n : Nat} (hn : s.source.count ≤ n) (hstand : CursorsStand s.source)
    (h : moveBatch digest destinationNs blocks limit s p = .ok (s', p'))
    (hopen : p'.complete = false) : steps n s' p' < steps n s p := by
  obtain ⟨hsub, hlt⟩ := moveBatch_rank hstand h hopen
  have hahead := (length_ahead_le s'.source p'.cursor).trans
    ((NamespaceRows.count_le hsub).trans hn)
  rw [steps, steps]
  rcases hlt with hlt | ⟨hle, hlt⟩
  · have hmul := Nat.mul_le_mul_right (n + 1) (Nat.succ_le_of_lt hlt)
    rw [Nat.succ_mul] at hmul
    omega
  · have hmul := Nat.mul_le_mul_right (n + 1) hle
    omega

/-- Without writes of tenants a move ends: it completes, or a batch raises. -/
theorem moveAll_ends (n : Nat) (hn : s.source.count ≤ n) (hstand : CursorsStand s.source)
    {batches : List ((MemoryEntry → Bool) × Nat)} (hlong : steps n s p < batches.length)
    (h : moveAll digest destinationNs batches s p = .ok (s', p')) : p'.complete = true := by
  induction batches generalizing s p with
  | nil => cases hlong
  | cons batch batches ih =>
      rw [moveAll] at h
      split at h
      · rename_i hcomplete
        obtain ⟨rfl, rfl⟩ := Prod.mk.inj (Except.ok.inj h)
        exact hcomplete
      · cases hbatch : moveBatch digest destinationNs batch.1 batch.2 s p with
        | error _ => simp only [hbatch, reduceCtorEq] at h
        | ok result =>
            obtain ⟨t, q⟩ := result
            simp only [hbatch] at h
            cases hopen : q.complete with
            | true =>
                cases batches with
                | nil =>
                    obtain ⟨rfl, rfl⟩ := Prod.mk.inj (Except.ok.inj h)
                    exact hopen
                | cons next batches =>
                    rw [moveAll, if_pos hopen] at h
                    obtain ⟨rfl, rfl⟩ := Prod.mk.inj (Except.ok.inj h)
                    exact hopen
            | false =>
                have hsteps := moveBatch_steps hn hstand hbatch hopen
                have hsub := (moveBatch_rank hstand hbatch hopen).1
                rw [List.length_cons] at hlong
                exact ih ((NamespaceRows.count_le hsub).trans hn) (hstand.mono hsub)
                  (by omega) h

end Progress

open Library.Keyed Library.Transition

variable {digest : SyncContent → String} {destinationNs : String}

/-- What the source and the destination hold under an id. -/
def MoveStores.slot (s : MoveStores) (id : String) : Option MemoryEntry × Option MemoryEntry :=
  (s.source.find id, s.destination.find id)

/-- Either nothing happened to an id, or its row went over, as it was read. -/
inductive Carried (digest : SyncContent → String) (destinationNs : String) :
    Option MemoryEntry × Option MemoryEntry → Option MemoryEntry × Option MemoryEntry → Prop
  | kept (slot) : Carried digest destinationNs slot slot
  | moved (row : MemoryEntry) : Carried digest destinationNs (some row, none)
      (none, some (movedRow digest destinationNs (readOf row)))

theorem Carried.trans {a b c : Option MemoryEntry × Option MemoryEntry}
    (h : Carried digest destinationNs a b) (h' : Carried digest destinationNs b c) :
    Carried digest destinationNs a c := by
  cases h with
  | kept => exact h'
  | moved row =>
      cases h' with
      | kept => exact .moved row

theorem Moved.carried {s s' : MoveStores} {moving : List String}
    (h : Moved digest destinationNs s s' moving) (id : String) :
    Carried digest destinationNs (s.slot id) (s'.slot id) := by
  rw [MoveStores.slot, MoveStores.slot, h.source, h.destination]
  by_cases hmoving : id ∈ moving
  · rw [if_pos hmoving, if_pos hmoving, h.free id hmoving]
    cases s.source.find id with
    | none => exact .kept _
    | some row => exact .moved row
  · rw [if_neg hmoving, if_neg hmoving]
    exact .kept _

theorem moveBatch_carried {blocks : MemoryEntry → Bool} {limit : Nat} {s s' : MoveStores}
    {p p' : MoveProgress} (h : moveBatch digest destinationNs blocks limit s p = .ok (s', p'))
    (id : String) : Carried digest destinationNs (s.slot id) (s'.slot id) := by
  rcases moveBatch_cases h with ⟨rfl, -, -⟩ | ⟨q, -, -, -, -, hnext⟩
  · exact .kept _
  · rcases moveNext_cases hnext with ⟨rfl, -⟩ | ⟨_, _, -, hmoved, -⟩
    · exact .kept _
    · exact hmoved.carried id

/-- A tenant's write of an id. -/
def MoveEvent.writes (id : String) : MoveEvent → Bool
  | .atSource write => write.id == id
  | .atDestination write => write.id == id
  | .batch _ _ => false

theorem TenantWrite.find_apply (t : NamespaceRows) {write : TenantWrite} {id : String}
    (h : (write.id == id) = false) : (write.apply t).find id = t.find id := by
  have hne : id ≠ write.id := fun heq => by simp [heq] at h
  cases write with
  | put row =>
      rw [apply, NamespaceRows.find_put]
      exact if_neg hne
  | delete key =>
      rw [apply, NamespaceRows.find_discard, if_neg]
      rw [beq_iff_eq]
      exact hne

theorem step_batch {m m' : Move} {blocks : MemoryEntry → Bool} {limit : Nat}
    (h : (moveMachine digest destinationNs).step m (.batch blocks limit) = some m') :
    m.progress.complete = false ∧ (m' = m ∨ moveBatch digest destinationNs blocks limit
      m.stores m.progress = .ok (m'.stores, m'.progress)) := by
  simp only [moveMachine] at h
  split at h
  · cases h
  · rename_i hopen
    refine ⟨Bool.not_eq_true _ ▸ hopen, ?_⟩
    cases hbatch : moveBatch digest destinationNs blocks limit m.stores m.progress with
    | error _ =>
        rw [hbatch] at h
        exact .inl (Option.some.inj h).symm
    | ok result =>
        rw [hbatch] at h
        obtain rfl := Option.some.inj h
        exact .inr rfl

theorem step_carried {m m' : Move} {event : MoveEvent} {id : String}
    (h : (moveMachine digest destinationNs).step m event = some m')
    (hwrites : event.writes id = false) :
    Carried digest destinationNs (m.stores.slot id) (m'.stores.slot id) := by
  cases event with
  | atSource write =>
      obtain rfl := Option.some.inj h
      rw [MoveStores.slot, MoveStores.slot, TenantWrite.find_apply _ hwrites]
      exact .kept _
  | atDestination write =>
      obtain rfl := Option.some.inj h
      rw [MoveStores.slot, MoveStores.slot, TenantWrite.find_apply _ hwrites]
      exact .kept _
  | batch blocks limit =>
      rcases (step_batch h).2 with rfl | hbatch
      · exact .kept _
      · exact moveBatch_carried hbatch id

theorem run_carried {m m' : Move} {events : List MoveEvent} {id : String}
    (h : (moveMachine digest destinationNs).run m events = some m')
    (hwrites : ∀ event ∈ events, event.writes id = false) :
    Carried digest destinationNs (m.stores.slot id) (m'.stores.slot id) := by
  induction events generalizing m with
  | nil =>
      cases h
      exact .kept _
  | cons event events ih =>
      rw [List.forall_mem_cons] at hwrites
      obtain ⟨mid, hstep, hrun⟩ := (Machine.run_cons _ _ _ _ _).mp h
      exact (step_carried hstep hwrites.1).trans (ih hrun hwrites.2)

/-- A batch finds the cursors of the source where its rows stand. A write leaves at least
as many conflicts behind the cursor of an open move as were skipped. -/
def MoveGuard (m : Move) : MoveEvent → Prop
  | .batch _ _ => CursorsStand m.stores.source
  | .atSource write => m.progress.complete = true ∨
      SkipsPassed { m.stores with source := write.apply m.stores.source } m.progress
  | .atDestination write => m.progress.complete = true ∨
      SkipsPassed { m.stores with destination := write.apply m.stores.destination } m.progress

instance (m : Move) : (event : MoveEvent) → Decidable (MoveGuard m event)
  | .batch _ _ => inferInstanceAs (Decidable (CursorsStand m.stores.source))
  | .atSource _ => inferInstanceAs (Decidable (_ ∨ _ ≤ _))
  | .atDestination _ => inferInstanceAs (Decidable (_ ∨ _ ≤ _))

def Move.start (merge : Bool) (stores : MoveStores) : Move := ⟨stores, .start merge⟩

theorem step_skips : (moveMachine digest destinationNs).Preserves MoveGuard fun m =>
    m.progress.complete = true ∨ SkipsPassed m.stores m.progress := by
  intro m event m' hskips hguard hstep
  cases event with
  | atSource write =>
      obtain rfl := Option.some.inj hstep
      exact hguard
  | atDestination write =>
      obtain rfl := Option.some.inj hstep
      exact hguard
  | batch blocks limit =>
      obtain ⟨hopen, rfl | hbatch⟩ := step_batch hstep
      · exact hskips
      · have hpassed := hskips.resolve_left (by simp [hopen])
        exact (moveBatch_settled hguard hpassed hopen hbatch).imp And.left And.right

/-- What a move keeps. `carried`: under an id that tenants no longer write, what they left
stays, or goes over. `drained`: a batch that completes the move leaves no row of the source
whose id is free in the destination. `ends`: without further writes the batches come to an
end. -/
structure MoveConserves (digest : SyncContent → String) (destinationNs : String) (start : Move)
    (events : List MoveEvent) (m : Move) : Prop where
  carried : ∀ before after mid, events = before ++ after →
    (moveMachine digest destinationNs).run start before = some mid →
    ∀ id, (∀ event ∈ after, event.writes id = false) →
      Carried digest destinationNs (mid.stores.slot id) (m.stores.slot id)
  drained : ∀ before blocks limit, events = before ++ [.batch blocks limit] →
    m.progress.complete = true → Drained m.stores
  ends : CursorsStand m.stores.source → ∃ n, ∀ batches stores progress, n ≤ batches.length →
    moveAll digest destinationNs batches m.stores m.progress = .ok (stores, progress) →
      progress.complete = true

theorem move_conserves (digest : SyncContent → String) (destinationNs : String) (merge : Bool)
    (stores : MoveStores) (events : List MoveEvent) (m : Move)
    (hguard : (moveMachine digest destinationNs).Guarded MoveGuard (.start merge stores) events)
    (hrun : (moveMachine digest destinationNs).run (.start merge stores) events = some m) :
    MoveConserves digest destinationNs (.start merge stores) events m := by
  refine ⟨?_, ?_, ?_⟩
  · rintro before after mid rfl hbefore id hwrites
    obtain ⟨mid', hmid', hafter⟩ := (Machine.run_append _ _ _ _ _).mp hrun
    obtain rfl := Option.some.inj (hmid'.symm.trans hbefore)
    exact run_carried hafter hwrites
  · rintro before blocks limit rfl hcomplete
    obtain ⟨mid, hbefore, hlast⟩ := (Machine.run_append _ _ _ _ _).mp hrun
    obtain ⟨hguarded, hrest⟩ := Machine.guarded_append _ _ _ _ _ hguard
    have hskips := Machine.run_preserves _ step_skips (.inr (Nat.zero_le _)) hguarded hbefore
    obtain ⟨m', hstep, hend⟩ := (Machine.run_cons _ _ _ _ _).mp hlast
    obtain rfl := Option.some.inj hend
    obtain ⟨hopen, hkept | hbatch⟩ := step_batch hstep
    · rw [hkept, hopen] at hcomplete
      cases hcomplete
    · have hstand : CursorsStand mid.stores.source := (hrest mid hbefore).1
      have hpassed := hskips.resolve_left (by simp [hopen])
      rcases moveBatch_settled hstand hpassed hopen hbatch with ⟨-, hdrained⟩ | ⟨hstill, -⟩
      · exact hdrained
      · rw [hstill] at hcomplete
        cases hcomplete
  · intro hstand
    refine ⟨steps m.stores.source.count m.stores m.progress + 1, ?_⟩
    intro batches stores' progress hlong hall
    exact moveAll_ends _ le_rfl hstand hlong hall

def curatedRow (id : String) (hour : Int) (h : id ≠ "") : MemoryEntry :=
  { MemoryEntry.ofDefaults id id "south" ⟨0, some 0⟩ h with
    updatedAt := ⟨63840000000000000 + hour * 3600000000, some 0⟩ }

/-- The destination holds the id of the newer of two rows. -/
def curatedStores : MoveStores where
  source := ((⟨.empty, by simp⟩ : NamespaceRows).put (curatedRow "x" 3 x_ne_empty)).put
    (curatedRow "y" 2 y_ne_empty)
  destination := (⟨.empty, by simp⟩ : NamespaceRows).put (curatedRow "x" 1 x_ne_empty)

/-- The tenant writes a newer row before the last batch. -/
def curatedEvents : List MoveEvent :=
  [.batch (fun _ => false) 1, .atSource (.put (curatedRow "z" 1 (by decide))),
    .batch (fun _ => false) 1, .batch (fun _ => false) 2]

theorem move_conserves_curated :
    MoveConserves SyncContent.content "north" (.start true curatedStores) curatedEvents
      ((moveMachine SyncContent.content "north").endState (.start true curatedStores)
        curatedEvents) :=
  move_conserves _ _ _ _ _ _ (by decide +kernel)
    ((moveMachine _ _).run_endState _ _ (by decide +kernel))

/-- The tenant deletes the row that was skipped, and later stores a newer one. -/
def replacedEvents : List MoveEvent :=
  [.batch (fun _ => false) 1, .atSource (.delete "x"), .batch (fun _ => false) 1,
    .atSource (.put (curatedRow "z" 5 (by decide))), .batch (fun _ => false) 1]

/-- A row that was written an hour later than noon, two hours behind UTC. -/
def westernConflict : MemoryEntry :=
  { curatedRow "y" 11 y_ne_empty with
    updatedAt := ⟨63840000000000000 + 11 * 3600000000, some (-7200000000)⟩ }

/-- Two conflicts, and the order of their texts is not that of their times. -/
def westernStores : MoveStores where
  source := ((⟨.empty, by simp⟩ : NamespaceRows).put (curatedRow "x" 12 x_ne_empty)).put
    westernConflict
  destination := ((⟨.empty, by simp⟩ : NamespaceRows).put (curatedRow "x" 1 x_ne_empty)).put
    (curatedRow "y" 1 y_ne_empty)

/-- The move completes with a row that the destination does not have: one row is left, as
many as were skipped. And with a row that is not in UTC the cursor of the second page comes
back with the fourth, both rows skipped twice. -/
theorem replaced_skip_completes :
    (((moveMachine SyncContent.content "north").run (.start true curatedStores)
        replacedEvents).map fun m => (m.progress.complete,
          (m.stores.source.find "z").isSome, (m.stores.destination.find "z").isSome)) =
      some (true, true, false) ∧
    [2, 4].map (fun n => ((moveAll SyncContent.content "north"
        (List.replicate n (fun _ => false, 1)) westernStores (.start true)).toOption).map
          fun result => (result.2.complete, result.2.skipped, result.2.cursor)) =
      [some (false, 2, some (readCursor westernConflict)),
        some (false, 4, some (readCursor westernConflict))] := by
  decide +kernel

end TrwMemory.Namespaces

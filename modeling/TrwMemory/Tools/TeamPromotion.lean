import TrwMemory.Library.Transition
import TrwMemory.Storage.EntryStore

/-!
Promotion of team memories (`tools/consolidate.py`). One call reads a team namespace through
`list_entries`, takes every row whose derived id the project namespace holds for promoted,
stores a copy of the others that are important enough, each in a transaction of its own, and
then marks the team completed (`namespaces/manager.py`). It may raise between any two of
these writes.

`team:*` promotes one team after the other and goes on when one raises. Permissions come
before the first read and are not modelled; neither is a change of the ledger, or a write of
another caller, while the promotions go on.

Runs of promotions, failed and repeated in any order. A copy is stored only where the
target holds nothing, so that no row of the target changes and no row is copied twice in
any run; a completed team has all its copies exactly when its last promotion saw every
important row and found its place free or its own.
-/
namespace TrwMemory.Tools

open Library.Keyed Library.Transition Storage Sync

/-- `ns.startswith(prefix)`. -/
def startsWith (pre text : String) : Bool := pre.toList.isPrefixOf text.toList

def isTeam (ns : String) : Bool := startsWith "team:" ns

/-- The grant's one project namespace and what the call is run with; `blocks` is what the
ledger hides. -/
structure PromotionConfig where
  target : String
  project : startsWith "project:" target = true
  promotionThreshold : Rat
  blocks : MemoryEntry → Bool
  syncDigest : SyncContent → String

def LIST_LIMIT : Nat := 10000

theorem PromotionConfig.target_ne (config : PromotionConfig) {ns : String} (h : isTeam ns = true) :
    config.target ≠ ns := by
  rintro rfl
  have hproject := List.isPrefixOf_iff_prefix.mp config.project
  obtain ⟨rest, hrest⟩ := List.isPrefixOf_iff_prefix.mp h
  obtain ⟨rest', hrest'⟩ := hproject
  have hfirst := congrArg List.head? (hrest.trans hrest'.symm)
  cases hfirst

def promotedId (id : String) : String := "promoted-" ++ id

theorem promotedId_ne (id : String) : promotedId id ≠ "" := by
  intro h
  have hchars := congrArg String.toList h
  rw [promotedId, String.toList_append] at hchars
  cases hchars

theorem promotedId_inj {a b : String} (h : promotedId a = promotedId b) : a = b := by
  have hchars := congrArg String.toList h
  rw [promotedId, promotedId, String.toList_append, String.toList_append] at hchars
  exact String.toList_inj.mp (List.append_cancel_left hchars)

/-- The text that is added to the history of a copy. -/
def promotedFrom (ns : String) (now : Datetime) : String :=
  "promoted_from:" ++ ns ++ ":timestamp=" ++ now.isoformat

def promotedEntry (config : PromotionConfig) (ns : String) (now : Datetime) (e : MemoryEntry) :
    MemoryEntry :=
  { e with
    id := promotedId e.id
    ns := config.target
    sourceIdentity := ns
    outcomeHistory := e.outcomeHistory ++ [promotedFrom ns now]
    updatedAt := now
    id_ne := promotedId_ne e.id }

/-- `completed` holds the teams that are marked; `copies` is the history of the rows whose
copies were stored, each under its namespace and id. -/
structure PromotionState where
  store : EntryStore
  completed : List String
  copies : List RowKey

def PromotionState.start (store : EntryStore) : PromotionState := ⟨store, [], []⟩

section Promotion

variable (config : PromotionConfig)

/-- Active, and not hidden by the ledger. -/
def served (row : MemoryEntry) : Bool :=
  decide (row.status = .active) && !config.blocks (readOf row)

/-- The entries of a team that the call sees. -/
def teamEntries (s : EntryStore) (ns : String) : List MemoryEntry :=
  s.listEntries (served config) ns LIST_LIMIT

/-- The place of a copy. -/
def copyKey (id : String) : RowKey := ⟨config.target, promotedId id⟩

/-- The entries that the call copies. -/
def promotable (s : EntryStore) (ns : String) : List MemoryEntry :=
  (teamEntries config s ns).filter fun e =>
    !s.holdsId (copyKey config e.id) && decide (config.promotionThreshold ≤ e.importance)

/-- The copies of some entries of a team are stored. -/
def storeCopies (s : PromotionState) (ns : String) (now : Datetime) (entries : List MemoryEntry) :
    PromotionState :=
  { s with
    store := s.store.storeAll config.syncDigest (entries.map (promotedEntry config ns now))
    copies := s.copies ++ entries.map fun e => ⟨ns, e.id⟩ }

/-- A promotion that raised after some of its copies, or came to its end. -/
inductive PromotionEvent where
  | raised (ns : String) (now : Datetime) (copies : Nat)
  | finished (ns : String) (now : Datetime)
  deriving DecidableEq, Repr

/-- `_promote_team_namespace`; a team that is marked is skipped. -/
def promote (s : PromotionState) : PromotionEvent → PromotionState
  | .raised ns now copies =>
      if isTeam ns && !s.completed.contains ns then
        storeCopies config s ns now ((promotable config s.store ns).take copies)
      else s
  | .finished ns now =>
      if isTeam ns && !s.completed.contains ns then
        { storeCopies config s ns now (promotable config s.store ns) with
          completed := ns :: s.completed }
      else s

def promotionMachine : Machine PromotionState PromotionEvent where
  step s event := some (promote config s event)

/-- The active rows that the ledger does not hide and that are important enough, in any
number. -/
def importantRows (s : EntryStore) (ns : String) : List MemoryEntry :=
  (s.rowsOf ns).filter fun row =>
    served config row && decide (config.promotionThreshold ≤ row.importance)

/-- The target holds what a promotion made of the row, and it names the team. -/
def HasCopy (s : PromotionState) (ns : String) (row : MemoryEntry) : Prop :=
  ⟨ns, row.id⟩ ∈ s.copies ∧
    ∃ copy, s.store.table.find (copyKey config row.id) = some copy ∧
      copy.content = row.content ∧ copy.detail = row.detail ∧ copy.tags = row.tags ∧
      copy.evidence = row.evidence ∧ copy.sourceIdentity = ns ∧
      ∃ now, promotedFrom ns now ∈ copy.outcomeHistory

/-- What the promotions owe to a store they found. -/
structure Promoted (found : EntryStore) (s : PromotionState) : Prop where
  complete : ∀ ns ∈ s.completed, ∀ row ∈ importantRows config s.store ns, HasCopy config s ns row
  untouched : ∀ k, found.holdsId k = true → s.store.table.find k = found.table.find k
  once : s.copies.Nodup

/-- Every important row is among the entries that the call sees, and its place is free, or the
call finds the copy that an earlier promotion of the same team has made. -/
def PromotesAll (s : PromotionState) : PromotionEvent → Prop
  | .raised _ _ _ => True
  | .finished ns _ =>
      isTeam ns = true → ns ∉ s.completed → ∀ row ∈ importantRows config s.store ns,
        readOf row ∈ teamEntries config s.store ns ∧
            s.store.holdsId (copyKey config row.id) = false ∨
          HasCopy config s ns row

end Promotion

variable {config : PromotionConfig}

theorem readOf_importance (row : MemoryEntry) : (readOf row).importance = row.importance := by
  obtain ⟨_, _, h⟩ := servedView_fields (readBack row)
  rw [readOf, h]
  rfl

theorem mem_importantRows {s : EntryStore} {ns : String} {row : MemoryEntry} :
    row ∈ importantRows config s ns ↔ row ∈ s.rowsOf ns ∧ served config row = true ∧
      config.promotionThreshold ≤ row.importance := by
  rw [importantRows, List.mem_filter, Bool.and_eq_true, decide_eq_true_eq]

theorem mem_promotable {s : EntryStore} {ns : String} {e : MemoryEntry} :
    e ∈ promotable config s ns ↔ e ∈ teamEntries config s ns ∧
      s.holdsId (copyKey config e.id) = false ∧ config.promotionThreshold ≤ e.importance := by
  rw [promotable, List.mem_filter, Bool.and_eq_true, decide_eq_true_eq, Bool.not_eq_true']

theorem nodup_promotable (s : EntryStore) (ns : String) :
    ((promotable config s ns).map MemoryEntry.id).Nodup :=
  (s.nodup_listEntries _ _ _).sublist (List.filter_sublist.map _)

/-- The entry of a row whose id the call copies is the one that it reads of the row. -/
theorem eq_readOf {s : EntryStore} {ns : String} {row e : MemoryEntry} (hrow : row ∈ s.rowsOf ns)
    (he : e ∈ teamEntries config s ns) (hid : e.id = row.id) : e = readOf row := by
  obtain ⟨row', hrow', -, rfl⟩ := s.mem_listEntries he
  rw [readOf_id] at hid
  rw [s.rowsOf_inj hrow' hrow hid]

section Copies

variable {s : PromotionState} {ns : String} {now : Datetime} {entries : List MemoryEntry}

theorem keys_promoted : (entries.map (promotedEntry config ns now)).map rowKey =
    entries.map fun e => copyKey config e.id := List.map_map

theorem nodup_keys (h : (entries.map MemoryEntry.id).Nodup) :
    ((entries.map (promotedEntry config ns now)).map rowKey).Nodup := by
  rw [keys_promoted]
  refine List.Nodup.map_on ?_ (List.Nodup.of_map _ h)
  intro a ha b hb hkey
  exact List.inj_on_of_nodup_map h ha hb (promotedId_inj (congrArg RowKey.id hkey))

/-- What a promotion leaves as it was: every row that was there. -/
theorem find_storeCopies_held (hsub : entries ⊆ promotable config s.store ns) {k : RowKey}
    (h : s.store.holdsId k = true) :
    (storeCopies config s ns now entries).store.table.find k = s.store.table.find k := by
  apply EntryStore.find_storeAll_of_notMem
  rw [keys_promoted, List.mem_map]
  rintro ⟨e, he, rfl⟩
  rw [(mem_promotable.mp (hsub he)).2.1] at h
  cases h

theorem find_storeCopies (hids : (entries.map MemoryEntry.id).Nodup) {e : MemoryEntry}
    (he : e ∈ entries) :
    (storeCopies config s ns now entries).store.table.find (copyKey config e.id) =
      some (stampSync config.syncDigest (promotedEntry config ns now e)) :=
  EntryStore.find_storeAll_of_mem _ _ (nodup_keys hids) (List.mem_map_of_mem he)

theorem rowsOf_storeCopies {team : String} (hteam : isTeam team = true) :
    (storeCopies config s ns now entries).store.rowsOf team = s.store.rowsOf team := by
  apply EntryStore.rowsOf_storeAll
  intro entry hentry
  obtain ⟨e, -, rfl⟩ := List.mem_map.mp hentry
  exact config.target_ne hteam

theorem importantRows_storeCopies {team : String} (hteam : isTeam team = true) :
    importantRows config (storeCopies config s ns now entries).store team =
      importantRows config s.store team := by
  rw [importantRows, importantRows, rowsOf_storeCopies hteam]

/-- A copy that is there stays. -/
theorem hasCopy_kept (hsub : entries ⊆ promotable config s.store ns) {team : String}
    {row : MemoryEntry} (h : HasCopy config s team row) :
    HasCopy config (storeCopies config s ns now entries) team row := by
  obtain ⟨hmem, copy, hfind, hcopy⟩ := h
  refine ⟨List.mem_append_left _ hmem, copy, ?_, hcopy⟩
  rw [find_storeCopies_held hsub, hfind]
  rw [EntryStore.holdsId, hfind]
  rfl

/-- An entry that is copied has its copy. -/
theorem hasCopy_stored (hids : (entries.map MemoryEntry.id).Nodup) {row : MemoryEntry}
    (he : readOf row ∈ entries) :
    HasCopy config (storeCopies config s ns now entries) ns row := by
  have hid := readOf_id row
  refine ⟨?_, _, hid ▸ find_storeCopies hids he, ?_⟩
  · exact List.mem_append_right _ (List.mem_map.mpr ⟨_, he, by rw [hid]⟩)
  · obtain ⟨_, _, hserved⟩ := servedView_fields (readBack row)
    have hread : readOf row = _ := hserved
    refine ⟨?_, ?_, ?_, ?_, rfl, now, List.mem_append_right _ List.mem_cons_self⟩ <;>
      · rw [hread]
        rfl

/-- A copy that is there after a promotion was made by it or is an older one. -/
theorem hasCopy_of_stored (hsub : entries ⊆ promotable config s.store ns) {row : MemoryEntry}
    (hrow : row ∈ s.store.rowsOf ns)
    (h : HasCopy config (storeCopies config s ns now entries) ns row) :
    readOf row ∈ entries ∨ HasCopy config s ns row := by
  obtain ⟨hmem, copy, hfind, hcopy⟩ := h
  by_cases hentry : ∃ e ∈ entries, e.id = row.id
  · obtain ⟨e, he, hid⟩ := hentry
    exact .inl (eq_readOf hrow (mem_promotable.mp (hsub he)).1 hid ▸ he)
  · have hold : (⟨ns, row.id⟩ : RowKey) ∈ s.copies := by
      refine (List.mem_append.mp hmem).resolve_right ?_
      intro hnew
      obtain ⟨e, he, hkey⟩ := List.mem_map.mp hnew
      exact hentry ⟨e, he, congrArg RowKey.id hkey⟩
    refine .inr ⟨hold, copy, ?_, hcopy⟩
    rw [← hfind]
    refine (EntryStore.find_storeAll_of_notMem _ _ ?_).symm
    rw [keys_promoted, List.mem_map]
    rintro ⟨e, he, hkey⟩
    exact hentry ⟨e, he, promotedId_inj (congrArg RowKey.id hkey)⟩

end Copies

/-- Every row that was copied has its place taken, and the teams marked are teams. -/
structure Promoting (config : PromotionConfig) (found : EntryStore) (s : PromotionState) : Prop
    extends Promoted config found s where
  placed : ∀ k ∈ s.copies, s.store.holdsId (copyKey config k.id) = true
  teams : ∀ ns ∈ s.completed, isTeam ns = true

theorem promoting_start (config : PromotionConfig) (found : EntryStore) :
    Promoting config found (.start found) where
  complete := fun _ h => (by cases h)
  untouched := fun _ _ => rfl
  once := List.nodup_nil
  placed := fun _ h => (by cases h)
  teams := fun _ h => (by cases h)

/-- Copies of what the call sees keep all that was owed before. -/
theorem promoting_storeCopies {found : EntryStore} {s : PromotionState} {ns : String}
    {now : Datetime} {entries : List MemoryEntry} (h : Promoting config found s)
    (hsub : entries.Sublist (promotable config s.store ns)) :
    Promoting config found (storeCopies config s ns now entries) := by
  have hids : (entries.map MemoryEntry.id).Nodup :=
    (nodup_promotable s.store ns).sublist (hsub.map _)
  have hholds : ∀ k, s.store.holdsId k = true →
      (storeCopies config s ns now entries).store.holdsId k = true := by
    intro k hk
    rw [EntryStore.holdsId, find_storeCopies_held hsub.subset hk, ← EntryStore.holdsId, hk]
  refine ⟨⟨?_, ?_, ?_⟩, ?_, h.teams⟩
  · intro team hteam row hrow
    rw [importantRows_storeCopies (h.teams team hteam)] at hrow
    exact hasCopy_kept hsub.subset (h.complete team hteam row hrow)
  · intro k hk
    rw [← h.untouched k hk]
    apply find_storeCopies_held hsub.subset
    rw [EntryStore.holdsId, h.untouched k hk, ← EntryStore.holdsId, hk]
  · rw [storeCopies, List.nodup_append]
    refine ⟨h.once, ?_, ?_⟩
    · refine List.Nodup.map_on ?_ (List.Nodup.of_map _ hids)
      intro a ha b hb hkey
      exact List.inj_on_of_nodup_map hids ha hb (congrArg RowKey.id hkey)
    · -- the place of a row that was copied before is not free
      rintro k hk k' hk' rfl
      obtain ⟨e, he, rfl⟩ := List.mem_map.mp hk'
      have hplaced := h.placed _ hk
      rw [(mem_promotable.mp (hsub.subset he)).2.1] at hplaced
      cases hplaced
  · intro k hk
    rcases List.mem_append.mp hk with hold | hnew
    · exact hholds _ (h.placed k hold)
    · obtain ⟨e, he, rfl⟩ := List.mem_map.mp hnew
      rw [EntryStore.holdsId, find_storeCopies hids he]
      rfl

theorem promoting_preserved (config : PromotionConfig) (found : EntryStore) :
    (promotionMachine config).Preserves (PromotesAll config) (Promoting config found) := by
  intro s event t hs hall hstep
  obtain rfl := Option.some.inj hstep
  cases event with
  | raised ns now copies =>
      rw [promote]
      split
      · exact promoting_storeCopies hs (List.take_sublist _ _)
      · exact hs
  | finished ns now =>
      rw [promote]
      split
      · rename_i hguard
        rw [Bool.and_eq_true, Bool.not_eq_true', List.contains_eq_mem, decide_eq_false_iff_not]
          at hguard
        have hcopied := @promoting_storeCopies config found s ns now _ hs (List.Sublist.refl
          (promotable config s.store ns))
        refine ⟨⟨?_, hcopied.untouched, hcopied.once⟩, hcopied.placed, ?_⟩
        · intro team hteam row hrow
          rcases List.mem_cons.mp hteam with rfl | hteam
          · rw [importantRows_storeCopies hguard.1] at hrow
            rcases hall hguard.1 hguard.2 row hrow with ⟨hseen, hfree⟩ | hcopy
            · refine hasCopy_stored (nodup_promotable s.store team) (mem_promotable.mpr ?_)
              rw [readOf_id, readOf_importance]
              exact ⟨hseen, hfree, (mem_importantRows.mp hrow).2.2⟩
            · exact hasCopy_kept (List.Subset.refl _) hcopy
          · exact hcopied.complete team hteam row hrow
        · intro team hteam
          rcases List.mem_cons.mp hteam with rfl | hteam
          · exact hguard.1
          · exact hs.teams team hteam
      · exact hs

/-- A promotion that comes to its end without a row loses it. -/
theorem lost_row (config : PromotionConfig) (found : EntryStore) (s : PromotionState)
    (event : PromotionEvent) (h : ¬ PromotesAll config s event) :
    ∃ t, (promotionMachine config).step s event = some t ∧ ¬ Promoted config found t := by
  cases event with
  | raised _ _ _ => exact absurd trivial h
  | finished ns now =>
      simp only [PromotesAll, not_forall, not_or, not_and] at h
      obtain ⟨hteam, hopen, row, hrow, hunseen, hcopy⟩ := h
      refine ⟨_, rfl, fun hpromoted => ?_⟩
      have hguard : (isTeam ns && !s.completed.contains ns) = true := by
        rw [Bool.and_eq_true, Bool.not_eq_true', List.contains_eq_mem, decide_eq_false_iff_not]
        exact ⟨hteam, hopen⟩
      rw [promote, if_pos hguard] at hpromoted
      have hmine := hpromoted.complete ns List.mem_cons_self row
        (by rw [importantRows_storeCopies hteam]; exact hrow)
      rcases hasCopy_of_stored (List.Subset.refl _) (mem_importantRows.mp hrow).1 hmine with
        hstored | hold
      · obtain ⟨hseen, hfree, -⟩ := mem_promotable.mp hstored
        rw [readOf_id] at hfree
        exact hunseen hseen hfree
      · exact hcopy hold

/-- From any store: all along a run of promotions, each repeated any number of times and each
raising after any of its copies, completed teams have all their copies, the rows of the store
are untouched and no row is copied twice, exactly when every promotion that came to its end
saw each important row of its team and found its place free or its own. -/
theorem promotions_complete_iff (config : PromotionConfig) (found : EntryStore)
    (events : List PromotionEvent) :
    (promotionMachine config).Along (Promoted config found) (.start found) events ↔
      (promotionMachine config).Guarded (PromotesAll config) (.start found) events :=
  ⟨(promotionMachine config).guarded_of_along (lost_row config found),
    (promotionMachine config).along_of_guarded (promoting_preserved config found)
      (fun _ h => h.toPromoted) (promoting_start config found)⟩

def sprints : PromotionConfig where
  target := "project:default"
  project := by decide
  promotionThreshold := 3152519739159347 / 4503599627370496
  blocks := fun _ => false
  syncDigest := fun _ => ""

def teamRow (ns content : String) : MemoryEntry :=
  { MemoryEntry.ofDefaults "e1" content ns ⟨63839966400000000, some 0⟩ (by decide) with
    importance := 9 / 10 }

/-- Two teams that use one id. -/
def twoSprints : EntryStore :=
  EntryStore.empty.storeAll (fun _ => "")
    [teamRow "team:sprint-37" "pin the compiler", teamRow "team:sprint-38" "rotate the keys"]

def bothFinished : List PromotionEvent :=
  [.finished "team:sprint-37" ⟨63839966400000000, some 0⟩,
    .finished "team:sprint-38" ⟨63839966400000000, some 0⟩]

def afterBoth : PromotionState :=
  (promotionMachine sprints).endState (.start twoSprints) bothFinished

/-- The second team is completed, and its row was taken for promoted by the copy of the
first team's. -/
theorem second_sprint_lost :
    (promotionMachine sprints).run (.start twoSprints) bothFinished = some afterBoth ∧
      "team:sprint-38" ∈ afterBoth.completed ∧
      (importantRows sprints afterBoth.store "team:sprint-38").map MemoryEntry.content =
        ["rotate the keys"] ∧
      afterBoth.copies = [⟨"team:sprint-37", "e1"⟩] ∧
      ¬ (promotionMachine sprints).Along (Promoted sprints twoSprints) (.start twoSprints)
        bothFinished := by
  have hcompleted : "team:sprint-38" ∈ afterBoth.completed := by decide +kernel
  have hcopies : afterBoth.copies = [⟨"team:sprint-37", "e1"⟩] := by decide +kernel
  refine ⟨rfl, hcompleted, by decide +kernel, hcopies, ?_⟩
  intro halong
  have hend : Promoted sprints twoSprints afterBoth := (halong.2 _ rfl).2 _ rfl
  have hrow : (importantRows sprints afterBoth.store "team:sprint-38").head?.isSome = true := by
    decide +kernel
  obtain ⟨row, hhead⟩ := Option.isSome_iff_exists.mp hrow
  have hcopy := (hend.complete _ hcompleted row (List.mem_of_head? hhead)).1
  rw [hcopies] at hcopy
  have hns : "team:sprint-38" = "team:sprint-37" :=
    congrArg RowKey.ns (List.mem_singleton.mp hcopy)
  exact absurd hns (by decide)

end TrwMemory.Tools

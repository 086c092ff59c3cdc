import TrwMemory.Graph.Traversal

/-!
Conflicts among the entries of a result (`_graph_conflicts.py`): `filter_conflicts` drops the less
important side of a pair that a `conflicts_with` edge joins. It scans the entries in the order of
the result and the edges in the order of their rows, and drops as it goes.

Importances are exact. The metadata of an edge is read by no decision and left out.
-/
namespace TrwMemory.Graph

/-- The fields of an entry that are read. -/
structure ConflictEntry where
  id : String
  importance : Option Rat
  deriving DecidableEq

def DEFAULT_IMPORTANCE : Rat := 1 / 2

/-- `float(e.get("importance", 0.5))`. -/
def ConflictEntry.weight (e : ConflictEntry) : Rat := e.importance.getD DEFAULT_IMPORTANCE

/-- `get_conflicts`, without the metadata. -/
def getConflicts (edges : List EdgeRow) (id : String) : List EdgeRow :=
  edges.filter fun e => e.edgeType == "conflicts_with" && (e.sourceId == id || e.targetId == id)

/-- `other_id`. -/
def otherId (id : String) (e : EdgeRow) : String :=
  if e.sourceId = id then e.targetId else e.sourceId

/-- `importance_map.get(id, 0.5)`. -/
def importanceOf (entries : List ConflictEntry) (id : String) : Rat :=
  ((entries.reverse.find? fun e => e.id == id).map ConflictEntry.weight).getD DEFAULT_IMPORTANCE

/-- The loop over the conflicts of one entry. It ends where the entry itself is suppressed. -/
def suppressPairs (entries : List ConflictEntry) (id : String) :
    List EdgeRow → List String → List String
  | [], suppressed => suppressed
  | e :: conflicts, suppressed =>
      let other := otherId id e
      if other ∉ entries.map ConflictEntry.id ∨ other ∈ suppressed then
        suppressPairs entries id conflicts suppressed
      else if importanceOf entries other < importanceOf entries id then
        suppressPairs entries id conflicts (other :: suppressed)
      else if importanceOf entries id < importanceOf entries other then id :: suppressed
      else suppressPairs entries id conflicts suppressed

/-- The loop over the entries. -/
def suppressEntry (entries : List ConflictEntry) (edges : List EdgeRow)
    (suppressed : List String) (e : ConflictEntry) : List String :=
  if e.id ∈ suppressed then suppressed
  else suppressPairs entries e.id (getConflicts edges e.id) suppressed

/-- `filter_conflicts`. -/
def filterConflicts (entries : List ConflictEntry) (edges : List EdgeRow) :
    List ConflictEntry :=
  if entries.length < 2 then entries
  else
    let suppressed := entries.foldl (suppressEntry entries edges) []
    entries.filter fun e => e.id ∉ suppressed

/-- An edge joins the two, and the second is the more important. -/
def YieldsTo (edges : List EdgeRow) (x y : ConflictEntry) : Prop :=
  (∃ e ∈ edges, e.edgeType = "conflicts_with" ∧
    (e.sourceId = x.id ∧ e.targetId = y.id ∨ e.sourceId = y.id ∧ e.targetId = x.id)) ∧
  x.weight < y.weight

section Scan

variable {entries : List ConflictEntry} {edges : List EdgeRow}

theorem importanceOf_mem (hids : (entries.map ConflictEntry.id).Nodup) {e : ConflictEntry}
    (he : e ∈ entries) : importanceOf entries e.id = e.weight := by
  have hfind : entries.reverse.find? (fun other => other.id == e.id) = some e := by
    cases hfound : entries.reverse.find? (fun other => other.id == e.id) with
    | none =>
        have hnone := List.find?_eq_none.mp hfound e (List.mem_reverse.mpr he)
        exact absurd (beq_self_eq_true e.id) hnone
    | some other =>
        have hid : other.id = e.id := by simpa using List.find?_some hfound
        have hmem := List.mem_reverse.mp (List.mem_of_find?_eq_some hfound)
        rw [List.inj_on_of_nodup_map hids hmem he hid]
  rw [importanceOf, hfind, Option.map_some, Option.getD_some]

theorem otherId_eq {x y : ConflictEntry} (hne : x.id ≠ y.id) {e : EdgeRow} :
    e ∈ getConflicts edges x.id ∧ otherId x.id e = y.id ↔
      e ∈ edges ∧ e.edgeType = "conflicts_with" ∧
        (e.sourceId = x.id ∧ e.targetId = y.id ∨ e.sourceId = y.id ∧ e.targetId = x.id) := by
  rw [getConflicts, List.mem_filter, Bool.and_eq_true, Bool.or_eq_true, beq_iff_eq, beq_iff_eq,
    beq_iff_eq, otherId, and_assoc, and_assoc]
  refine and_congr_right fun _ => and_congr_right fun _ => ?_
  by_cases hsource : e.sourceId = x.id
  · rw [if_pos hsource]
    constructor
    · exact fun h => .inl ⟨hsource, h.2⟩
    · rintro (⟨-, htarget⟩ | ⟨hother, -⟩)
      · exact ⟨.inl hsource, htarget⟩
      · exact absurd (hsource.symm.trans hother) hne
  · rw [if_neg hsource]
    constructor
    · rintro ⟨hjoin, hother⟩
      exact .inr ⟨hother, hjoin.resolve_left hsource⟩
    · rintro (⟨hsame, -⟩ | ⟨hother, htarget⟩)
      · exact absurd hsame hsource
      · exact ⟨.inr htarget, hother⟩

theorem subset_suppressPairs {id : String} (conflicts : List EdgeRow) (suppressed : List String) :
    suppressed ⊆ suppressPairs entries id conflicts suppressed := by
  induction conflicts generalizing suppressed with
  | nil => exact List.Subset.refl _
  | cons e conflicts ih =>
      rw [suppressPairs]
      split
      · exact ih suppressed
      · split
        · exact List.Subset.trans (List.subset_cons_self _ _) (ih _)
        · split
          · exact List.subset_cons_self _ _
          · exact ih suppressed

/-- What the loop adds is the less important side of a conflict. -/
theorem mem_suppressPairs {id dropped : String} {conflicts : List EdgeRow}
    {suppressed : List String} (h : dropped ∈ suppressPairs entries id conflicts suppressed) :
    dropped ∈ suppressed ∨ ∃ e ∈ conflicts, otherId id e ∈ entries.map ConflictEntry.id ∧
      (dropped = otherId id e ∧ importanceOf entries (otherId id e) < importanceOf entries id ∨
        dropped = id ∧ importanceOf entries id < importanceOf entries (otherId id e)) := by
  induction conflicts generalizing suppressed with
  | nil => exact .inl h
  | cons e conflicts ih =>
      have hlater : ∀ {suppressed}, dropped ∈ suppressPairs entries id conflicts suppressed →
          dropped ∈ suppressed ∨ ∃ e' ∈ e :: conflicts,
            otherId id e' ∈ entries.map ConflictEntry.id ∧
            (dropped = otherId id e' ∧
                importanceOf entries (otherId id e') < importanceOf entries id ∨
              dropped = id ∧ importanceOf entries id < importanceOf entries (otherId id e')) :=
        fun h => (ih h).imp_right fun ⟨e', hmem, hrest⟩ =>
          ⟨e', List.mem_cons_of_mem _ hmem, hrest⟩
      rw [suppressPairs] at h
      split at h
      · exact hlater h
      · rename_i hskip
        have hpresent := not_not.mp (not_or.mp hskip).1
        split at h
        · rename_i hless
          rcases hlater h with hmem | hfound
          · rcases List.mem_cons.mp hmem with rfl | hmem
            · exact .inr ⟨e, List.mem_cons_self, hpresent, .inl ⟨rfl, hless⟩⟩
            · exact .inl hmem
          · exact .inr hfound
        · split at h
          · rename_i hmore
            rcases List.mem_cons.mp h with rfl | hmem
            · exact .inr ⟨e, List.mem_cons_self, hpresent, .inr ⟨rfl, hmore⟩⟩
            · exact .inl hmem
          · exact hlater h

/-- An entry that is left has suppressed its conflicts, but for those of its own importance. -/
theorem settled_suppressPairs {id : String} {conflicts : List EdgeRow} {suppressed : List String}
    (hleft : id ∉ suppressPairs entries id conflicts suppressed) {e : EdgeRow}
    (he : e ∈ conflicts) (hpresent : otherId id e ∈ entries.map ConflictEntry.id) :
    otherId id e ∈ suppressPairs entries id conflicts suppressed ∨
      importanceOf entries (otherId id e) = importanceOf entries id := by
  induction conflicts generalizing suppressed with
  | nil => cases he
  | cons first conflicts ih =>
      have hkept := @subset_suppressPairs entries id conflicts
      rw [suppressPairs] at hleft ⊢
      split at hleft
      · rename_i hskip
        rw [if_pos hskip]
        rcases List.mem_cons.mp he with rfl | he
        · exact .inl (hkept suppressed (hskip.resolve_left (not_not.mpr hpresent)))
        · exact ih hleft he
      · rename_i hskip
        rw [if_neg hskip]
        split at hleft
        · rename_i hless
          rw [if_pos hless]
          rcases List.mem_cons.mp he with rfl | he
          · exact .inl (hkept _ List.mem_cons_self)
          · exact ih hleft he
        · rename_i hnotLess
          rw [if_neg hnotLess]
          split at hleft
          · exact absurd List.mem_cons_self hleft
          · rename_i hnotMore
            rw [if_neg hnotMore]
            rcases List.mem_cons.mp he with rfl | he
            · exact .inr (le_antisymm (not_lt.mp hnotMore) (not_lt.mp hnotLess))
            · exact ih hleft he

/-- An entry with a more important conflict that is not suppressed is itself. -/
theorem yielded_suppressPairs {id : String} {conflicts : List EdgeRow} {suppressed : List String}
    {e : EdgeRow} (he : e ∈ conflicts) (hpresent : otherId id e ∈ entries.map ConflictEntry.id)
    (hmore : importanceOf entries id < importanceOf entries (otherId id e))
    (hfree : otherId id e ∉ suppressed) :
    id ∈ suppressPairs entries id conflicts suppressed := by
  induction conflicts generalizing suppressed with
  | nil => cases he
  | cons first conflicts ih =>
      rw [suppressPairs]
      rcases List.mem_cons.mp he with rfl | he
      · rw [if_neg (not_or.mpr ⟨not_not.mpr hpresent, hfree⟩), if_neg (lt_asymm hmore),
          if_pos hmore]
        exact List.mem_cons_self
      · split
        · exact ih he hfree
        · split
          · rename_i hless
            refine ih he fun hmem => ?_
            rcases List.mem_cons.mp hmem with heq | hmem
            · rw [heq] at hmore
              exact lt_asymm hmore hless
            · exact hfree hmem
          · split
            · exact List.mem_cons_self
            · exact ih he hfree

end Scan

section Filter

variable {entries : List ConflictEntry} {edges : List EdgeRow}

/-- The ids that the scan of some entries suppresses, among all of them. -/
def suppressedIds (entries : List ConflictEntry) (edges : List EdgeRow)
    (scanned : List ConflictEntry) (suppressed : List String) : List String :=
  scanned.foldl (suppressEntry entries edges) suppressed

theorem subset_suppressedIds (scanned : List ConflictEntry) (suppressed : List String) :
    suppressed ⊆ suppressedIds entries edges scanned suppressed := by
  induction scanned generalizing suppressed with
  | nil => exact List.Subset.refl _
  | cons e scanned ih =>
      refine List.Subset.trans ?_ (ih (suppressEntry entries edges suppressed e))
      rw [suppressEntry]
      split
      · exact List.Subset.refl _
      · exact subset_suppressPairs _ _

/-- Only entries that yield to another are suppressed. -/
theorem yields_of_suppressed (hids : (entries.map ConflictEntry.id).Nodup)
    {scanned : List ConflictEntry} {suppressed : List String} (hscanned : scanned ⊆ entries)
    (hsuppressed : ∀ x ∈ entries, x.id ∈ suppressed → ∃ y ∈ entries, YieldsTo edges x y)
    {x : ConflictEntry} (hx : x ∈ entries)
    (h : x.id ∈ suppressedIds entries edges scanned suppressed) :
    ∃ y ∈ entries, YieldsTo edges x y := by
  induction scanned generalizing suppressed with
  | nil => exact hsuppressed x hx h
  | cons e scanned ih =>
      have he := hscanned List.mem_cons_self
      refine ih (List.Subset.trans (List.subset_cons_self _ _) hscanned) ?_ h
      intro x hx hmem
      rw [suppressEntry] at hmem
      split at hmem
      · exact hsuppressed x hx hmem
      · rcases mem_suppressPairs hmem with hold | ⟨edge, hedge, hpresent, hcase⟩
        · exact hsuppressed x hx hold
        · obtain ⟨other, hother, hid⟩ := List.mem_map.mp hpresent
          rw [← hid, importanceOf_mem hids he, importanceOf_mem hids hother] at hcase
          have hjoined : e.id ≠ other.id → edge ∈ edges ∧ edge.edgeType = "conflicts_with" ∧
              (edge.sourceId = e.id ∧ edge.targetId = other.id ∨
                edge.sourceId = other.id ∧ edge.targetId = e.id) :=
            fun hne => (otherId_eq hne).mp ⟨hedge, hid.symm⟩
          have hne : e.weight ≠ other.weight → e.id ≠ other.id := fun hne heq =>
            hne (congrArg ConflictEntry.weight (List.inj_on_of_nodup_map hids he hother heq))
          rcases hcase with ⟨hdropped, hless⟩ | ⟨hdropped, hmore⟩
          · obtain rfl := List.inj_on_of_nodup_map hids hx hother hdropped
            obtain ⟨hmem, htype, hends⟩ := hjoined (hne hless.ne')
            exact ⟨e, he, ⟨edge, hmem, htype, hends.symm⟩, hless⟩
          · obtain rfl := List.inj_on_of_nodup_map hids hx he hdropped
            obtain ⟨hmem, htype, hends⟩ := hjoined (hne hmore.ne)
            exact ⟨other, hother, ⟨edge, hmem, htype, hends⟩, hmore⟩

/-- No scanned entry that is left yields to another that is left, nor does another to it. -/
theorem apart_of_left (hids : (entries.map ConflictEntry.id).Nodup)
    {scanned : List ConflictEntry} {suppressed : List String} (hscanned : scanned ⊆ entries)
    {x y : ConflictEntry} (hx : x ∈ scanned) (hy : y ∈ entries)
    (hxleft : x.id ∉ suppressedIds entries edges scanned suppressed)
    (hyleft : y.id ∉ suppressedIds entries edges scanned suppressed) :
    ¬ YieldsTo edges x y ∧ ¬ YieldsTo edges y x := by
  induction scanned generalizing suppressed with
  | nil => cases hx
  | cons e scanned ih =>
      rcases List.mem_cons.mp hx with rfl | hx
      · have hkept := @subset_suppressedIds entries edges scanned
          (suppressEntry entries edges suppressed x)
        have hxnow : x.id ∉ suppressEntry entries edges suppressed x :=
          fun hmem => hxleft (hkept hmem)
        have hynow : y.id ∉ suppressEntry entries edges suppressed x :=
          fun hmem => hyleft (hkept hmem)
        have hxentries := hscanned List.mem_cons_self
        rw [suppressEntry] at hxnow hynow
        split at hxnow
        · rename_i hmem
          exact absurd hmem hxnow
        · rename_i hfresh
          rw [if_neg hfresh] at hynow
          have hequal : ∀ edge ∈ edges, edge.edgeType = "conflicts_with" →
              (edge.sourceId = x.id ∧ edge.targetId = y.id ∨
                edge.sourceId = y.id ∧ edge.targetId = x.id) → x.id ≠ y.id →
              y.weight = x.weight := by
            intro edge hedge htype hends hne
            obtain ⟨hconflict, hother⟩ := (otherId_eq hne).mpr ⟨hedge, htype, hends⟩
            have hpresent : otherId x.id edge ∈ entries.map ConflictEntry.id :=
              hother.symm ▸ List.mem_map_of_mem hy
            have hsettled := settled_suppressPairs hxnow hconflict hpresent
            rw [hother, importanceOf_mem hids hy, importanceOf_mem hids hxentries] at hsettled
            exact hsettled.resolve_left hynow
          have hne : x.weight ≠ y.weight → x.id ≠ y.id := fun hne heq =>
            hne (congrArg ConflictEntry.weight (List.inj_on_of_nodup_map hids hxentries hy heq))
          constructor
          · rintro ⟨⟨edge, hedge, htype, hends⟩, hless⟩
            exact hless.ne' (hequal edge hedge htype hends (hne hless.ne))
          · rintro ⟨⟨edge, hedge, htype, hends⟩, hless⟩
            exact hless.ne (hequal edge hedge htype hends.symm (hne hless.ne'))
      · exact ih (List.Subset.trans (List.subset_cons_self _ _) hscanned) hx hxleft hyleft

theorem filterConflicts_filter (entries : List ConflictEntry) (edges : List EdgeRow) :
    ∃ keeps : ConflictEntry → Bool, filterConflicts entries edges = entries.filter keeps := by
  rw [filterConflicts]
  split
  · exact ⟨fun _ => true, (List.filter_eq_self.mpr fun _ _ => rfl).symm⟩
  · exact ⟨_, rfl⟩

/-- Filters that keep the same entries give the same list. -/
theorem filterConflicts_congr {edges' : List EdgeRow}
    (h : ∀ x ∈ entries, x ∈ filterConflicts entries edges ↔ x ∈ filterConflicts entries edges') :
    filterConflicts entries edges = filterConflicts entries edges' := by
  obtain ⟨keeps, hkeeps⟩ := filterConflicts_filter entries edges
  obtain ⟨keeps', hkeeps'⟩ := filterConflicts_filter entries edges'
  rw [hkeeps, hkeeps'] at h ⊢
  refine List.filter_congr fun x hx => ?_
  have hiff := h x hx
  rw [List.mem_filter, List.mem_filter, and_iff_right hx, and_iff_right hx] at hiff
  exact Bool.eq_iff_iff.mpr hiff

theorem mem_filterConflicts {x : ConflictEntry} : x ∈ filterConflicts entries edges ↔
    x ∈ entries ∧ (entries.length < 2 ∨ x.id ∉ suppressedIds entries edges entries []) := by
  rw [filterConflicts]
  split
  · rename_i hfew
    exact (and_iff_left (.inl hfew)).symm
  · rename_i hmany
    rw [List.mem_filter, decide_eq_true_iff, or_iff_right hmany]
    rfl

/-- Who yields to another is not alone. -/
theorem two_of_yields {x y : ConflictEntry} (hx : x ∈ entries) (hy : y ∈ entries)
    (h : YieldsTo edges x y) : ¬ entries.length < 2 := by
  intro hfew
  match entries, hx, hy, hfew with
  | [only], hx, hy, _ =>
      rw [List.mem_singleton.mp hx, List.mem_singleton.mp hy] at h
      exact lt_irrefl _ h.2

variable (hids : (entries.map ConflictEntry.id).Nodup)

include hids

theorem apart_filterConflicts {x y : ConflictEntry} (hx : x ∈ filterConflicts entries edges)
    (hy : y ∈ filterConflicts entries edges) : ¬ YieldsTo edges x y := by
  intro h
  obtain ⟨hxmem, hxleft⟩ := mem_filterConflicts.mp hx
  obtain ⟨hymem, hyleft⟩ := mem_filterConflicts.mp hy
  have hmany := two_of_yields hxmem hymem h
  exact (apart_of_left hids (List.Subset.refl _) hxmem hymem (hxleft.resolve_left hmany)
    (hyleft.resolve_left hmany)).1 h

theorem keeps_filterConflicts {x : ConflictEntry} (hx : x ∈ entries)
    (hfree : ∀ y ∈ entries, ¬ YieldsTo edges x y) : x ∈ filterConflicts entries edges := by
  refine mem_filterConflicts.mpr ⟨hx, .inr fun hmem => ?_⟩
  obtain ⟨y, hy, hyields⟩ := yields_of_suppressed hids (List.Subset.refl _) (fun _ _ h => by
    cases h) hx hmem
  exact hfree y hy hyields

/-- The entry that is scanned first is dropped if it yields to any other. -/
theorem drops_first {x y : ConflictEntry} {rest : List ConflictEntry}
    (hfirst : entries = x :: rest) (hy : y ∈ entries) (h : YieldsTo edges x y) :
    x ∉ filterConflicts entries edges := by
  have hx : x ∈ entries := hfirst ▸ List.mem_cons_self
  intro hkept
  refine (mem_filterConflicts.mp hkept).2.resolve_left (two_of_yields hx hy h) ?_
  have hne : x.id ≠ y.id := fun heq => h.2.ne
    (congrArg ConflictEntry.weight (List.inj_on_of_nodup_map hids hx hy heq))
  obtain ⟨⟨edge, hedge, htype, hends⟩, hless⟩ := h
  obtain ⟨hconflict, hother⟩ := (otherId_eq hne).mpr ⟨hedge, htype, hends⟩
  have hscan : x.id ∈ suppressEntry entries edges [] x := by
    rw [suppressEntry, if_neg List.not_mem_nil]
    refine yielded_suppressPairs hconflict (hother.symm ▸ List.mem_map_of_mem hy) ?_
      List.not_mem_nil
    rwa [hother, importanceOf_mem hids hx, importanceOf_mem hids hy]
  have hlater : x.id ∈ suppressedIds entries edges rest (suppressEntry entries edges [] x) :=
    subset_suppressedIds rest (suppressEntry entries edges [] x) hscan
  have hfold : suppressedIds entries edges entries [] =
      suppressedIds entries edges rest (suppressEntry entries edges [] x) :=
    congrArg (suppressedIds entries edges · []) hfirst
  rwa [hfold]

end Filter

/-- The edges of one namespace. -/
def ownEdges (ns : String) (edges : List EdgeRow) : List EdgeRow := edges.filter (·.ns == ns)

/-- The kept entries have no conflict of different importance, and every other yields to one. -/
structure Consistent (edges : List EdgeRow) (entries kept : List ConflictEntry) : Prop where
  apart : ∀ x ∈ kept, ∀ y ∈ kept, ¬ YieldsTo edges x y
  yields : ∀ x ∈ entries, x ∉ kept → ∃ y ∈ kept, YieldsTo edges x y

/-- In whatever order entries and edges come, the result is consistent in the namespace, the edges
of others change nothing, and the same entries are kept. -/
def SuppressesConsistently (ns : String) (entries : List ConflictEntry) (edges : List EdgeRow) :
    Prop :=
  ∀ entries' edges', entries'.Perm entries → edges'.Perm edges →
    Consistent (ownEdges ns edges) entries (filterConflicts entries' edges') ∧
    filterConflicts entries' edges' = filterConflicts entries' (ownEdges ns edges') ∧
    ∀ x, x ∈ filterConflicts entries' edges' ↔ x ∈ filterConflicts entries edges

/-- Every entry that yields at all yields, in the namespace, to one that yields to none. -/
def YieldsToLast (ns : String) (entries : List ConflictEntry) (edges : List EdgeRow) : Prop :=
  ∀ x ∈ entries, (∃ y ∈ entries, YieldsTo edges x y) →
    ∃ y ∈ entries, YieldsTo (ownEdges ns edges) x y ∧ ∀ z ∈ entries, ¬ YieldsTo edges y z

section Consistency

variable {ns : String} {entries entries' : List ConflictEntry} {edges edges' : List EdgeRow}

theorem YieldsTo.mono {x y : ConflictEntry} (h : YieldsTo edges x y) (hsubset : edges ⊆ edges') :
    YieldsTo edges' x y := by
  obtain ⟨⟨edge, hedge, hrest⟩, hless⟩ := h
  exact ⟨⟨edge, hsubset hedge, hrest⟩, hless⟩

theorem ownEdges_subset : ownEdges ns edges ⊆ edges :=
  fun _ hedge => (List.mem_filter.mp hedge).1

theorem ownEdges_mono (h : edges ⊆ edges') : ownEdges ns edges ⊆ ownEdges ns edges' :=
  fun _ hedge => List.mem_filter.mpr
    ⟨h (List.mem_filter.mp hedge).1, (List.mem_filter.mp hedge).2⟩

/-- Then the entries that yield to none are kept, by the edges of all namespaces or of one. -/
theorem kept_iff (hids : (entries.map ConflictEntry.id).Nodup) (h : YieldsToLast ns entries edges)
    (hentries : entries'.Perm entries) (hmore : ownEdges ns edges ⊆ edges')
    (hless : edges' ⊆ edges) (x : ConflictEntry) :
    x ∈ filterConflicts entries' edges' ↔ x ∈ entries ∧ ∀ y ∈ entries, ¬ YieldsTo edges x y := by
  have hids' : (entries'.map ConflictEntry.id).Nodup :=
    (hentries.map ConflictEntry.id).nodup_iff.mpr hids
  have hkeeps : ∀ y ∈ entries, (∀ z ∈ entries, ¬ YieldsTo edges y z) →
      y ∈ filterConflicts entries' edges' := fun y hy hlast =>
    keeps_filterConflicts hids' (hentries.mem_iff.mpr hy) fun z hz hyields =>
      hlast z (hentries.mem_iff.mp hz) (hyields.mono hless)
  constructor
  · intro hkept
    have hx := hentries.mem_iff.mp (mem_filterConflicts.mp hkept).1
    refine ⟨hx, fun y hy hyields => ?_⟩
    obtain ⟨last, hlast, hown, hnone⟩ := h x hx ⟨y, hy, hyields⟩
    exact apart_filterConflicts hids' hkept (hkeeps last hlast hnone) (hown.mono hmore)
  · exact fun ⟨hx, hnone⟩ => hkeeps x hx hnone

theorem erase_perm_first {x : ConflictEntry} (hx : x ∈ entries) :
    (x :: entries.erase x).Perm entries := (List.perm_cons_erase hx).symm

/-- The suppression is consistent exactly if every entry that yields to a more important one, by an
edge of any namespace, yields in its own to one that yields to none. -/
theorem suppressesConsistently_iff (ns : String) (entries : List ConflictEntry)
    (edges : List EdgeRow) (hids : (entries.map ConflictEntry.id).Nodup) :
    SuppressesConsistently ns entries edges ↔ YieldsToLast ns entries edges := by
  constructor
  · intro h x hx hyields
    -- the entry that is scanned first is dropped, whatever becomes of what it yields to
    have hdropped : ∀ z ∈ entries, (∃ y ∈ entries, YieldsTo edges z y) →
        z ∉ filterConflicts (z :: entries.erase z) edges := by
      intro z hz ⟨y, hy, hyields⟩
      have hperm := erase_perm_first hz
      exact drops_first ((hperm.map ConflictEntry.id).nodup_iff.mpr hids) rfl
        (hperm.mem_iff.mpr hy) hyields
    obtain ⟨hconsistent, -, hsame⟩ := h _ edges (erase_perm_first hx) (List.Perm.refl _)
    obtain ⟨last, hlast, hown⟩ := hconsistent.yields x hx (hdropped x hx hyields)
    have hmem := (erase_perm_first hx).mem_iff.mp (mem_filterConflicts.mp hlast).1
    refine ⟨last, hmem, hown, fun z hz hagain => ?_⟩
    obtain ⟨-, -, hsame'⟩ := h _ edges (erase_perm_first hmem) (List.Perm.refl _)
    exact hdropped last hmem ⟨z, hz, hagain⟩ ((hsame' last).mpr ((hsame last).mp hlast))
  · intro h entries' edges' hentries hedges
    have hkept := kept_iff hids h hentries
      (List.Subset.trans ownEdges_subset hedges.symm.subset) hedges.subset
    have hown := kept_iff hids h hentries (ownEdges_mono hedges.symm.subset)
      (List.Subset.trans ownEdges_subset hedges.subset)
    have hgiven := kept_iff hids h (List.Perm.refl _) ownEdges_subset (List.Subset.refl _)
    refine ⟨⟨fun x hx y hy hyields => ?_, fun x hx hnot => ?_⟩, ?_, fun x => ?_⟩
    · exact ((hkept x).mp hx).2 y ((hkept y).mp hy).1 (hyields.mono ownEdges_subset)
    · by_contra hnone
      refine hnot ((hkept x).mpr ⟨hx, fun y hy hyields => hnone ?_⟩)
      obtain ⟨last, hlast, hown, hfree⟩ := h x hx ⟨y, hy, hyields⟩
      exact ⟨last, (hkept last).mpr ⟨hlast, hfree⟩, hown⟩
    · exact filterConflicts_congr fun x _ => (hkept x).trans (hown x).symm
    · exact (hkept x).trans (hgiven x).symm

end Consistency

def conflictEdge (rowid : Nat) (ns source target : String) : EdgeRow :=
  ⟨rowid, ns, source, target, "conflicts_with", 1, by decide⟩

theorem suppressesConsistently_pair :
    SuppressesConsistently "a" [⟨"x", some 1⟩, ⟨"y", none⟩] [conflictEdge 0 "a" "x" "y"] :=
  (suppressesConsistently_iff "a" _ _ (by decide)).mpr (by
    unfold YieldsToLast YieldsTo
    decide +kernel)

/-- In a chain of three, the least important entry is kept or dropped by the order of the entries.
An edge of another namespace drops an entry as well. -/
theorem chain_inconsistent :
    ¬ SuppressesConsistently "a" [⟨"x", some (1 / 10)⟩, ⟨"y", some (2 / 10)⟩, ⟨"z", some (3 / 10)⟩]
      [conflictEdge 0 "a" "x" "y", conflictEdge 1 "a" "y" "z"] ∧
    ¬ SuppressesConsistently "a" [⟨"x", some (1 / 10)⟩, ⟨"y", some (2 / 10)⟩]
      [conflictEdge 0 "b" "x" "y"] := by
  constructor
  · intro h
    have hreversed := (h [⟨"z", some (3 / 10)⟩, ⟨"y", some (2 / 10)⟩, ⟨"x", some (1 / 10)⟩] _
      (by decide +kernel) (List.Perm.refl _)).2.2 ⟨"x", some (1 / 10)⟩
    exact absurd hreversed (by decide +kernel)
  · intro h
    exact absurd (h _ _ (List.Perm.refl _) (List.Perm.refl _)).2.1 (by decide +kernel)

end TrwMemory.Graph

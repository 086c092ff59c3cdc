import TrwMemory.Lifecycle.Checkout

/-!
The walk covers the state it is started in, by induction on the depth of the recursion: a
listing is complete when it returns, each round of a loop covers the paths through its entry,
and the states opened in a round lie above those that are still being expanded.
-/
namespace TrwMemory.Lifecycle.Verification

open Library Library.Glob Library.Program

section Listings

variable {clock : Clock}

theorem isLate_ensures (budget : Budget) :
    (isLate clock).Ensures budget fun isLate after =>
      isLate = decide (budget.deadline ≤ clock.now budget.readings) ∧
        after = { budget with readings := budget.readings + 1 } := by
  intro isLate after hrun
  cases hrun
  exact ⟨rfl, rfl⟩

/-- A listing that was cut short leaves a clock that is late. -/
theorem listed_ensures (names : List String) (budget : Budget) :
    (listed clock names).Ensures budget fun kept after =>
      after.deadline = budget.deadline ∧ after.work = budget.work ∧
        (kept = names ∨ budget.deadline ≤ clock.now after.readings) := by
  induction names generalizing budget with
  | nil => exact ensures_pure ⟨rfl, rfl, .inl rfl⟩
  | cons name names ih =>
      refine ensures_bind ((isLate_ensures budget).mono ?_)
      rintro isLate _ ⟨rfl, rfl⟩
      refine ensures_ite (fun hlate => ensures_pure ⟨rfl, rfl, .inr ?_⟩) fun _ => ?_
      · exact (of_decide_eq_true hlate).trans (clock.mono (Nat.le_succ _))
      · refine ensures_bind ((ih _).mono ?_)
        rintro rest after ⟨hdeadline, hwork, hrest⟩
        exact ensures_pure ⟨hdeadline, hwork, hrest.imp_left fun h => by rw [h]⟩

theorem isSpent_ensures (budget : Budget) :
    (isSpent clock).Ensures budget fun spent _ =>
      spent = false → 0 ≤ budget.work ∧ clock.now budget.readings < budget.deadline := by
  refine ensures_bind (ensures_read ?_)
  refine ensures_ite (fun _ => ensures_pure fun h => nomatch h) fun hwork => ?_
  refine (isLate_ensures budget).mono ?_
  rintro isLate _ ⟨rfl, -⟩ hlate
  exact ⟨Int.not_lt.mp hwork, Nat.lt_of_not_le (of_decide_eq_false hlate)⟩

variable {c : Checkout} {excludes : List String}

/-- A listing that returns is complete, or the directory is recorded as not enumerated. -/
theorem entriesOf_ensures (slash : Bool) (pre : RelPath) (strict : Bool) (s : WalkState) :
    (entriesOf clock c excludes pre strict).Ensures s fun names t =>
      Advances c excludes slash s t ∧ (t.found.Gap ∨
        ∀ name ∈ c.entries pre, isExcluded excludes name = false → name ∈ names) := by
  refine ensures_ite (fun _ => ?_) fun _ => ensures_ite (fun _ => ensures_fail _) fun _ => ?_
  · refine ensures_bind (ensures_read (ensures_bind (ensures_within ?_)))
    refine (listed_ensures _ s.budget).mono ?_
    rintro names after ⟨hdeadline, hwork, hnames⟩
    refine ensures_bind (ensures_update (ensures_bind (ensures_within ?_)))
    refine (isSpent_ensures _).mono fun spent left hspent => ?_
    refine ensures_ite (fun _ => ensures_fail _) fun hgo => ensures_pure ⟨.of_eq rfl rfl, .inr ?_⟩
    obtain ⟨hleft, hearly⟩ := hspent ((Bool.not_eq_true _).mp hgo)
    change 0 ≤ after.work - (1 + (names.length : Int)) at hleft
    change clock.now after.readings < after.deadline at hearly
    have hall : names = (c.entries pre).take s.budget.work.toNat :=
      hnames.resolve_right fun hlate => by omega
    have hlength : (c.entries pre).length ≤ s.budget.work.toNat := by
      rw [hall, List.length_take] at hleft
      omega
    rw [List.take_of_length_le hlength] at hall
    intro name hname hkept
    exact List.mem_filter.mpr ⟨hall ▸ hname, by rw [hkept, Bool.not_false]⟩
  · refine ensures_bind (ensures_update (ensures_pure ⟨⟨within_addIncomplete _ _, ?_⟩, .inl ?_⟩))
    · exact fun _ hother => .inl hother
    · exact gap_addIncomplete s pre

end Listings

section Entries

variable {c : Checkout} {excludes : List String} {slash : Bool}

/-- A component that is not `**` names an entry, or goes on below it. -/
theorem fits_plain {head name : String} {tail path rest : List String} (hhead : head ≠ "**")
    (h : Fits (head :: tail) (name :: path) rest) :
    fnmatch name head = true ∧ (path = [] ∧ rest = tail ∨ Fits tail path rest) := by
  cases h with
  | head _ hname => exact ⟨hname, .inl ⟨rfl, rfl⟩⟩
  | step _ hname hpath => exact ⟨hname, .inr hpath⟩
  | deeper | here | all => exact absurd rfl hhead

/-- A `**` goes on below an entry, or stands for no directory. -/
theorem fits_deep {tail path rest : List String} (h : Fits ("**" :: tail) path rest) :
    (∃ name below, path = name :: below ∧ Fits ("**" :: tail) below rest) ∨
      Fits (if tail = [] then ["*"] else tail) path rest := by
  cases h with
  | head hpart | step hpart => exact absurd rfl hpart
  | deeper hpath => exact .inl ⟨_, _, rfl, hpath⟩
  | here hpath =>
      rw [if_neg fun hnil => not_fits_nil (hnil ▸ hpath)]
      exact .inr hpath
  | all hpath => exact .inr hpath

theorem holds_entry {pre path : RelPath} {name : String}
    (h : c.Holds excludes pre (name :: path)) :
    name ∈ c.entries pre ∧ isExcluded excludes name = false := by
  cases h with
  | leaf hentry hkept => exact ⟨hentry, hkept⟩
  | inside hentry hkept => exact ⟨hentry, hkept⟩

theorem holds_below {pre path : RelPath} {name : String}
    (h : c.Holds excludes pre (name :: path)) (hpath : path ≠ []) :
    c.kind (pre ++ [name]) = .directory ∧ c.Holds excludes (pre ++ [name]) path := by
  cases h with
  | leaf => exact absurd rfl hpath
  | inside _ _ hkind hbelow => exact ⟨hkind, hbelow⟩

/-- What covers the directory at an entry covers the paths that stay below a `**`. -/
theorem Covers.below {found : WalkResult} {pre : RelPath} {parts : List String} {name : String}
    (h : Covers c excludes slash found (pre ++ [name], parts)) :
    CoversBelow c excludes slash found (pre, parts) name := by
  intro path rest hfits hholds
  have hbelow := (holds_below hholds (fits_path_ne_nil hfits)).2
  have hcovers := h path rest hfits hbelow
  rwa [List.append_assoc, List.singleton_append] at hcovers

variable {go : RelPath → Program WalkState Fault Unit}

theorem descend_ensures {pre : RelPath} {parts : List String} {name : String} {s : WalkState}
    (hgo : (go (pre ++ [name])).Ensures s fun _ t => Advances c excludes slash s t ∧
      Covers c excludes slash t.found (pre ++ [name], parts)) :
    (descend c go pre name).Ensures s fun _ t => Advances c excludes slash s t ∧
      CoversBelow c excludes slash t.found (pre, parts) name := by
  refine ensures_ite (fun _ => ensures_update ?_) fun _ => ?_
  · exact ⟨⟨within_addIncomplete _ _, fun _ h => .inl h⟩,
      fun _ _ _ _ => .inl (gap_addIncomplete _ _)⟩
  refine ensures_ite (fun hkind => ensures_pure ⟨.refl s, fun path rest hfits hholds => ?_⟩)
    fun _ => ?_
  · exact absurd (holds_below hholds (fits_path_ne_nil hfits)).1 hkind
  refine ensures_ite (fun _ => ensures_update ?_) fun _ => ?_
  · exact ⟨⟨within_addIncomplete _ _, fun _ h => .inl h⟩,
      fun _ _ _ _ => .inl (gap_addIncomplete _ _)⟩
  · exact hgo.mono fun _ _ h => ⟨h.1, h.2.below⟩

/-- On the way, an entry that is no symlink is covered by what covers the directory below. -/
theorem coversEntry_onward {found : WalkResult} {pre : RelPath} {head name : String}
    {tail : List String} (hhead : head ≠ "**") (htail : tail ≠ [])
    (hlink : c.kind (pre ++ [name]) ≠ .symlink)
    (hbelow : c.kind (pre ++ [name]) = .directory →
      Covers c excludes slash found (pre ++ [name], tail)) :
    CoversEntry c excludes slash found (pre, head :: tail) name := by
  intro path rest hfits hholds
  rcases (fits_plain hhead hfits).2 with ⟨rfl, rfl⟩ | hpath
  · obtain ⟨next, tail, rfl⟩ := List.exists_cons_of_ne_nil htail
    refine .inr ?_
    unfold WalkResult.Has
    split
    · exact absurd ‹_› hlink
    · exact nomatch ‹next :: tail = []›
    · exact nomatch ‹next :: tail = []›
    · exact nomatch ‹next :: tail = []›
    · trivial
  · have hdir := (holds_below hholds (fits_path_ne_nil hpath)).1
    exact (hbelow hdir).below path rest hpath hholds

/-- At the end of the pattern an entry is covered when the results hold it. -/
theorem coversEntry_last {found : WalkResult} {pre : RelPath} {head name : String}
    (hhead : head ≠ "**") (h : found.Has c slash (pre ++ [name]) []) :
    CoversEntry c excludes slash found (pre, [head]) name := by
  intro path rest hfits _
  rcases (fits_plain hhead hfits).2 with ⟨rfl, rfl⟩ | hpath
  · exact .inr h
  · exact absurd hpath not_fits_nil

theorem candidate_ensures {pre : RelPath} {head name : String} {tail : List String}
    {s : WalkState} (hhead : head ≠ "**")
    (hgo : tail ≠ [] → (go (pre ++ [name])).Ensures s fun _ t =>
      Advances c excludes slash s t ∧ Covers c excludes slash t.found (pre ++ [name], tail)) :
    (candidate c slash go head tail pre name).Ensures s fun _ t =>
      Advances c excludes slash s t ∧
        CoversEntry c excludes slash t.found (pre, head :: tail) name := by
  refine ensures_ite (fun hname => ensures_pure ⟨.refl s, fun path rest hfits _ => ?_⟩)
    fun _ => ?_
  · exact absurd ((fits_plain hhead hfits).1.symm.trans hname) (by decide)
  refine ensures_ite (fun _ => ensures_update ?_) fun _ => ?_
  · exact ⟨⟨within_addIncomplete _ _, fun _ h => .inl h⟩,
      fun _ _ _ _ => .inl (gap_addIncomplete _ _)⟩
  refine ensures_ite (fun _ => ensures_update ?_) fun hlink => ?_
  · exact ⟨⟨within_addRefused _ _, fun _ h => .inl h⟩, fun _ _ _ _ => .inl (gap_addRefused _ _)⟩
  refine ensures_ite (fun htail => ?_) fun htail => ?_
  · refine ensures_ite (fun hkind => ensures_pure ⟨.refl s, ?_⟩) fun _ => ?_
    · exact coversEntry_onward hhead htail hlink fun hdir => absurd hdir hkind
    refine ensures_ite (fun _ => ensures_update ?_) fun _ => ?_
    · exact ⟨⟨within_addRefused _ _, fun _ h => .inl h⟩,
        fun _ _ _ _ => .inl (gap_addRefused _ _)⟩
    · exact (hgo htail).mono fun _ _ h =>
        ⟨h.1, coversEntry_onward hhead htail hlink fun _ => h.2⟩
  obtain rfl := not_not.mp htail
  refine ensures_ite (fun hfile => ensures_update ?_) fun hfile => ?_
  · refine ⟨⟨within_addFile _ _, fun _ h => .inl h⟩, coversEntry_last hhead ?_⟩
    simp [WalkResult.Has, hfile.1, WalkState.addFile]
  refine ensures_ite (fun hglob => ensures_update ?_) fun hglob => ?_
  · refine ⟨⟨within_addGlobOnly _ _, fun _ h => .inl h⟩, coversEntry_last hhead ?_⟩
    cases hkind : c.kind (pre ++ [name]) <;>
      simp_all [WalkResult.Has, WalkState.addGlobOnly]
  · refine ensures_pure ⟨.refl s, coversEntry_last hhead ?_⟩
    cases hkind : c.kind (pre ++ [name]) <;> simp_all [WalkResult.Has]

end Entries

section Walk

variable {clock : Clock} {c : Checkout} {excludes : List String} {slash : Bool}

theorem key_lt_below (pre : RelPath) (name : String) (parts parts' : List String) :
    key (pre, parts) < key (pre ++ [name], parts') := by
  simp only [key, List.length_append, List.length_singleton]
  split <;> split <;> omega

/-- One round for every entry covers the directory, up to what is recorded as missing. -/
theorem each_ensures {body : String → Program WalkState Fault Unit} {names : List String}
    {s : WalkState} (entry : WalkResult → String → Prop)
    (hmono : ∀ found later name, entry found name → found.Within later → entry later name)
    (hbody : ∀ name t, Advances c excludes slash s t →
      (body name).Ensures t fun _ u => Advances c excludes slash t u ∧ entry u.found name) :
    (each body names).Ensures s fun _ t =>
      Advances c excludes slash s t ∧ ∀ name ∈ names, entry t.found name := by
  refine ensures_each
    (fun done t => Advances c excludes slash s t ∧ ∀ name ∈ done, entry t.found name)
    (fun done name rest _ t ht => ?_) ⟨.refl s, fun _ h => nomatch h⟩
  refine (hbody name t ht.1).mono fun _ u hu => ⟨ht.1.trans hu.1, fun other hother => ?_⟩
  rcases List.mem_append.mp hother with hdone | hnew
  · exact hmono _ _ other (ht.2 other hdone) hu.1.found
  · exact List.mem_singleton.mp hnew ▸ hu.2

/-- A directory is covered when its entries are, or when the results have a gap. -/
theorem covers_of_entries (names : List String) {found : WalkResult} {pre : RelPath}
    {parts : List String}
    (hnames : found.Gap ∨
      ∀ name ∈ c.entries pre, isExcluded excludes name = false → name ∈ names)
    (hentries : ∀ name ∈ names, CoversEntry c excludes slash found (pre, parts) name) :
    Covers c excludes slash found (pre, parts) := by
  intro path rest hfits hholds
  rcases hnames with hgap | hnames
  · exact .inl hgap
  · obtain ⟨name, path, rfl⟩ := List.exists_cons_of_ne_nil (fits_path_ne_nil hfits)
    obtain ⟨hentry, hkept⟩ := holds_entry hholds
    exact hentries name (hnames name hentry hkept) path rest hfits hholds

/-- Below a `**`: what the rest of the pattern names here, and what it names further down. -/
theorem covers_of_below (names : List String) {found : WalkResult} {pre : RelPath}
    {tail : List String}
    (hhere : Covers c excludes slash found (pre, if tail = [] then ["*"] else tail))
    (hnames : found.Gap ∨
      ∀ name ∈ c.entries pre, isExcluded excludes name = false → name ∈ names)
    (hentries : ∀ name ∈ names, CoversBelow c excludes slash found (pre, "**" :: tail) name) :
    Covers c excludes slash found (pre, "**" :: tail) := by
  intro path rest hfits hholds
  rcases fits_deep hfits with ⟨name, below, rfl, hbelow⟩ | hhere'
  · rcases hnames with hgap | hnames
    · exact .inl hgap
    · obtain ⟨hentry, hkept⟩ := holds_entry hholds
      exact hentries name (hnames name hentry hkept) below rest hbelow hholds
  · exact hhere path rest hhere' hholds

/-- What a call of the walk ensures. -/
def WalkEnsures (c : Checkout) (excludes : List String) (slash : Bool)
    (go : RelPath → List String → Bool → Program WalkState Fault Unit) : Prop :=
  ∀ pre parts strict s, Collapsed parts → Ready c excludes slash s (pre, parts) →
    (go pre parts strict).Ensures s fun _ t =>
      Advances c excludes slash s t ∧ Covers c excludes slash t.found (pre, parts)

variable {go : RelPath → List String → Bool → Program WalkState Fault Unit}

theorem expand_ensures (hgo : WalkEnsures c excludes slash go) {pre : RelPath}
    {parts : List String} {strict : Bool} {s : WalkState} (hparts : Collapsed parts)
    (hready : Ready c excludes slash s (pre, parts)) :
    (expand clock c excludes slash go pre strict parts).Ensures (s.visit (pre, parts))
      fun _ t => Advances c excludes slash (s.visit (pre, parts)) t ∧
        Covers c excludes slash t.found (pre, parts) := by
  cases parts with
  | nil => exact ensures_fail _
  | cons head tail =>
      refine ensures_ite (fun hhead => ?_) fun hhead => ?_
      · subst hhead
        have hcollapsed : Collapsed (if tail = [] then ["*"] else tail) := by
          split
          · exact .singleton _
          · exact hparts.of_cons
        have hkey : key (pre, "**" :: tail) < key (pre, if tail = [] then ["*"] else tail) := by
          cases tail with
          | nil => simp [key]
          | cons next tail =>
              have hnext : next ≠ "**" := fun h => (List.isChain_cons_cons.mp hparts).1 ⟨rfl, h⟩
              simp [key, hnext]
        have hinner := hready.inner (Advances.refl _) hkey
        refine ensures_bind ((hgo pre _ strict _ hcollapsed hinner).mono ?_)
        rintro _ t ⟨ht, hhere⟩
        refine ensures_bind ((entriesOf_ensures slash pre strict t).mono ?_)
        rintro names u ⟨hu, hnames⟩
        refine (each_ensures
          (fun found => CoversBelow c excludes slash found (pre, "**" :: tail))
          (fun _ _ _ h hin => h.mono hin) fun name v hv => descend_ensures ?_).mono ?_
        · exact hgo _ _ false v hparts
            (hready.inner (ht.trans (hu.trans hv)) (key_lt_below pre name _ _))
        · rintro _ v ⟨hv, hentries⟩
          refine ⟨ht.trans (hu.trans hv), covers_of_below names ?_ ?_ hentries⟩
          · exact hhere.mono (hu.found.trans hv.found)
          · exact hnames.imp_left (·.mono hv.found)
      · refine ensures_bind ((entriesOf_ensures slash pre strict _).mono ?_)
        rintro names u ⟨hu, hnames⟩
        refine (each_ensures
          (fun found => CoversEntry c excludes slash found (pre, head :: tail))
          (fun _ _ _ h hin => h.mono hin) fun name v hv =>
            candidate_ensures hhead fun _ => ?_).mono ?_
        · exact hgo _ _ false v hparts.of_cons
            (hready.inner (hu.trans hv) (key_lt_below pre name _ _))
        · rintro _ v ⟨hv, hentries⟩
          exact ⟨hu.trans hv,
            covers_of_entries names (hnames.imp_left (·.mono hv.found)) hentries⟩

theorem walk_ensures (depth : Nat) :
    WalkEnsures c excludes slash (walk clock c excludes slash depth) := by
  induction depth with
  | zero => exact fun _ _ _ _ _ _ => ensures_fail _
  | succ depth ih =>
      intro pre parts strict s hparts hready
      refine ensures_bind (ensures_read (ensures_ite (fun hseen => ensures_pure ?_) fun _ => ?_))
      · exact ⟨.refl s, hready _ hseen le_rfl⟩
      · refine ensures_bind (ensures_update ?_)
        exact (expand_ensures ih hparts hready).mono fun _ t ht => ⟨ht.1.of_visit ht.2, ht.2⟩

end Walk

section Root

variable {clock : Clock} {c : Checkout} {excludes : List String}

theorem eraseDups_ne_nil {paths : List RelPath} (h : paths ≠ []) : paths.eraseDups ≠ [] := by
  cases paths with
  | nil => exact absurd rfl h
  | cons path paths =>
      rw [List.eraseDups_cons]
      exact List.cons_ne_nil _ _

theorem Covers.distinct {slash : Bool} {found : WalkResult} {state : RelPath × List String}
    (h : Covers c excludes slash found state) : Covers c excludes slash found.distinct state :=
  fun path rest hfits hholds =>
    (h path rest hfits hholds).imp_left (·.imp eraseDups_ne_nil eraseDups_ne_nil)

theorem ready_start (slash : Bool) (budget : Budget) (state : RelPath × List String) :
    Ready c excludes slash ⟨[], ⟨[], [], [], []⟩, budget⟩ state := fun _ hother => nomatch hother

theorem walkRoot_ensures (depth : Nat) (target : String) (budget : Budget) :
    (walkRoot clock c excludes depth target).Ensures ⟨[], ⟨[], [], [], []⟩, budget⟩
      fun _ t => Covers c excludes (directoriesOnly target) t.found
        ([], collapse (targetParts target)) := by
  refine ensures_bind ((walk_ensures depth [] _ true _ (collapse_collapsed _)
    (ready_start _ budget _)).mono ?_)
  rintro _ t ⟨-, hcovers⟩
  refine ensures_bind (ensures_within ((isLate_ensures t.budget).mono fun late after _ => ?_))
  exact ensures_ite (fun _ => ensures_fail _) fun _ => ensures_pure hcovers

/-- A walk that returns results has covered the target. -/
theorem walkCheckout_ensures (depth : Nat) (target : String) (budget : Budget) :
    (walkCheckout clock c excludes depth target).Ensures budget fun walked _ =>
      ∀ found, walked = some found → Covers c excludes (directoriesOnly target) found
        ([], collapse (targetParts target)) := by
  intro walked after hrun found hfound
  simp only [Program.run, walkCheckout] at hrun
  split at hrun
  · cases hrun
    cases hfound
  · split at hrun
    · cases hrun
      cases hfound
      exact (walkRoot_ensures depth target budget () _ ‹_›).distinct
    · cases hrun
    · cases hrun
      cases hfound

/-- Covered paths in terms of the target as it is written: what it names is among the results
as what it is, or something was refused or could not be enumerated. -/
theorem Covers.of_target {found : WalkResult} {target : String}
    (h : Covers c excludes (directoriesOnly target) found ([], collapse (targetParts target)))
    {path rest : List String} (hfits : Fits (targetParts target) path rest)
    (hholds : c.Holds excludes [] path) :
    found.Gap ∨ found.Has c (directoriesOnly target) path (collapse rest) :=
  h path _ (fits_collapse hfits) hholds

end Root

end TrwMemory.Lifecycle.Verification

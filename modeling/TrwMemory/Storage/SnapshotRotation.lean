import Mathlib.Data.List.Perm.Subperm
import TrwMemory.Storage.Snapshots

/-!
What a snapshot and the rotation after it keep: of every tier the files of the latest names, which
are those of the latest days where the names encode days. The snapshot just taken goes only if the
tier has as many files of later names as it may keep.
-/
namespace TrwMemory.Storage

open Library Library.Civil Library.IsoText

variable {u : UnicodeDigits}

/-- A name in ASCII that encodes a day. -/
def Encodes (u : UnicodeDigits) (name : String) (date : Nat) : Prop :=
  (∀ c ∈ name.toList, c.toNat < 128) ∧ parseSnapshotDate u name = some date

/-- Of two names of a tier, the later encodes the later day. -/
theorem Encodes.lt_iff {tier : Tier} {name name' : String} {date date' : Nat}
    (h : Encodes u name date) (h' : Encodes u name' date')
    (hmatch : fullmatch u tier name = true) (hmatch' : fullmatch u tier name' = true) :
    name < name' ↔ date < date' := by
  obtain ⟨hdate, hname⟩ := eq_snapshotName hmatch h.1 h.2
  obtain ⟨hdate', hname'⟩ := eq_snapshotName hmatch' h'.1 h'.2
  rw [hname, hname', snapshotName_lt_iff hdate hdate']

/-- After a rotation, a tier has its latest files, `keep` of them if there are so many. -/
structure Rotated (u : UnicodeDigits) (tier : Tier) (keep : Nat) (before after : Listing) :
    Prop where
  others : ∀ name, fullmatch u tier name = false → (name ∈ after.names ↔ name ∈ before.names)
  subset : ∀ name ∈ after.names, name ∈ before.names
  count : (after.names.filter (fullmatch u tier)).length =
    min keep (before.names.filter (fullmatch u tier)).length
  latest : ∀ kept ∈ after.names, fullmatch u tier kept = true →
    ∀ gone ∈ before.names, gone ∉ after.names →
      gone < kept ∧ ∀ date date', Encodes u gone date → Encodes u kept date' → date < date'

section Tier

variable {tier : Tier}

theorem filter_not_mem_take {files : List String} (h : files.Nodup) (n : Nat) :
    files.filter (fun name => !(files.take n).contains name) = files.drop n := by
  have hsplit := List.take_append_drop n files
  have hdisjoint := (List.nodup_append.mp (hsplit.symm ▸ h)).2.2
  have happend : files.filter (fun name => !(files.take n).contains name) =
      (files.take n).filter (fun name => !(files.take n).contains name) ++
        (files.drop n).filter (fun name => !(files.take n).contains name) := by
    rw [← List.filter_append, hsplit]
  have hgone : (files.take n).filter (fun name => !(files.take n).contains name) = [] :=
    List.filter_eq_nil_iff.mpr fun name hname => by simp [hname]
  have hkept : (files.drop n).filter (fun name => !(files.take n).contains name) =
      files.drop n := by
    refine List.filter_eq_self.mpr fun name hname => ?_
    rw [Bool.not_eq_true', List.contains_eq_mem, decide_eq_false_iff_not]
    exact fun hfront => hdisjoint name hfront name hname rfl
  rw [happend, hgone, hkept, List.nil_append]

/-- Pruning keeps the latest files. -/
theorem pruneTier_rotated (dir : Listing) (keep : Nat) :
    Rotated u tier keep dir (pruneTier u tier dir keep).2 := by
  have hperm : (sortedParseable u tier dir false).Perm (dir.names.filter (fullmatch u tier)) :=
    sortBy_perm id _
  have hsorted : (sortedParseable u tier dir false).Pairwise (· ≤ ·) := sortBy_sorted id _
  have hnodup : (sortedParseable u tier dir false).Nodup :=
    hperm.nodup_iff.mpr (dir.nodup.filter _)
  have hfiles : ∀ name, name ∈ sortedParseable u tier dir false ↔
      name ∈ dir.names ∧ fullmatch u tier name = true :=
    fun name => hperm.mem_iff.trans List.mem_filter
  rw [pruneTier]
  generalize sortedParseable u tier dir false = files at hperm hsorted hnodup hfiles
  dsimp only
  split
  · rename_i hfew
    rw [hperm.length_eq] at hfew
    exact ⟨fun _ _ => Iff.rfl, fun _ hname => hname, (Nat.min_eq_right hfew).symm,
      fun _ _ _ _ hgone hnot => absurd hgone hnot⟩
  · rename_i hmany
    have hafter : ∀ name, name ∈ (dir.unlink (files.take (files.length - keep))).names ↔
        name ∈ dir.names ∧ name ∉ files.take (files.length - keep) := by
      intro name
      rw [Listing.unlink, List.mem_filter, Bool.not_eq_true', List.contains_eq_mem,
        decide_eq_false_iff_not]
    refine ⟨fun name hother => ?_, fun name hname => ((hafter name).mp hname).1, ?_, ?_⟩
    · refine (hafter name).trans (and_iff_left fun hvictim => ?_)
      rw [((hfiles name).mp (List.mem_of_mem_take hvictim)).2] at hother
      cases hother
    · have hkept : ((dir.unlink (files.take (files.length - keep))).names.filter
          (fullmatch u tier)).Perm (files.drop (files.length - keep)) := by
        rw [Listing.unlink, List.filter_comm, ← filter_not_mem_take hnodup]
        exact (hperm.filter _).symm
      rw [hkept.length_eq, List.length_drop, ← hperm.length_eq]
      omega
    · intro kept hkept hmatch gone hgone hnot
      obtain ⟨hmem, hlast⟩ := (hafter kept).mp hkept
      have hvictim : gone ∈ files.take (files.length - keep) :=
        by_contra fun hnotVictim => hnot ((hafter gone).mpr ⟨hgone, hnotVictim⟩)
      have hdrop : kept ∈ files.drop (files.length - keep) := by
        have hin := (hfiles kept).mpr ⟨hmem, hmatch⟩
        rw [← List.take_append_drop (files.length - keep) files, List.mem_append] at hin
        exact hin.resolve_left hlast
      have hle : gone ≤ kept := by
        rw [← List.take_append_drop (files.length - keep) files] at hsorted
        exact (List.pairwise_append.mp hsorted).2.2 gone hvictim kept hdrop
      have hlt : gone < kept := lt_of_le_of_ne hle fun heq => hlast (heq ▸ hvictim)
      have hgoneMatch := ((hfiles gone).mp (List.mem_of_mem_take hvictim)).2
      exact ⟨hlt, fun date date' hdate hdate' =>
        (hdate.lt_iff hdate' hgoneMatch hmatch).mp hlt⟩

end Tier

/-- A call of `take_daily_snapshot` or `take_weekly_snapshot`. -/
structure SnapshotCall where
  tier : Tier
  now : Day
  keep : Nat
  force : Bool

namespace SnapshotCall

variable (call : SnapshotCall)

/-- Whether a snapshot is taken. -/
def takes : Bool := call.tier == .daily || call.force || call.now.isSunday

def name : String := snapshotName call.tier call.now.days

/-- The day that the name stands for. -/
def day : Nat :=
  match call.tier with
  | .daily => call.now.days
  | .weekly => call.now.days - call.now.days % 7 + 6

theorem hasName (h : call.day < 3652059) : HasName call.tier call.day := by
  refine ⟨h, fun htier => ?_⟩
  rw [day, htier]
  dsimp only
  omega

theorem name_eq : call.name = snapshotName call.tier call.day := by
  rw [name, day]
  split
  · rfl
  · rename_i htier
    rw [htier, snapshotName_sunday]

theorem fullmatch_name : fullmatch u call.tier call.name = true := fullmatch_snapshotName

theorem encodes_name (h : call.day < 3652059) : Encodes u call.name call.day := by
  rw [name_eq]
  exact ⟨ascii_snapshotName, parse_snapshotName (call.hasName h)⟩

end SnapshotCall

variable (u) in
/-- What a call leaves. -/
def takeSnapshot (dirs : SnapshotDirs) (call : SnapshotCall) : SnapshotDirs :=
  match call.tier with
  | .daily => (takeDailySnapshot u dirs call.keep call.now).2
  | .weekly => (takeWeeklySnapshot u dirs call.keep call.now call.force).2

/-- A rotation of one tier leaves the other. -/
theorem rotateSnapshots_daily (dirs : SnapshotDirs) (keep : Nat) :
    (rotateSnapshots u dirs keep (-1)).2 =
      Function.update dirs .daily (pruneTier u .daily (dirs .daily) keep).2 := by
  funext tier
  rw [rotateSnapshots, if_pos (Int.natCast_nonneg keep), if_neg (by decide), Int.toNat_natCast]
  cases tier <;> rfl

theorem rotateSnapshots_weekly (dirs : SnapshotDirs) (keep : Nat) :
    (rotateSnapshots u dirs (-1) keep).2 =
      Function.update dirs .weekly (pruneTier u .weekly (dirs .weekly) keep).2 := by
  funext tier
  rw [rotateSnapshots, if_neg (by decide), if_pos (Int.natCast_nonneg keep), Int.toNat_natCast]
  cases tier <;> rfl

/-- A call creates a file in its tier and prunes this tier, or does nothing. -/
theorem takeSnapshot_eq (dirs : SnapshotDirs) (call : SnapshotCall) :
    takeSnapshot u dirs call = if call.takes then
      Function.update dirs call.tier
        (pruneTier u call.tier ((dirs call.tier).create call.name) call.keep).2
    else dirs := by
  obtain ⟨tier, now, keep, force⟩ := call
  cases tier with
  | daily =>
      have htakes : SnapshotCall.takes ⟨.daily, now, keep, force⟩ = true := rfl
      rw [htakes, if_pos rfl]
      change (rotateSnapshots u _ keep (-1)).2 = _
      rw [rotateSnapshots_daily, Function.update_idem, Function.update_self]
      rfl
  | weekly =>
      have htakes : SnapshotCall.takes ⟨.weekly, now, keep, force⟩ = (force || now.isSunday) := rfl
      rw [htakes]
      change (takeWeeklySnapshot u dirs keep now force).2 = _
      rw [takeWeeklySnapshot, ← Bool.not_or]
      cases force || now.isSunday with
      | false => rfl
      | true =>
          change (rotateSnapshots u _ (-1) keep).2 = _
          rw [rotateSnapshots_weekly, Function.update_idem, Function.update_self]
          rfl

theorem mem_create {dir : Listing} {name name' : String} :
    name' ∈ (dir.create name).names ↔ name' = name ∨ name' ∈ dir.names := by
  rw [Listing.create]
  dsimp only
  split
  · rename_i hmem
    exact ⟨.inr, fun h => h.elim (fun heq => heq ▸ hmem) id⟩
  · rw [List.mem_append, List.mem_singleton]
    exact or_comm

/-- The files of a tier with a later name. -/
def laterFiles (u : UnicodeDigits) (tier : Tier) (dir : Listing) (name : String) : List String :=
  dir.names.filter fun other => fullmatch u tier other && decide (name < other)

theorem mem_laterFiles {tier : Tier} {dir : Listing} {name other : String} :
    other ∈ laterFiles u tier dir name ↔
      other ∈ dir.names ∧ fullmatch u tier other = true ∧ name < other := by
  rw [laterFiles, List.mem_filter, Bool.and_eq_true, decide_eq_true_iff]

/-- What one call does to the directories. -/
structure CallRotates (u : UnicodeDigits) (call : SnapshotCall) (before after : SnapshotDirs) :
    Prop where
  rotated : call.takes = true → Rotated u call.tier call.keep
    ((before call.tier).create call.name) (after call.tier)
  untouched : ∀ tier, (call.takes = false ∨ tier ≠ call.tier) → after tier = before tier
  taken : call.takes = true → (call.name ∈ (after call.tier).names ↔
    (laterFiles u call.tier (before call.tier) call.name).length < call.keep)
  later : call.day < 3652059 → ∀ name ∈ (before call.tier).names,
    fullmatch u call.tier name = true → ∀ date, Encodes u name date →
      (call.name < name ↔ call.day < date)

section Call

variable {dirs : SnapshotDirs} {call : SnapshotCall}

theorem takeSnapshot_self (htakes : call.takes = true) :
    takeSnapshot u dirs call call.tier =
      (pruneTier u call.tier ((dirs call.tier).create call.name) call.keep).2 := by
  rw [takeSnapshot_eq, if_pos htakes, Function.update_self]

theorem takeSnapshot_other {tier : Tier} (h : call.takes = false ∨ tier ≠ call.tier) :
    takeSnapshot u dirs call tier = dirs tier := by
  rw [takeSnapshot_eq]
  split
  · rename_i htakes
    rcases h with hidle | hne
    · rw [hidle] at htakes
      cases htakes
    · exact Function.update_of_ne hne _ _
  · rfl

theorem rotated_takeSnapshot (htakes : call.takes = true) : Rotated u call.tier call.keep
    ((dirs call.tier).create call.name) (takeSnapshot u dirs call call.tier) := by
  rw [takeSnapshot_self htakes]
  exact pruneTier_rotated _ call.keep

/-- The snapshot just taken stays if fewer files than are kept have later names. -/
theorem taken_iff (htakes : call.takes = true) :
    call.name ∈ (takeSnapshot u dirs call call.tier).names ↔
      (laterFiles u call.tier (dirs call.tier) call.name).length < call.keep := by
  have hrotated := @rotated_takeSnapshot u dirs call htakes
  have hmatch := @SnapshotCall.fullmatch_name u call
  have hself : call.name ∈ ((dirs call.tier).create call.name).names := mem_create.mpr (.inl rfl)
  generalize takeSnapshot u dirs call call.tier = after at hrotated ⊢
  have hlaterNodup : (laterFiles u call.tier (dirs call.tier) call.name).Nodup :=
    (dirs call.tier).nodup.filter _
  constructor
  · intro hkept
    -- every later file is kept, and so is the one just taken
    have hsubset : call.name :: laterFiles u call.tier (dirs call.tier) call.name ⊆
        after.names.filter (fullmatch u call.tier) := by
      intro name hname
      rcases List.mem_cons.mp hname with rfl | hname
      · exact List.mem_filter.mpr ⟨hkept, hmatch⟩
      · obtain ⟨hmem, hmatch', hlt⟩ := mem_laterFiles.mp hname
        refine List.mem_filter.mpr ⟨by_contra fun hgone => ?_, hmatch'⟩
        have hback := (hrotated.latest call.name hkept hmatch name (mem_create.mpr (.inr hmem))
          hgone).1
        exact lt_asymm hlt hback
    have hnew : call.name ∉ laterFiles u call.tier (dirs call.tier) call.name :=
      fun hname => lt_irrefl _ (mem_laterFiles.mp hname).2.2
    have hlength :=
      (List.subperm_of_subset (List.nodup_cons.mpr ⟨hnew, hlaterNodup⟩) hsubset).length_le
    rw [hrotated.count, List.length_cons] at hlength
    omega
  · intro hfew
    by_contra hgone
    -- otherwise only later files are kept
    have hsubset : after.names.filter (fullmatch u call.tier) ⊆
        laterFiles u call.tier (dirs call.tier) call.name := by
      intro name hname
      obtain ⟨hkept, hmatch'⟩ := List.mem_filter.mp hname
      have hne : name ≠ call.name := fun heq => hgone (heq ▸ hkept)
      have hmem := mem_create.mp (hrotated.subset name hkept)
      exact mem_laterFiles.mpr ⟨hmem.resolve_left hne, hmatch',
        (hrotated.latest name hkept hmatch' call.name hself hgone).1⟩
    have hcount := (List.subperm_of_subset (after.nodup.filter _) hsubset).length_le
    rw [hrotated.count] at hcount
    -- so nothing was pruned
    have hall : (((dirs call.tier).create call.name).names.filter
        (fullmatch u call.tier)).length ≤ (after.names.filter (fullmatch u call.tier)).length := by
      rw [hrotated.count]
      omega
    have hsame := List.subperm_of_subset (after.nodup.filter (fullmatch u call.tier))
      (fun name hname => List.mem_filter.mpr
        ⟨hrotated.subset name (List.mem_filter.mp hname).1, (List.mem_filter.mp hname).2⟩ :
        after.names.filter (fullmatch u call.tier) ⊆
          ((dirs call.tier).create call.name).names.filter (fullmatch u call.tier))
    have hperm := hsame.perm_of_length_le hall
    exact hgone (List.mem_filter.mp
      (hperm.mem_iff.mpr (List.mem_filter.mpr ⟨hself, hmatch⟩))).1

theorem callRotates (dirs : SnapshotDirs) (call : SnapshotCall) :
    CallRotates u call dirs (takeSnapshot u dirs call) where
  rotated := rotated_takeSnapshot
  untouched _ h := takeSnapshot_other h
  taken := taken_iff
  later hday _ _ hmatch _ hdate :=
    (call.encodes_name hday).lt_iff hdate call.fullmatch_name hmatch

end Call

end TrwMemory.Storage

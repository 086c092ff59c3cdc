import TrwMemory.Storage.CorruptBackups
import TrwMemory.Storage.SnapshotRuns

/-!
What a rotation of a corrupt store and the pruning after it keep (`storage/_corrupt_backup.py`).
Pruning tells age by the second in a name and by where a name is listed, and files of before
timestamps use up the budget. So the backup from which rows are about to be salvaged stays exactly
if the budget reaches it over these files, the backups of later seconds and those of its own
second that are listed later.
-/
namespace TrwMemory.Storage

open Library Library.IsoText

variable {u : UnicodeDigits}

variable (u) in
/-- How many backups pruning holds for newer: those of a later second, and those of the same second
that are listed later. -/
def newerThan (listing : List FileName) (name : FileName) : Nat :=
  (timestamped u listing).countP (fun other => stampOf u name < stampOf u other) +
    (((timestamped u listing).dropWhile (· ≠ name)).tail).countP fun other =>
      stampOf u other = stampOf u name

section Prune

variable {listing : List FileName} {keep : Nat} {name : FileName}

theorem mem_timestamped : name ∈ timestamped u listing ↔
    name ∈ listing ∧ isTimestamped u name = true := by
  rw [timestamped, List.mem_filter, Bool.and_eq_true, Bool.not_eq_true']
  refine and_congr_right fun _ => and_iff_right_of_imp fun htimed => ?_
  by_contra hlegacy
  rw [not_timestamped_of_legacy (Bool.not_eq_false _ ▸ hlegacy)] at htimed
  cases htimed

/-- The victims are the backups to which the budget does not reach. -/
theorem mem_pruneVictims (hlisting : listing.Nodup) : name ∈ pruneVictims u listing keep ↔
    name ∈ timestamped u listing ∧ keep ≤ newerThan u listing name + legacyCount listing := by
  have hperm := sortBy_perm (stampOf u) (timestamped u listing)
  have htimed : (timestamped u listing).Nodup := hlisting.filter _
  by_cases hmem : name ∈ timestamped u listing
  · obtain ⟨before, after, hsplit⟩ := List.append_of_mem (hperm.mem_iff.mpr hmem)
    have hbefore : name ∉ before := fun hname =>
      (List.nodup_append.mp (hsplit ▸ hperm.nodup_iff.mpr htimed)).2.2 name hname name
        List.mem_cons_self rfl
    have hafter : after.length = newerThan u listing name := by
      rw [newerThan]
      convert length_after_sortBy htimed hsplit
    have hlength := hperm.length_eq
    rw [hsplit, List.length_append, List.length_cons] at hlength
    rw [pruneVictims, List.mem_take_iff_idxOf_lt (hperm.mem_iff.mpr hmem), hsplit,
      List.idxOf_append_of_notMem hbefore, List.idxOf_cons_self, and_iff_right hmem]
    omega
  · exact iff_of_false (fun hname => hmem (hperm.mem_iff.mp (List.mem_of_mem_take hname)))
      fun hname => hmem hname.1

theorem timestamped_of_victim (h : name ∈ pruneVictims u listing keep) :
    name ∈ listing ∧ isTimestamped u name = true :=
  mem_timestamped.mp (mem_sortBy.mp (List.mem_of_mem_take h))

theorem mem_prune : name ∈ pruneCorruptBackups u listing keep ↔
    name ∈ listing ∧ ∀ victim ∈ pruneVictims u listing keep, name ∉ deletedWith victim := by
  rw [pruneCorruptBackups, List.mem_filter, Bool.not_eq_true', List.contains_eq_mem,
    decide_eq_false_iff_not, List.mem_flatMap]
  simp

theorem mem_deletedWith {victim : FileName} : name ∈ deletedWith victim ↔
    name = victim ∨ ∃ suffix ∈ SIDECAR_SUFFIXES ++ [LOCK_SUFFIX], name = victim ++ suffix := by
  rw [deletedWith, List.mem_cons, List.mem_map]
  exact or_congr_right (exists_congr fun suffix => and_congr_right fun _ => eq_comm)

/-- A backup goes only as a victim. -/
theorem mem_prune_backup (htimed : isTimestamped u name = true) :
    name ∈ pruneCorruptBackups u listing keep ↔
      name ∈ listing ∧ name ∉ pruneVictims u listing keep := by
  refine mem_prune.trans (and_congr_right fun _ => ?_)
  refine ⟨fun h hvictim => h name hvictim List.mem_cons_self, fun h victim hvictim hmem => ?_⟩
  rcases mem_deletedWith.mp hmem with rfl | ⟨suffix, hsuffix, rfl⟩
  · exact h hvictim
  · exact not_bak_suffix_companion hsuffix (bak_suffix htimed)

/-- A sidecar goes only with its backup. -/
theorem mem_prune_sidecar {suffix : FileName} (hsuffix : suffix ∈ SIDECAR_SUFFIXES) :
    name ++ suffix ∈ pruneCorruptBackups u listing keep ↔
      name ++ suffix ∈ listing ∧ name ∉ pruneVictims u listing keep := by
  have hcompanion := List.mem_append_left [LOCK_SUFFIX] hsuffix
  refine mem_prune.trans (and_congr_right fun _ => ?_)
  refine ⟨fun h hvictim => h name hvictim (mem_deletedWith.mpr (.inr ⟨suffix, hcompanion, rfl⟩)),
    fun h victim hvictim hmem => ?_⟩
  rcases mem_deletedWith.mp hmem with rfl | ⟨suffix', hsuffix', heq⟩
  · exact not_bak_suffix_companion hcompanion (bak_suffix (timestamped_of_victim hvictim).2)
  · exact h ((companion_inj hcompanion hsuffix' heq).1 ▸ hvictim)

theorem mem_prune_legacy (hlegacy : isLegacy name = true) (h : name ∈ listing) :
    name ∈ pruneCorruptBackups u listing keep := by
  have hshape : ∀ legacy ∈ LEGACY_CORRUPT_NAMES, ∀ suffix ∈ SIDECAR_SUFFIXES ++ [LOCK_SUFFIX],
      ¬ suffix <:+ legacy := by decide +kernel
  refine mem_prune.mpr ⟨h, fun victim hvictim hmem => ?_⟩
  rcases mem_deletedWith.mp hmem with rfl | ⟨suffix, hsuffix, rfl⟩
  · have htimed := (timestamped_of_victim hvictim).2
    rw [not_timestamped_of_legacy hlegacy] at htimed
    cases htimed
  · exact hshape _ (List.contains_iff_mem.mp hlegacy) suffix hsuffix
      (List.suffix_append victim suffix)

/-- No victim is of a later second than a backup that stays. -/
theorem stampOf_victim_le {other : FileName} (hvictim : name ∈ pruneVictims u listing keep)
    (hother : other ∈ timestamped u listing) (hstays : other ∉ pruneVictims u listing keep) :
    stampOf u name ≤ stampOf u other := by
  have hsorted := sortBy_sorted (stampOf u) (timestamped u listing)
  have hmem := (sortBy_perm (stampOf u) (timestamped u listing)).mem_iff.mpr hother
  rw [pruneVictims] at hvictim hstays
  rw [← List.take_append_drop ((timestamped u listing).length + legacyCount listing - keep)
    (sortBy (stampOf u) (timestamped u listing))] at hsorted hmem
  exact (List.pairwise_append.mp hsorted).2.2 name hvictim other
    ((List.mem_append.mp hmem).resolve_left hstays)

def isBackup (u : UnicodeDigits) (name : FileName) : Bool := isLegacy name || isTimestamped u name

/-- The budget is kept as far as the files allow that are never deleted. -/
theorem countP_isBackup_le (hlisting : listing.Nodup) :
    (pruneCorruptBackups u listing keep).countP (isBackup u) ≤
      max keep (legacyCount listing) := by
  have hperm := sortBy_perm (stampOf u) (timestamped u listing)
  have hsublist : (pruneCorruptBackups u listing keep).Sublist listing := List.filter_sublist
  have hlegacy : ((pruneCorruptBackups u listing keep).filter (isBackup u)).countP isLegacy ≤
      legacyCount listing :=
    (List.filter_sublist.trans hsublist).countP_le
  have hkept : ((pruneCorruptBackups u listing keep).filter (isBackup u)).filter
      (fun name => decide ¬ isLegacy name = true) ⊆
      (sortBy (stampOf u) (timestamped u listing)).drop
        ((timestamped u listing).length + legacyCount listing - keep) := by
    intro name hname
    obtain ⟨hbackup, hnot⟩ := List.mem_filter.mp hname
    obtain ⟨hafter, hbackup⟩ := List.mem_filter.mp hbackup
    have htimed : isTimestamped u name = true :=
      (Bool.or_eq_true _ _ ▸ hbackup : _ ∨ _).resolve_left (of_decide_eq_true hnot)
    obtain ⟨hmem, hstays⟩ := (mem_prune_backup htimed).mp hafter
    have hsorted := hperm.mem_iff.mpr (mem_timestamped.mpr ⟨hmem, htimed⟩)
    rw [← List.take_append_drop ((timestamped u listing).length + legacyCount listing - keep)
      (sortBy (stampOf u) (timestamped u listing))] at hsorted
    exact (List.mem_append.mp hsorted).resolve_left hstays
  have hlength := (List.subperm_of_subset (((hlisting.sublist hsublist).filter _).filter _)
    hkept).length_le
  rw [List.length_drop, hperm.length_eq] at hlength
  rw [List.countP_eq_length_filter, List.length_eq_countP_add_countP isLegacy,
    List.countP_eq_length_filter (p := fun name => decide ¬ isLegacy name = true)]
  omega

end Prune

/-- The order in which backups are rotated: by second, in one second by number. -/
def RotatedBefore (u : UnicodeDigits) (name other : FileName) : Prop :=
  stampOf u name < stampOf u other ∨
    stampOf u name = stampOf u other ∧ numberOf u name < numberOf u other

/-- What the salvage and later ones rely on. -/
structure RotationSafe (u : UnicodeDigits) (names names' : List FileName) (db candidate : FileName)
    (keep : Nat) (after : List FileName) : Prop where
  salvageable : candidate ∈ after
  sidecars : ∀ suffix ∈ SIDECAR_SUFFIXES, db ++ suffix ∈ names → candidate ++ suffix ∈ after
  moved : ∀ name ∈ names, name ∉ names' →
    name = db ∨ ∃ suffix ∈ SIDECAR_SUFFIXES, name = db ++ suffix
  deleted : ∀ name ∈ names', name ∉ after →
    ∃ backup ∈ names', isTimestamped u backup = true ∧ backup ∉ after ∧ name ∈ deletedWith backup
  legacy : ∀ name ∈ names', isLegacy name = true → name ∈ after
  inOrder : ∀ gone ∈ names', ∀ kept ∈ after, isTimestamped u gone = true →
    isTimestamped u kept = true → gone ≠ candidate → kept ≠ candidate → gone ∉ after →
    ¬ RotatedBefore u kept gone
  bounded : after.countP (isBackup u) ≤ max keep (legacyCount names' + 1)

/-- Of the backups of one second, the budget reaches the later ones first. -/
def CutInOrder (u : UnicodeDigits) (listing : List FileName) (candidate : FileName) (keep : Nat) :
    Prop :=
  ∀ name ∈ timestamped u listing, ∀ other ∈ timestamped u listing,
    name ≠ candidate → other ≠ candidate → stampOf u other = stampOf u name →
    numberOf u other < numberOf u name → newerThan u listing other + legacyCount listing < keep →
    newerThan u listing name + legacyCount listing < keep

/-- The rotated backup and the order are safe exactly when the budget reaches the backup and no
second is cut against the numbers. -/
theorem rotation_safe_iff {names names' listing : List FileName} {db candidate : FileName}
    {stamp : Stamp u} {keep : Nat} (hnames : names.Nodup)
    (hrotate : rotateCorruptBackup names db stamp = some (candidate, names'))
    (hlisting : listing.Perm names') :
    RotationSafe u names names' db candidate keep (pruneCorruptBackups u listing keep) ↔
      newerThan u listing candidate + legacyCount listing < keep ∧
        CutInOrder u listing candidate keep := by
  have hrotates := rotateCorruptBackup_rotates hnames hrotate
  have hnodup := hlisting.nodup_iff.mpr hrotates.nodup
  have hcandidate : candidate ∈ listing :=
    hlisting.mem_iff.mpr ((hrotates.mem candidate).mpr (.inl rfl))
  have hstays : ∀ {name}, name ∈ timestamped u listing →
      (name ∉ pruneVictims u listing keep ↔
        newerThan u listing name + legacyCount listing < keep) := by
    intro name hname
    rw [mem_pruneVictims hnodup, and_iff_right hname, Nat.not_le]
  have hkept : ∀ {name}, name ∈ listing → isTimestamped u name = true →
      (name ∈ pruneCorruptBackups u listing keep ↔
        newerThan u listing name + legacyCount listing < keep) := by
    intro name hname htimed
    rw [mem_prune_backup htimed, and_iff_right hname, hstays (mem_timestamped.mpr ⟨hname, htimed⟩)]
  constructor
  · intro hsafe
    refine ⟨(hkept hcandidate hrotates.backup).mp hsafe.salvageable, ?_⟩
    intro name hname other hother hne hne' hstamp hnumber hreached
    obtain ⟨hmem, htimed⟩ := mem_timestamped.mp hname
    obtain ⟨hmem', htimed'⟩ := mem_timestamped.mp hother
    by_contra hcut
    exact hsafe.inOrder name (hlisting.mem_iff.mp hmem) other ((hkept hmem' htimed').mpr hreached)
      htimed htimed' hne hne' (fun hname => hcut ((hkept hmem htimed).mp hname))
      (.inr ⟨hstamp, hnumber⟩)
  · rintro ⟨hreached, hcut⟩
    have hsafe := (hstays (mem_timestamped.mpr ⟨hcandidate, hrotates.backup⟩)).mpr hreached
    refine ⟨(hkept hcandidate hrotates.backup).mpr hreached, fun suffix hsuffix hthere => ?_,
      fun name hname hgone => ?_, fun name hname hgone => ?_, fun name hname hlegacy => ?_, ?_, ?_⟩
    · refine (mem_prune_sidecar hsuffix).mpr ⟨hlisting.mem_iff.mpr ?_, hsafe⟩
      exact (hrotates.mem _).mpr (.inr (.inl ⟨suffix, hsuffix, rfl, hthere⟩))
    · by_contra hnone
      obtain ⟨hself, hnone⟩ := not_or.mp hnone
      exact hgone ((hrotates.mem name).mpr (.inr (.inr ⟨hname, hself, fun suffix hsuffix heq =>
        hnone ⟨suffix, hsuffix, heq⟩⟩)))
    · have hmem := hlisting.mem_iff.mpr hname
      obtain ⟨victim, hvictim, hdeleted⟩ : ∃ victim ∈ pruneVictims u listing keep,
          name ∈ deletedWith victim := by
        by_contra hnone
        exact hgone (mem_prune.mpr ⟨hmem, fun victim hvictim hdeleted =>
          hnone ⟨victim, hvictim, hdeleted⟩⟩)
      obtain ⟨hlisted, htimed⟩ := timestamped_of_victim hvictim
      exact ⟨victim, hlisting.mem_iff.mp hlisted, htimed,
        fun hafter => ((mem_prune_backup htimed).mp hafter).2 hvictim, hdeleted⟩
    · exact mem_prune_legacy hlegacy (hlisting.mem_iff.mpr hname)
    · intro gone hgone kept hafter htimed htimed' hne hne' hdeleted hbefore
      have hgone := hlisting.mem_iff.mpr hgone
      obtain ⟨hlisted, hkeeps⟩ := (mem_prune_backup htimed').mp hafter
      have hvictim : gone ∈ pruneVictims u listing keep :=
        by_contra fun hnot => hdeleted ((mem_prune_backup htimed).mpr ⟨hgone, hnot⟩)
      rcases hbefore with hstamp | ⟨hstamp, hnumber⟩
      · exact absurd (stampOf_victim_le hvictim (mem_timestamped.mpr ⟨hlisted, htimed'⟩) hkeeps)
          (not_le.mpr hstamp)
      · exact hdeleted ((hkept hgone htimed).mpr (hcut gone (mem_timestamped.mpr ⟨hgone, htimed⟩)
          kept (mem_timestamped.mpr ⟨hlisted, htimed'⟩) hne hne' hstamp hnumber
          ((hkept hlisted htimed').mp hafter)))
    · have hbound := @countP_isBackup_le u listing keep hnodup
      rw [legacyCount, ← hlisting.countP_eq]
      change _ ≤ max keep (legacyCount listing + 1)
      omega

/-- The stamp of midnight of a day in January. -/
def january (tens ones : Char) (h : tens.isDigit = true ∧ ones.isDigit = true) :
    Stamp asciiDigits where
  text := ['2', '0', '2', '6', '-', '0', '1', '-', tens, ones, 'T', '0', '0', '-', '0', '0', '-',
    '0', '0', 'Z']
  shape := by
    have hvalue : ∀ c : Char, c.isDigit = true → (asciiDigits.value c).isSome = true := by
      intro c hc
      have hrange : 48 ≤ c.toNat ∧ c.toNat ≤ 57 := Char.isDigit_iff_toNat.mp hc
      change (digitValue c).isSome = true
      rw [digitValue, if_pos (by omega)]
      rfl
    simp [STAMP, fits, hvalue tens h.1, hvalue ones h.2, hvalue]

def memoryDb : FileName := ['m', 'e', 'm', 'o', 'r', 'y', '.', 'd', 'b']

/-- A store with its log, and a backup of the day before. -/
def withOldBackup : List FileName :=
  [memoryDb, memoryDb ++ ['-', 'w', 'a', 'l'],
    backupName (january '0' '1' (by decide)).text 0]

theorem rotation_safe_iff_older : RotationSafe asciiDigits withOldBackup
    [backupName (january '0' '1' (by decide)).text 0,
      backupName (january '0' '2' (by decide)).text 0,
      backupName (january '0' '2' (by decide)).text 0 ++ ['-', 'w', 'a', 'l']]
    memoryDb (backupName (january '0' '2' (by decide)).text 0) 1
    [backupName (january '0' '2' (by decide)).text 0,
      backupName (january '0' '2' (by decide)).text 0 ++ ['-', 'w', 'a', 'l']] :=
  (@rotation_safe_iff asciiDigits withOldBackup _ _ memoryDb _ (january '0' '2' (by decide)) 1
    (by decide) (by decide +kernel) (List.Perm.refl _)).mpr
      ⟨by decide +kernel, by unfold CutInOrder; decide +kernel⟩

/-- With a budget of one, an old backup of before timestamps costs the new one. -/
theorem rotation_deletes_salvage : ¬ ∀ (u : UnicodeDigits) (names names' listing : List FileName)
    (db candidate : FileName) (stamp : Stamp u) (keep : Nat), 1 ≤ keep → names.Nodup →
    rotateCorruptBackup names db stamp = some (candidate, names') → listing.Perm names' →
    RotationSafe u names names' db candidate keep (pruneCorruptBackups u listing keep) := by
  intro h
  have hsafe := (h asciiDigits [memoryDb, CORRUPT ++ ['b', 'a', 'k']]
    [CORRUPT ++ ['b', 'a', 'k'], backupName (january '0' '2' (by decide)).text 0]
    [CORRUPT ++ ['b', 'a', 'k'], backupName (january '0' '2' (by decide)).text 0] memoryDb
    (backupName (january '0' '2' (by decide)).text 0) (january '0' '2' (by decide)) 1 le_rfl
    (by decide) (by decide +kernel) (List.Perm.refl _)).salvageable
  revert hsafe
  decide +kernel

end TrwMemory.Storage

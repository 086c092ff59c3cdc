import TrwMemory.Storage.Snapshots
import Mathlib.Data.List.Perm.Subperm

/-!
Backups of corrupt stores (`storage/_corrupt_backup.py`): a store is moved to a name with the
second of the clock, and the oldest backups are deleted before the rows are salvaged from it. Files
of two names from before timestamps count against the budget and are never deleted.

A directory is the names of its files in the order in which they are listed; a name is its
characters. No file is held open by another process, and no deletion fails.
-/
namespace TrwMemory.Storage

open Library Library.IsoText

abbrev FileName := List Char

def CORRUPT : FileName :=
  ['m', 'e', 'm', 'o', 'r', 'y', '.', 'd', 'b', '.', 'c', 'o', 'r', 'r', 'u', 'p', 't', '.']

def BAK : FileName := ['.', 'b', 'a', 'k']

/-- `YYYY-MM-DDTHH-MM-SSZ`, a digit where it has `0`. -/
def STAMP : FileName :=
  ['0', '0', '0', '0', '-', '0', '0', '-', '0', '0', 'T', '0', '0', '-', '0', '0', '-', '0', '0',
    'Z']

/-- `_LEGACY_CORRUPT_NAMES`. -/
def LEGACY_CORRUPT_NAMES : List FileName :=
  [CORRUPT ++ ['b', 'a', 'k'], CORRUPT ++ ['b', 'a', 'k', '.', '1']]

/-- `_SIDECAR_SUFFIXES`. -/
def SIDECAR_SUFFIXES : List FileName :=
  [['-', 'w', 'a', 'l'], ['-', 's', 'h', 'm'], ['-', 'j', 'o', 'u', 'r', 'n', 'a', 'l']]

def LOCK_SUFFIX : FileName := ['.', 'o', 'p', 'l', 'o', 'c', 'k']

/-- A clock reading, as `strftime` writes it. -/
structure Stamp (u : UnicodeDigits) where
  text : FileName
  shape : fits u STAMP text = true

variable (u : UnicodeDigits)

/-- `(?:-\d+)?\.bak`, with the number that it has. -/
def collisionOf (rest : FileName) : Option Nat :=
  if rest = BAK then some 0
  else
    match rest with
    | '-' :: more =>
        let number := more.takeWhile fun c => (u.value c).isSome
        if number ≠ [] ∧ more.drop number.length = BAK then readInt u number else none
    | _ => none

/-- `_TIMESTAMPED_BACKUP_RE`: the timestamp and the number of the collision. -/
def parseBackup (name : FileName) : Option (FileName × Nat) :=
  let stamp := (name.drop CORRUPT.length).take STAMP.length
  if name.take CORRUPT.length = CORRUPT ∧ fits u STAMP stamp = true then
    (collisionOf u (name.drop (CORRUPT.length + STAMP.length))).map fun number => (stamp, number)
  else none

def isTimestamped (name : FileName) : Bool := (parseBackup u name).isSome

def isLegacy (name : FileName) : Bool := LEGACY_CORRUPT_NAMES.contains name

def stampOf (name : FileName) : FileName := ((parseBackup u name).map Prod.fst).getD []

def numberOf (name : FileName) : Nat := ((parseBackup u name).map Prod.snd).getD 0

def backupName (stamp : FileName) (number : Nat) : FileName :=
  CORRUPT ++ (stamp ++ ((if number = 0 then [] else '-' :: Nat.toDigits 10 number) ++ BAK))

/-- The first number whose name is free. -/
def freeNumber (names : List FileName) (stamp : FileName) : Nat :=
  ((List.range (names.length + 1)).find? fun number => backupName stamp number ∉ names).getD 0

/-- `shutil.move` within the directory. A missing source moves nothing. -/
def moveFile (names : List FileName) (source target : FileName) : List FileName :=
  if source ∈ names then (names.filter fun name => name ≠ source ∧ name ≠ target) ++ [target]
  else names

variable {u} in
/-- `rotate_corrupt_backup`: the backup and the directory. `none` is a store that is not there. -/
def rotateCorruptBackup (names : List FileName) (db : FileName) (stamp : Stamp u) :
    Option (FileName × List FileName) :=
  if db ∈ names then
    let candidate := backupName stamp.text (freeNumber names stamp.text)
    some (candidate, SIDECAR_SUFFIXES.foldl
      (fun names suffix => moveFile names (db ++ suffix) (candidate ++ suffix))
      (moveFile names db candidate))
  else none

def timestamped (listing : List FileName) : List FileName :=
  listing.filter fun name => !isLegacy name && isTimestamped u name

def legacyCount (listing : List FileName) : Nat := listing.countP isLegacy

/-- The oldest timestamped backups, as many as are too many. -/
def pruneVictims (listing : List FileName) (keep : Nat) : List FileName :=
  (sortBy (stampOf u) (timestamped u listing)).take
    ((timestamped u listing).length + legacyCount listing - keep)

/-- What `_prune_one` deletes. -/
def deletedWith (victim : FileName) : List FileName :=
  victim :: (SIDECAR_SUFFIXES ++ [LOCK_SUFFIX]).map (victim ++ ·)

/-- `prune_corrupt_backups`. -/
def pruneCorruptBackups (listing : List FileName) (keep : Nat) : List FileName :=
  listing.filter fun name => !((pruneVictims u listing keep).flatMap deletedWith).contains name

variable {u}

theorem value_digitChar {d : Nat} (h : d < 10) : u.value d.digitChar = some d := by
  have hascii : ∀ d < 10, d.digitChar.toNat < 128 ∧ digitValue d.digitChar = some d := by decide
  rw [u.ascii _ (hascii d h).1, (hascii d h).2]

theorem readInt_concat (text : List Char) (c : Char) :
    readInt u (text ++ [c]) =
      (readInt u text).bind fun n => (u.value c).map fun d => 10 * n + d := by
  rw [readInt, List.foldlM_append]
  simp [readInt]

theorem readInt_toDigits (n : Nat) : readInt u (Nat.toDigits 10 n) = some n := by
  induction n using Nat.strongRecOn with
  | ind n ih =>
      by_cases hsmall : n < 10
      · rw [Nat.toDigits_of_lt_base hsmall, ← List.nil_append [n.digitChar], readInt_concat,
          value_digitChar hsmall]
        simp [readInt]
      · rw [Nat.toDigits_of_base_le (by decide) (by omega), readInt_concat, ih (n / 10) (by omega),
          value_digitChar (Nat.mod_lt n (by decide)), Option.bind_some, Option.map_some,
          Nat.div_add_mod]

theorem value_toDigits {n : Nat} {c : Char} (h : c ∈ Nat.toDigits 10 n) :
    (u.value c).isSome = true := by
  have hdigit := Nat.isDigit_of_mem_toDigits (by decide) (by decide) h
  have hrange : 48 ≤ c.toNat ∧ c.toNat ≤ 57 := Char.isDigit_iff_toNat.mp hdigit
  rw [u.ascii c (by omega), digitValue, if_pos (by omega)]
  rfl

/-- The number of a collision is read back. -/
theorem collisionOf_number (number : Nat) :
    collisionOf u ('-' :: (Nat.toDigits 10 number ++ BAK)) = some number := by
  have hdot : (u.value '.').isSome = false := by
    rw [u.ascii '.' (by decide)]
    rfl
  have hwhile : (Nat.toDigits 10 number ++ BAK).takeWhile (fun c => (u.value c).isSome) =
      Nat.toDigits 10 number := by
    rw [List.takeWhile_append_of_pos fun c hc => value_toDigits hc, BAK,
      List.takeWhile_cons_of_neg (by simp [hdot]), List.append_nil]
  have hne : Nat.toDigits 10 number ≠ [] := Nat.toDigits_ne_nil
  rw [collisionOf, if_neg (by simp [BAK])]
  dsimp only
  rw [hwhile, List.drop_left, if_pos ⟨hne, rfl⟩, readInt_toDigits]

theorem parse_backupName (stamp : Stamp u) (number : Nat) :
    parseBackup u (backupName stamp.text number) = some (stamp.text, number) := by
  have hlength : STAMP.length = stamp.text.length := fits_length stamp.shape
  have hnumber : collisionOf u ((if number = 0 then [] else '-' :: Nat.toDigits 10 number) ++
      BAK) = some number := by
    split
    · rename_i hzero
      rw [hzero]
      rfl
    · exact collisionOf_number number
  rw [parseBackup, backupName, ← List.drop_drop, List.take_left, List.drop_left, hlength,
    List.take_left, List.drop_left, hnumber, if_pos ⟨rfl, stamp.shape⟩]
  rfl

/-- Every timestamped name ends like a backup. -/
theorem bak_suffix {name : FileName} (h : isTimestamped u name = true) : BAK <:+ name := by
  have hrest : ∀ rest, (collisionOf u rest).isSome = true → BAK <:+ rest := by
    intro rest hsome
    unfold collisionOf at hsome
    split at hsome
    · rename_i heq
      exact heq ▸ List.suffix_rfl
    · split at hsome
      · dsimp only at hsome
        split at hsome
        · rename_i more _ hshape
          rw [← hshape.2]
          exact (List.drop_suffix _ more).trans (List.suffix_cons '-' more)
        · cases hsome
      · cases hsome
  rw [isTimestamped, parseBackup] at h
  split at h
  · rw [Option.isSome_map] at h
    exact (hrest _ h).trans (List.drop_suffix _ name)
  · cases h

theorem timestamped_of_stamp (stamp : Stamp u) (number : Nat) :
    isTimestamped u (backupName stamp.text number) = true := by
  rw [isTimestamped, parse_backupName]
  rfl

theorem not_timestamped_of_legacy {name : FileName} (h : isLegacy name = true) :
    isTimestamped u name = false := by
  have hshort : ∀ rest : FileName, rest.length < 20 →
      isTimestamped u (CORRUPT ++ rest) = false := by
    intro rest hrest
    rw [isTimestamped, parseBackup, List.drop_left, if_neg fun hparse => ?_]
    · rfl
    · have hlength := fits_length hparse.2
      rw [List.length_take] at hlength
      have hstamp : STAMP.length = 20 := rfl
      omega
  rw [isLegacy, List.contains_iff_mem, LEGACY_CORRUPT_NAMES, List.mem_cons, List.mem_singleton] at h
  rcases h with rfl | rfl
  · exact hshort _ (by decide)
  · exact hshort _ (by decide)

/-- No companion of a file is named like a backup. -/
theorem not_bak_suffix_companion {victim suffix : FileName}
    (h : suffix ∈ SIDECAR_SUFFIXES ++ [LOCK_SUFFIX]) : ¬ BAK <:+ victim ++ suffix := by
  intro hbak
  have hlong : ∀ suffix ∈ SIDECAR_SUFFIXES ++ [LOCK_SUFFIX],
      BAK.length ≤ suffix.length ∧ ¬ BAK <:+ suffix := by decide
  exact (hlong suffix h).2
    (List.suffix_of_suffix_length_le hbak (List.suffix_append victim suffix) (hlong suffix h).1)

/-- A companion tells which file it belongs to. -/
theorem companion_inj {victim victim' suffix suffix' : FileName}
    (h : suffix ∈ SIDECAR_SUFFIXES ++ [LOCK_SUFFIX])
    (h' : suffix' ∈ SIDECAR_SUFFIXES ++ [LOCK_SUFFIX])
    (heq : victim ++ suffix = victim' ++ suffix') : victim = victim' ∧ suffix = suffix' := by
  have happart : ∀ suffix ∈ SIDECAR_SUFFIXES ++ [LOCK_SUFFIX],
      ∀ suffix' ∈ SIDECAR_SUFFIXES ++ [LOCK_SUFFIX], suffix <:+ suffix' → suffix = suffix' := by
    decide
  have hleft : suffix <:+ victim' ++ suffix' := heq ▸ List.suffix_append victim suffix
  have hsame : suffix = suffix' := by
    rcases List.suffix_or_suffix_of_suffix hleft (List.suffix_append victim' suffix') with hs | hs
    · exact happart suffix h suffix' h' hs
    · exact (happart suffix' h' suffix h hs).symm
  rw [hsame] at heq
  exact ⟨List.append_cancel_right heq, hsame⟩

/-- The loop finds a free name. -/
theorem backupName_freeNumber (names : List FileName) (stamp : Stamp u) :
    backupName stamp.text (freeNumber names stamp.text) ∉ names := by
  rw [freeNumber]
  cases hfind : (List.range (names.length + 1)).find? fun number =>
      backupName stamp.text number ∉ names with
  | some number => simpa using List.find?_some hfind
  | none =>
      -- more names than there are files
      have htaken : (List.range (names.length + 1)).map (backupName stamp.text) ⊆ names := by
        intro name hname
        obtain ⟨number, hnumber, rfl⟩ := List.mem_map.mp hname
        simpa using List.find?_eq_none.mp hfind number hnumber
      have hinj : Function.Injective (backupName stamp.text) := by
        intro number number' heq
        have hparse := parse_backupName (u := u) stamp number
        rw [heq, parse_backupName] at hparse
        exact (congrArg Prod.snd (Option.some.inj hparse)).symm
      have hlength :=
        (List.subperm_of_subset (List.nodup_range.map hinj) htaken).length_le
      rw [List.length_map, List.length_range] at hlength
      omega

theorem mem_moveFile {names : List FileName} {source target name : FileName} :
    name ∈ moveFile names source target ↔
      if source ∈ names then name = target ∨ name ∈ names ∧ name ≠ source else name ∈ names := by
  rw [moveFile]
  split
  · rw [List.mem_append, List.mem_singleton, List.mem_filter, decide_eq_true_iff]
    by_cases htarget : name = target
    · exact ⟨fun _ => .inl htarget, fun _ => .inr htarget⟩
    · simp [htarget]
  · rfl

theorem nodup_moveFile {names : List FileName} (h : names.Nodup) (source target : FileName) :
    (moveFile names source target).Nodup := by
  rw [moveFile]
  split
  · refine List.nodup_append.mpr ⟨h.filter _, List.nodup_singleton target, ?_⟩
    intro name hname other hother heq
    have hne := (of_decide_eq_true (List.mem_filter.mp hname).2).2
    exact hne (heq.trans (List.mem_singleton.mp hother))
  · exact h

/-- What the sidecars' loop leaves: each goes along, the rest stays. -/
theorem mem_moveSidecars {db candidate name : FileName} (hne : db ≠ candidate)
    (suffixes : List FileName) (h : suffixes.Nodup)
    (hsuffixes : suffixes ⊆ SIDECAR_SUFFIXES ++ [LOCK_SUFFIX]) (names : List FileName) :
    name ∈ suffixes.foldl
      (fun names suffix => moveFile names (db ++ suffix) (candidate ++ suffix)) names ↔
      (∃ suffix ∈ suffixes, name = candidate ++ suffix ∧ db ++ suffix ∈ names) ∨
        (name ∈ names ∧ ∀ suffix ∈ suffixes, name ≠ db ++ suffix) := by
  induction suffixes generalizing names with
  | nil => simp
  | cons suffix suffixes ih =>
      obtain ⟨hnot, hnodup⟩ := List.nodup_cons.mp h
      obtain ⟨hsuffix, hrest⟩ := List.cons_subset.mp hsuffixes
      have hother : ∀ other ∈ suffixes,
          (db ++ other ∈ moveFile names (db ++ suffix) (candidate ++ suffix) ↔
            db ++ other ∈ names) := by
        intro other hother
        have htarget : db ++ other ≠ candidate ++ suffix := fun heq =>
          hne (companion_inj (hrest hother) hsuffix heq).1
        have hsource : db ++ other ≠ db ++ suffix := fun heq =>
          hnot ((companion_inj (hrest hother) hsuffix heq).2 ▸ hother)
        rw [mem_moveFile]
        simp [htarget, hsource]
      rw [List.foldl_cons, ih hnodup hrest, mem_moveFile]
      constructor
      · rintro (⟨other, hmem, rfl, hthere⟩ | ⟨hmem, hnone⟩)
        · exact .inl ⟨other, List.mem_cons_of_mem _ hmem, rfl, (hother other hmem).mp hthere⟩
        · split at hmem
          · rename_i hthere
            rcases hmem with rfl | ⟨hmem, hself⟩
            · exact .inl ⟨suffix, List.mem_cons_self, rfl, hthere⟩
            · exact .inr ⟨hmem, List.forall_mem_cons.mpr ⟨hself, hnone⟩⟩
          · rename_i hgone
            exact .inr ⟨hmem, List.forall_mem_cons.mpr ⟨fun heq => hgone (heq ▸ hmem), hnone⟩⟩
      · rintro (⟨other, hmem, rfl, hthere⟩ | ⟨hmem, hnone⟩)
        · rcases List.mem_cons.mp hmem with rfl | hmem
          · rw [if_pos hthere]
            exact .inr ⟨.inl rfl, fun later hlater heq =>
              hne (companion_inj hsuffix (hrest hlater) heq).1.symm⟩
          · exact .inl ⟨other, hmem, rfl, (hother other hmem).mpr hthere⟩
        · obtain ⟨hself, hnone⟩ := List.forall_mem_cons.mp hnone
          refine .inr ⟨?_, hnone⟩
          split
          · exact .inr ⟨hmem, hself⟩
          · exact hmem

/-- What a rotation does: the store and its sidecars get new names, the rest stays. -/
structure Rotates (u : UnicodeDigits) (names names' : List FileName) (db candidate : FileName) :
    Prop where
  fresh : candidate ∉ names
  backup : isTimestamped u candidate = true
  nodup : names'.Nodup
  mem : ∀ name, name ∈ names' ↔
    name = candidate ∨
      (∃ suffix ∈ SIDECAR_SUFFIXES, name = candidate ++ suffix ∧ db ++ suffix ∈ names) ∨
      (name ∈ names ∧ name ≠ db ∧ ∀ suffix ∈ SIDECAR_SUFFIXES, name ≠ db ++ suffix)

theorem rotateCorruptBackup_rotates {names names' : List FileName} {db candidate : FileName}
    {stamp : Stamp u} (hnames : names.Nodup)
    (h : rotateCorruptBackup names db stamp = some (candidate, names')) :
    Rotates u names names' db candidate := by
  rw [rotateCorruptBackup] at h
  split at h
  · rename_i hdb
    obtain ⟨rfl, rfl⟩ := Prod.mk.inj (Option.some.inj h)
    have hfresh := backupName_freeNumber names stamp
    have hbackup := timestamped_of_stamp stamp (freeNumber names stamp.text)
    generalize backupName stamp.text (freeNumber names stamp.text) = candidate at hfresh hbackup
    have hne : db ≠ candidate := fun heq => hfresh (heq ▸ hdb)
    have hsubset : SIDECAR_SUFFIXES ⊆ SIDECAR_SUFFIXES ++ [LOCK_SUFFIX] :=
      List.subset_append_left _ _
    have hsidecar : ∀ suffix ∈ SIDECAR_SUFFIXES, db ++ suffix ≠ candidate ∧ db ++ suffix ≠ db ∧
        candidate ≠ db ++ suffix := by
      intro suffix hsuffix
      have hcandidate : candidate ≠ db ++ suffix := fun heq =>
        not_bak_suffix_companion (hsubset hsuffix) (heq ▸ bak_suffix hbackup)
      refine ⟨hcandidate.symm, fun heq => ?_, hcandidate⟩
      rw [List.append_right_eq_self.mp heq] at hsuffix
      exact absurd hsuffix (by decide)
    have hmoved : ∀ suffix ∈ SIDECAR_SUFFIXES,
        (db ++ suffix ∈ moveFile names db candidate ↔ db ++ suffix ∈ names) := by
      intro suffix hsuffix
      obtain ⟨hcandidate, hself, -⟩ := hsidecar suffix hsuffix
      rw [mem_moveFile, if_pos hdb]
      simp [hcandidate, hself]
    refine ⟨hfresh, hbackup, ?_, fun name => ?_⟩
    · exact List.foldlRecOn (motive := List.Nodup) SIDECAR_SUFFIXES _ (nodup_moveFile hnames _ _)
        fun names hnodup suffix _ => nodup_moveFile hnodup _ _
    · rw [mem_moveSidecars hne SIDECAR_SUFFIXES (by decide) hsubset, mem_moveFile, if_pos hdb]
      constructor
      · rintro (⟨suffix, hmem, rfl, hthere⟩ | ⟨rfl | ⟨hmem, hself⟩, hnone⟩)
        · exact .inr (.inl ⟨suffix, hmem, rfl, (hmoved suffix hmem).mp hthere⟩)
        · exact .inl rfl
        · exact .inr (.inr ⟨hmem, hself, hnone⟩)
      · rintro (rfl | ⟨suffix, hmem, rfl, hthere⟩ | ⟨hmem, hself, hnone⟩)
        · exact .inr ⟨.inl rfl, fun suffix hsuffix => (hsidecar suffix hsuffix).2.2⟩
        · exact .inl ⟨suffix, hmem, rfl, (hmoved suffix hmem).mpr hthere⟩
        · exact .inr ⟨.inr ⟨hmem, hself⟩, hnone⟩
  · cases h

end TrwMemory.Storage

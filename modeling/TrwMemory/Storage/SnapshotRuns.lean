import TrwMemory.Storage.SnapshotRotation

/-!
Runs of daily and weekly snapshots, and the file that `latest_snapshot` finds after one: the one of
the latest day, a daily one before a weekly one. Where nothing is later than the last snapshot, this
is it or a daily one of its day.

A weekly name stands for the Sunday of its week, also if the snapshot was forced on another day.
-/
namespace TrwMemory.Storage

open Library Library.Civil Library.IsoText

variable {u : UnicodeDigits}

/-- A file of the directories, with its tier and the day that its name encodes. -/
structure IsFile (u : UnicodeDigits) (dirs : SnapshotDirs) (c : Candidate) : Prop where
  mem : c.name ∈ (dirs c.tier).names
  fits : fullmatch u c.tier c.name = true
  date : parseSnapshotDate u c.name = some c.date

/-- No file encodes a later day, and no daily one the same day as a weekly one. -/
structure IsLatest (u : UnicodeDigits) (dirs : SnapshotDirs) (c : Candidate) : Prop where
  file : IsFile u dirs c
  latest : ∀ other, IsFile u dirs other → other.date ≤ c.date
  daily : ∀ other, IsFile u dirs other → other.date = c.date → other.tier = .daily →
    c.tier = .daily

theorem beats_eq_false {c best : Candidate} : c.beats best = false ↔
    c.date ≤ best.date ∧ (c.date = best.date → c.tier.rank ≤ best.tier.rank) := by
  rw [Candidate.beats, Bool.or_eq_false_iff, Bool.and_eq_false_iff, decide_eq_false_iff_not,
    decide_eq_false_iff_not, beq_eq_false_iff_ne, Nat.not_lt, Nat.not_lt]
  refine and_congr_right fun _ => ⟨fun h heq => ?_, fun h => ?_⟩
  · exact h.resolve_left (not_not.mpr heq.symm)
  · by_cases heq : c.date = best.date
    · exact .inr (h heq)
    · exact .inl (Ne.symm heq)

theorem beats_trans {a b c : Candidate} (hab : a.beats b = false) (hbc : b.beats c = false) :
    a.beats c = false := by
  rw [beats_eq_false] at *
  refine ⟨hab.1.trans hbc.1, fun heq => ?_⟩
  have hb : a.date = b.date := Nat.le_antisymm hab.1 (by omega)
  exact (hab.2 hb).trans (hbc.2 (by omega))

/-- The loop over a tier finds a file that none of those seen beats. -/
theorem foldl_betterOf {tier : Tier} {names : List String} {best : Option Candidate} :
    let found := names.foldl (betterOf u tier) best
    (∀ c, found = some c → best = some c ∨ c.tier = tier ∧ c.name ∈ names ∧
      parseSnapshotDate u c.name = some c.date) ∧
    (∀ c, best = some c → ∃ c', found = some c' ∧ c.beats c' = false) ∧
    (∀ name ∈ names, ∀ date, parseSnapshotDate u name = some date →
      ∃ c', found = some c' ∧ Candidate.beats ⟨date, tier, name⟩ c' = false) := by
  induction names generalizing best with
  | nil =>
      refine ⟨fun c hc => .inl hc, fun c hc => ⟨c, hc, ?_⟩, fun name hname => (by cases hname)⟩
      exact beats_eq_false.mpr ⟨Nat.le_refl _, fun _ => Nat.le_refl _⟩
  | cons name names ih =>
      intro found
      obtain ⟨hfound, hbest, hnames⟩ := @ih (betterOf u tier best name)
      have hstep : ∀ c, best = some c → ∃ c', betterOf u tier best name = some c' ∧
          c.beats c' = false := by
        intro c hc
        have hself : c.beats c = false := beats_eq_false.mpr ⟨Nat.le_refl _, fun _ => Nat.le_refl _⟩
        rw [betterOf]
        cases parseSnapshotDate u name with
        | none => exact ⟨c, hc, hself⟩
        | some date =>
            dsimp only
            split
            · rename_i hbeats
              refine ⟨_, rfl, ?_⟩
              rw [hc, Option.all_some, Candidate.beats, Bool.or_eq_true, Bool.and_eq_true,
                decide_eq_true_iff, decide_eq_true_iff, beq_iff_eq] at hbeats
              refine beats_eq_false.mpr ⟨?_, fun heq => ?_⟩
              · dsimp only at hbeats ⊢
                omega
              · dsimp only at hbeats heq ⊢
                omega
            · exact ⟨c, hc, hself⟩
      have hthis : ∀ date, parseSnapshotDate u name = some date →
          ∃ c', betterOf u tier best name = some c' ∧
            Candidate.beats ⟨date, tier, name⟩ c' = false := by
        intro date hdate
        rw [betterOf, hdate]
        dsimp only
        split
        · exact ⟨_, rfl, beats_eq_false.mpr ⟨Nat.le_refl _, fun _ => Nat.le_refl _⟩⟩
        · rename_i hbeats
          cases hb : best with
          | none => rw [hb] at hbeats; exact absurd rfl hbeats
          | some c =>
              rw [hb, Option.all_some, Bool.not_eq_true] at hbeats
              exact ⟨c, rfl, hbeats⟩
      refine ⟨fun c hc => ?_, fun c hc => ?_, fun name' hname' date hdate => ?_⟩
      · rcases hfound c hc with hlast | ⟨htier, hmem, hdate⟩
        · rw [betterOf] at hlast
          split at hlast
          · exact .inl hlast
          · rename_i date hdate
            split at hlast
            · cases hlast
              exact .inr ⟨rfl, List.mem_cons_self, hdate⟩
            · exact .inl hlast
        · exact .inr ⟨htier, List.mem_cons_of_mem _ hmem, hdate⟩
      · obtain ⟨c', hc', hless⟩ := hstep c hc
        obtain ⟨c'', hc'', hless'⟩ := hbest c' hc'
        exact ⟨c'', hc'', beats_trans hless hless'⟩
      · rcases List.mem_cons.mp hname' with rfl | hname'
        · obtain ⟨c', hc', hless⟩ := hthis date hdate
          obtain ⟨c'', hc'', hless'⟩ := hbest c' hc'
          exact ⟨c'', hc'', beats_trans hless hless'⟩
        · exact hnames name' hname' date hdate

theorem mem_listSnapshots {dirs : SnapshotDirs} {tier : Tier} {name : String} :
    name ∈ listSnapshots u dirs tier ↔
      name ∈ (dirs tier).names ∧ fullmatch u tier name = true := by
  have hperm : (listSnapshots u dirs tier).Perm ((dirs tier).names.filter (fullmatch u tier)) :=
    sortDesc_perm id _
  exact hperm.mem_iff.trans List.mem_filter

/-- Every file is beaten by none but the one that is found. -/
theorem latestSnapshot_beats {dirs : SnapshotDirs} {c : Candidate} (h : IsFile u dirs c) :
    ∃ found, latestSnapshot u dirs = some found ∧ c.beats found = false := by
  obtain ⟨-, -, hdaily⟩ := @foldl_betterOf u .daily (listSnapshots u dirs .daily) none
  obtain ⟨-, hbest, hweekly⟩ := @foldl_betterOf u .weekly (listSnapshots u dirs .weekly)
    ((listSnapshots u dirs .daily).foldl (betterOf u .daily) none)
  obtain ⟨date, tier, name⟩ := c
  have hmem := mem_listSnapshots.mpr ⟨h.mem, h.fits⟩
  cases tier with
  | daily =>
      obtain ⟨c', hc', hless⟩ := hdaily name hmem date h.date
      obtain ⟨found, hfound, hless'⟩ := hbest c' hc'
      exact ⟨found, hfound, beats_trans hless hless'⟩
  | weekly => exact hweekly name hmem date h.date

theorem isFile_latestSnapshot {dirs : SnapshotDirs} {c : Candidate}
    (h : latestSnapshot u dirs = some c) : IsFile u dirs c := by
  obtain ⟨hdaily, -, -⟩ := @foldl_betterOf u .daily (listSnapshots u dirs .daily) none
  obtain ⟨hweekly, -, -⟩ := @foldl_betterOf u .weekly (listSnapshots u dirs .weekly)
    ((listSnapshots u dirs .daily).foldl (betterOf u .daily) none)
  rcases hweekly c h with hbest | ⟨htier, hmem, hdate⟩
  · rcases hdaily c hbest with hnone | ⟨htier, hmem, hdate⟩
    · cases hnone
    · obtain ⟨hmem, hfits⟩ := mem_listSnapshots.mp hmem
      exact ⟨htier ▸ hmem, htier ▸ hfits, hdate⟩
  · obtain ⟨hmem, hfits⟩ := mem_listSnapshots.mp hmem
    exact ⟨htier ▸ hmem, htier ▸ hfits, hdate⟩

/-- `latest_snapshot` finds the latest file, if there is one. -/
theorem latestSnapshot_isLatest (dirs : SnapshotDirs) :
    (∀ c, latestSnapshot u dirs = some c → IsLatest u dirs c) ∧
      (latestSnapshot u dirs = none → ∀ c, ¬ IsFile u dirs c) := by
  constructor
  · intro c hc
    have hbeats : ∀ other, IsFile u dirs other → other.beats c = false := by
      intro other hother
      obtain ⟨found, hfound, hless⟩ := latestSnapshot_beats hother
      rw [hc] at hfound
      cases hfound
      exact hless
    refine ⟨isFile_latestSnapshot hc,
      fun other hother => (beats_eq_false.mp (hbeats other hother)).1,
      fun other hother hdate htier => ?_⟩
    have hrank := (beats_eq_false.mp (hbeats other hother)).2 hdate
    rw [htier] at hrank
    cases hcTier : c.tier with
    | daily => rfl
    | weekly => rw [hcTier] at hrank; exact absurd hrank (by decide)
  · intro hnone c hfile
    obtain ⟨found, hfound, -⟩ := latestSnapshot_beats hfile
    rw [hnone] at hfound
    cases hfound

variable (u) in
/-- What a sequence of calls leaves. -/
def takeSnapshots (dirs : SnapshotDirs) (calls : List SnapshotCall) : SnapshotDirs :=
  calls.foldl (takeSnapshot u) dirs

/-- No file of a tier's shape has a later name than the snapshot's or encodes a later day. -/
structure NoneLater (u : UnicodeDigits) (call : SnapshotCall) (dirs : SnapshotDirs) : Prop where
  ascii : ∀ tier, ∀ name ∈ (dirs tier).names, fullmatch u tier name = true →
    ∀ c ∈ name.toList, c.toNat < 128
  named : ∀ name ∈ (dirs call.tier).names, fullmatch u call.tier name = true → name ≤ call.name
  dated : ∀ c, IsFile u dirs c → c.date ≤ call.day

section Runs

variable {dirs : SnapshotDirs} {call : SnapshotCall}

/-- What is in a tier after a call was there before it, or is the snapshot. -/
theorem mem_takeSnapshot {tier : Tier} {name : String}
    (h : name ∈ (takeSnapshot u dirs call tier).names) :
    name ∈ (dirs tier).names ∨ call.takes = true ∧ tier = call.tier ∧ name = call.name := by
  have hcall := @callRotates u dirs call
  by_cases hother : call.takes = false ∨ tier ≠ call.tier
  · rw [hcall.untouched tier hother] at h
    exact .inl h
  · obtain ⟨htakes, htier⟩ := not_or.mp hother
    have htakes := Bool.eq_true_of_not_eq_false htakes
    obtain rfl := not_not.mp htier
    rcases mem_create.mp ((hcall.rotated htakes).subset name h) with hnew | hold
    · exact .inr ⟨htakes, rfl, hnew⟩
    · exact .inl hold

/-- A snapshot of an earlier day, or of the same, is no later. -/
theorem NoneLater.takeSnapshot (h : NoneLater u call dirs) (hlast : call.day < 3652059)
    {earlier : SnapshotCall} (hday : earlier.takes = true → earlier.day ≤ call.day) :
    NoneLater u call (takeSnapshot u dirs earlier) := by
  refine ⟨fun tier name hmem hmatch => ?_, fun name hmem hmatch => ?_, fun c hfile => ?_⟩
  · rcases mem_takeSnapshot hmem with hold | ⟨-, -, rfl⟩
    · exact h.ascii tier name hold hmatch
    · exact ascii_snapshotName
  · rcases mem_takeSnapshot hmem with hold | ⟨htakes, htier, rfl⟩
    · exact h.named name hold hmatch
    · have hle := hday htakes
      have hearlier : Encodes u earlier.name earlier.day :=
        earlier.encodes_name (Nat.lt_of_le_of_lt hle hlast)
      refine not_lt.mp fun hlt => ?_
      have hback := ((call.encodes_name hlast).lt_iff hearlier call.fullmatch_name hmatch).mp hlt
      exact absurd hle (Nat.not_le.mpr hback)
  · rcases mem_takeSnapshot hfile.mem with hold | ⟨htakes, -, hname⟩
    · exact h.dated c ⟨hold, hfile.fits, hfile.date⟩
    · have hle := hday htakes
      have hdate := hfile.date
      rw [hname, (earlier.encodes_name (Nat.lt_of_le_of_lt hle hlast)).2] at hdate
      exact Option.some.inj hdate ▸ hle

theorem NoneLater.takeSnapshots (h : NoneLater u call dirs) (hlast : call.day < 3652059)
    {calls : List SnapshotCall} (hdays : ∀ c ∈ calls, c.takes = true → c.day ≤ call.day) :
    NoneLater u call (takeSnapshots u dirs calls) := by
  induction calls generalizing dirs with
  | nil => exact h
  | cons earlier calls ih =>
      obtain ⟨hday, hdays⟩ := List.forall_mem_cons.mp hdays
      exact ih (h.takeSnapshot hlast hday) hdays

/-- A snapshot that no file is later than is found, or a daily one of its day. -/
theorem NoneLater.latestSnapshot (h : NoneLater u call dirs) (hkeep : 1 ≤ call.keep)
    (htakes : call.takes = true) (hlast : call.day < 3652059) :
    ∃ c, latestSnapshot u (Storage.takeSnapshot u dirs call) = some c ∧ c.date = call.day ∧
      (c.tier = call.tier ∧ c.name = call.name ∨ call.tier = .weekly ∧ c.tier = .daily) := by
  have hnone : laterFiles u call.tier (dirs call.tier) call.name = [] := by
    refine List.eq_nil_iff_forall_not_mem.mpr fun name hmem => ?_
    obtain ⟨hold, hmatch, hlt⟩ := mem_laterFiles.mp hmem
    exact absurd hlt (not_lt.mpr (h.named name hold hmatch))
  have hkept : call.name ∈ (Storage.takeSnapshot u dirs call call.tier).names := by
    rw [taken_iff htakes, hnone]
    exact hkeep
  have hfile : IsFile u (Storage.takeSnapshot u dirs call) ⟨call.day, call.tier, call.name⟩ :=
    ⟨hkept, call.fullmatch_name, (call.encodes_name hlast).2⟩
  have hafter := h.takeSnapshot hlast fun _ => Nat.le_refl call.day
  obtain ⟨c, hc, -⟩ := latestSnapshot_beats hfile
  have hlatest := (latestSnapshot_isLatest _).1 c hc
  have hdate : c.date = call.day :=
    Nat.le_antisymm (hafter.dated c hlatest.file) (hlatest.latest _ hfile)
  obtain ⟨-, hname⟩ := eq_snapshotName hlatest.file.fits
    (hafter.ascii c.tier c.name hlatest.file.mem hlatest.file.fits) hlatest.file.date
  refine ⟨c, hc, hdate, ?_⟩
  by_cases htier : c.tier = call.tier
  · exact .inl ⟨htier, by rw [hname, htier, hdate, call.name_eq]⟩
  · refine .inr ?_
    cases hcall : call.tier with
    | daily => exact absurd ((hlatest.daily _ hfile hdate.symm hcall).trans hcall.symm) htier
    | weekly =>
        cases hc : c.tier with
        | daily => exact ⟨rfl, rfl⟩
        | weekly => exact absurd (hc.trans hcall.symm) htier

end Runs

/-- Every name of a tier's shape is in ASCII and encodes a day. -/
def AllDated (u : UnicodeDigits) (dirs : SnapshotDirs) : Prop :=
  ∀ tier, ∀ name ∈ (dirs tier).names, fullmatch u tier name = true → ∃ date, Encodes u name date

/-- The files of a tier that encode a later day. -/
def laterDays (u : UnicodeDigits) (tier : Tier) (dir : Listing) (day : Nat) : List String :=
  dir.names.filter fun other =>
    fullmatch u tier other && (parseSnapshotDate u other).any fun date => decide (day < date)

/-- What one call does to directories whose names encode days. -/
structure DatedRotation (u : UnicodeDigits) (call : SnapshotCall) (before after : SnapshotDirs) :
    Prop where
  dated : AllDated u after
  others : ∀ name, fullmatch u call.tier name = false →
    (name ∈ (after call.tier).names ↔ name ∈ (before call.tier).names)
  subset : ∀ name ∈ (after call.tier).names,
    name ∈ (before call.tier).names ∨ call.takes = true ∧ name = call.name
  count : call.takes = true → ((after call.tier).names.filter (fullmatch u call.tier)).length =
    min call.keep
      (((before call.tier).create call.name).names.filter (fullmatch u call.tier)).length
  latest : call.takes = true → ∀ kept ∈ (after call.tier).names,
    fullmatch u call.tier kept = true → ∀ gone ∈ ((before call.tier).create call.name).names,
      gone ∉ (after call.tier).names →
        ∀ date date', Encodes u gone date → Encodes u kept date' → date < date'
  taken : call.takes = true → (call.name ∈ (after call.tier).names ↔
    (laterDays u call.tier (before call.tier) call.day).length < call.keep)
  untouched : ∀ tier, (call.takes = false ∨ tier ≠ call.tier) → after tier = before tier

section Dated

variable {dirs : SnapshotDirs} {call : SnapshotCall}

theorem AllDated.takeSnapshot (h : AllDated u dirs) (hday : call.day < 3652059) :
    AllDated u (takeSnapshot u dirs call) := by
  intro tier name hmem hmatch
  rcases mem_takeSnapshot hmem with hold | ⟨-, rfl, rfl⟩
  · exact h tier name hold hmatch
  · exact ⟨call.day, call.encodes_name hday⟩

theorem AllDated.takeSnapshots (h : AllDated u dirs) {calls : List SnapshotCall}
    (hdays : ∀ c ∈ calls, c.day < 3652059) : AllDated u (takeSnapshots u dirs calls) := by
  induction calls generalizing dirs with
  | nil => exact h
  | cons earlier calls ih =>
      obtain ⟨hday, hdays⟩ := List.forall_mem_cons.mp hdays
      exact ih (h.takeSnapshot hday) hdays

/-- Where all names encode days, a later name is a later day. -/
theorem AllDated.laterFiles_eq (h : AllDated u dirs) (hday : call.day < 3652059) :
    laterFiles u call.tier (dirs call.tier) call.name =
      laterDays u call.tier (dirs call.tier) call.day := by
  refine List.filter_congr fun name hmem => ?_
  cases hmatch : fullmatch u call.tier name with
  | false => rfl
  | true =>
      obtain ⟨date, hdate⟩ := h call.tier name hmem hmatch
      have hlater := (call.encodes_name hday).lt_iff hdate call.fullmatch_name hmatch
      rw [hdate.2, Option.any_some, Bool.true_and, Bool.true_and]
      exact decide_eq_decide.mpr hlater

theorem AllDated.rotation (h : AllDated u dirs) (hday : call.day < 3652059) :
    DatedRotation u call dirs (Storage.takeSnapshot u dirs call) := by
  have hcall := @callRotates u dirs call
  refine ⟨h.takeSnapshot hday, fun name hmatch => ?_, fun name hmem => ?_,
    fun htakes => (hcall.rotated htakes).count, fun htakes kept hkept hmatch gone hgone hlost =>
      ((hcall.rotated htakes).latest kept hkept hmatch gone hgone hlost).2,
    fun htakes => h.laterFiles_eq hday ▸ hcall.taken htakes, hcall.untouched⟩
  · cases htakes : call.takes with
    | false => rw [hcall.untouched call.tier (.inl htakes)]
    | true =>
        have hother : name ≠ call.name := by
          rintro rfl
          rw [call.fullmatch_name] at hmatch
          cases hmatch
        rw [(hcall.rotated htakes).others name hmatch, mem_create]
        exact or_iff_right hother
  · rcases mem_takeSnapshot hmem with hold | ⟨htakes, -, hname⟩
    · exact .inl hold
    · exact .inr ⟨htakes, hname⟩

theorem AllDated.noneLater (h : AllDated u dirs) (hday : call.day < 3652059)
    (hdated : ∀ c, IsFile u dirs c → c.date ≤ call.day) : NoneLater u call dirs := by
  refine ⟨fun tier name hmem hmatch => ?_, fun name hmem hmatch => ?_, hdated⟩
  · obtain ⟨date, hdate⟩ := h tier name hmem hmatch
    exact hdate.1
  · obtain ⟨date, hdate⟩ := h call.tier name hmem hmatch
    refine not_lt.mp fun hlt => ?_
    have hlater := ((call.encodes_name hday).lt_iff hdate call.fullmatch_name hmatch).mp hlt
    exact absurd (hdated ⟨date, call.tier, name⟩ ⟨hmem, hmatch, hdate.2⟩) (Nat.not_le.mpr hlater)

end Dated

/-- Over directories whose names of a tier's shape all encode days: after every snapshot of a run,
its tier has the files of the latest days, and the file of the latest day is found. This is the
snapshot, or a daily one of its day, where no file at the start and no snapshot of the run is
later. -/
theorem rotation_keeps_newest (u : UnicodeDigits) (dirs : SnapshotDirs)
    (calls : List SnapshotCall) (call : SnapshotCall) (hdated : AllDated u dirs)
    (hdays : ∀ c ∈ calls ++ [call], c.day < 3652059) :
    let before := takeSnapshots u dirs calls
    let after := takeSnapshots u dirs (calls ++ [call])
    DatedRotation u call before after ∧
      (∀ c, latestSnapshot u after = some c → IsLatest u after c) ∧
      (latestSnapshot u after = none → ∀ c, ¬ IsFile u after c) ∧
      (1 ≤ call.keep → call.takes = true → (∀ c, IsFile u dirs c → c.date ≤ call.day) →
        (∀ c ∈ calls, c.takes = true → c.day ≤ call.day) →
        ∃ c, latestSnapshot u after = some c ∧ c.date = call.day ∧
          (c.tier = call.tier ∧ c.name = call.name ∨ call.tier = .weekly ∧ c.tier = .daily)) := by
  intro before after
  have hafter : after = takeSnapshot u before call := List.foldl_append
  have hday : call.day < 3652059 := hdays call (List.mem_append_right _ (List.mem_singleton_self _))
  have hbefore : AllDated u before :=
    hdated.takeSnapshots fun c hc => hdays c (List.mem_append_left _ hc)
  rw [hafter]
  obtain ⟨hlatest, hnone⟩ := @latestSnapshot_isLatest u (takeSnapshot u before call)
  refine ⟨hbefore.rotation hday, hlatest, hnone, fun hkeep htakes hstart hearlier => ?_⟩
  exact ((hdated.noneLater hday hstart).takeSnapshots hday hearlier).latestSnapshot hkeep htakes
    hday

/-- Digits of ASCII only. -/
def asciiDigits : UnicodeDigits := ⟨digitValue, fun _ _ => rfl⟩

def oneDaily (name : String) : SnapshotDirs
  | .daily => ⟨[name], List.nodup_singleton name⟩
  | .weekly => ⟨[], List.nodup_nil⟩

/-- A snapshot in January 2026, days from 0; day 3 is a Sunday. -/
def inJanuary (tier : Tier) (day : Fin 31) (force : Bool) : SnapshotCall :=
  ⟨tier, ⟨739616 + day, by omega⟩, 1, force⟩

theorem rotation_keeps_newest_sunday :
    ∃ c, latestSnapshot asciiDigits (takeSnapshots asciiDigits (oneDaily "2026-01-03.db")
        ([inJanuary .daily 3 false] ++ [inJanuary .weekly 3 false])) = some c ∧
      c.date = 739619 ∧ (c.tier = .weekly ∧ c.name = (inJanuary .weekly 3 false).name ∨
        Tier.weekly = .weekly ∧ c.tier = .daily) := by
  have hdated : AllDated asciiDigits (oneDaily "2026-01-03.db") := by
    intro tier name hmem _
    cases tier with
    | daily =>
        have hname : name = snapshotName .daily 739618 :=
          (List.mem_singleton.mp hmem).trans (by decide +kernel)
        exact ⟨739618, hname ▸ ⟨ascii_snapshotName, by decide +kernel⟩⟩
    | weekly => cases hmem
  refine (rotation_keeps_newest asciiDigits (oneDaily "2026-01-03.db") [inJanuary .daily 3 false]
    (inJanuary .weekly 3 false) hdated (by decide)).2.2.2 (by decide) (by decide) ?_ (by decide)
  intro c hfile
  obtain ⟨date, tier, name⟩ := c
  cases tier with
  | daily =>
      obtain rfl := List.mem_singleton.mp hfile.mem
      have hparse : parseSnapshotDate asciiDigits "2026-01-03.db" = some 739618 := by
        decide +kernel
      exact (Option.some.inj (hfile.date.symm.trans hparse)).trans_le (by decide)
  | weekly => cases hfile.mem

/-- A daily snapshot of the same Sunday is found and not the weekly one, and a weekly one forced on
a Monday and not the daily one of the next day. A file of a later day is kept and found, and the
snapshot just taken is deleted. -/
theorem newest_not_found :
    (latestSnapshot asciiDigits (takeSnapshots asciiDigits (oneDaily "notes.txt")
      [inJanuary .daily 3 false, inJanuary .weekly 3 false])).map Candidate.name =
        some "2026-01-04.db" ∧
    (latestSnapshot asciiDigits (takeSnapshots asciiDigits (oneDaily "notes.txt")
      [inJanuary .weekly 4 true, inJanuary .daily 5 false])).map Candidate.name =
        some "2026-W02.db" ∧
    ((takeSnapshots asciiDigits (oneDaily "2026-02-01.db") [inJanuary .daily 3 false]) .daily).names
      = ["2026-02-01.db"] := by
  decide +kernel

end TrwMemory.Storage

import Mathlib.Algebra.Order.Group.Abs
import TrwMemory.Library.StableSort
import TrwMemory.Retrieval.ExpiryEligibility
import TrwMemory.Retrieval.SourcePolicy

/-!
The validity prior over a fused list (`apply_validity_prior`, `retrieval/validity_prior.py`): open
entries stay, the others are dropped or put last, and with age decay the open entries of a run of
tied scores stand newest first.

What the prior and the weight of distilled entries keep of the list's order: no entry that is not
open stands before one that is, the open ones are reordered only inside runs of tied scores, and
the others not at all.

Scores are exact numbers; `timestamp` is the interpreter's. A naive instant's timestamp depends on
the machine's zone, which is left to that parameter.
-/
namespace TrwMemory.Retrieval

open Library Storage

structure PriorOptions where
  asOf : Option Datetime
  referenceTime : Datetime
  validFromMin : Option Datetime
  includeSuperseded : Bool
  ageDecay : Bool
  fusionScores : List (String × Rat)

def TIE_EPSILON : Rat := 1 / 10 ^ 12

/-- The state of the loop of `_apply_age_decay`. -/
structure Decay where
  ordered : List MemoryEntry
  bucket : List MemoryEntry
  bucketScore : Option Rat

section Decay

variable (timestamp : Datetime → Rat)

def newestFirst (bucket : List MemoryEntry) : List MemoryEntry :=
  sortBy (fun e => -timestamp e.validFrom) bucket

def Decay.flush (decay : Decay) : Decay :=
  { decay with
    ordered := decay.ordered ++ newestFirst timestamp decay.bucket
    bucket := [] }

variable (fusionScores : List (String × Rat))

def fusedScore (entry : MemoryEntry) : Option Rat := Dict.get fusionScores entry.id

def decayStep (decay : Decay) (entry : MemoryEntry) : Decay :=
  match fusedScore fusionScores entry with
  | none =>
      { decay.flush timestamp with
        ordered := (decay.flush timestamp).ordered ++ [entry]
        bucketScore := none }
  | some score =>
      match decay.bucketScore with
      | none => { decay with bucket := decay.bucket ++ [entry], bucketScore := some score }
      | some bucketScore =>
          if |score - bucketScore| ≤ TIE_EPSILON then
            { decay with bucket := decay.bucket ++ [entry] }
          else { decay.flush timestamp with bucket := [entry], bucketScore := some score }

def applyAgeDecay (eligible : List MemoryEntry) : List MemoryEntry :=
  if fusionScores.isEmpty then eligible
  else ((eligible.foldl (decayStep timestamp fusionScores) ⟨[], [], none⟩).flush timestamp).ordered

end Decay

section Prior

variable (py : Python) (dateFromisoformat : String → Option Int) (timestamp : Datetime → Rat)
  (options : PriorOptions)

def inWindow (entry : MemoryEntry) : Except PyError Bool := do
  match ← isOpenAt py dateFromisoformat (windowOf entry) options.asOf options.referenceTime with
  | false => .ok false
  | true =>
      match options.validFromMin with
      | none => .ok true
      | some earliest => (before entry.validFrom earliest).map (!·)

/-- The loop: the entries in the window and the others. -/
def partitionOpen : List MemoryEntry → Except PyError (List MemoryEntry × List MemoryEntry)
  | [] => .ok ([], [])
  | entry :: entries => do
      let isOpen ← inWindow py dateFromisoformat options entry
      let (eligible, ineligible) ← partitionOpen entries
      if isOpen then .ok (entry :: eligible, ineligible) else .ok (eligible, entry :: ineligible)

def applyValidityPrior (entries : List MemoryEntry) : Except PyError (List MemoryEntry) := do
  let (eligible, ineligible) ← partitionOpen py dateFromisoformat options entries
  let eligible :=
    if options.ageDecay then applyAgeDecay timestamp options.fusionScores eligible else eligible
  if options.includeSuperseded then .ok (eligible ++ ineligible) else .ok eligible

end Prior

def Tied (score bucketScore : Rat) : Prop := |score - bucketScore| ≤ TIE_EPSILON

section Runs

variable {timestamp : Datetime → Rat} {fusionScores : List (String × Rat)}

/-- The loop after the entries of `l`: what was flushed is their closed runs, newest first, and
the bucket is the open one. -/
inductive DecayRuns (timestamp : Datetime → Rat) (fusionScores : List (String × Rat))
    (l : List MemoryEntry) : Decay → Prop where
  | closed {runs : List (List MemoryEntry)}
      (hruns : TieRuns Tied (fusedScore fusionScores) l runs)
      (hlast : ∀ run ∈ runs.getLast?, headScore (fusedScore fusionScores) run = none) :
      DecayRuns timestamp fusionScores l ⟨runs.flatMap (newestFirst timestamp), [], none⟩
  | building {runs : List (List MemoryEntry)} {bucket : List MemoryEntry} {score : Rat}
      (hruns : TieRuns Tied (fusedScore fusionScores) l (runs ++ [bucket]))
      (hhead : headScore (fusedScore fusionScores) bucket = some score) :
      DecayRuns timestamp fusionScores l
        ⟨runs.flatMap (newestFirst timestamp), bucket, some score⟩

theorem newestFirst_singleton (e : MemoryEntry) : newestFirst timestamp [e] = [e] := rfl

theorem newestFirst_nil : newestFirst timestamp [] = [] := rfl

theorem headScore_singleton {score : MemoryEntry → Option Rat} (e : MemoryEntry) :
    headScore score [e] = score e := rfl

theorem flatMap_concat (runs : List (List MemoryEntry)) (run : List MemoryEntry) :
    (runs ++ [run]).flatMap (newestFirst timestamp) =
      runs.flatMap (newestFirst timestamp) ++ newestFirst timestamp run := by
  rw [List.flatMap_append, List.flatMap_singleton]

theorem decayStep_runs {l : List MemoryEntry} {decay : Decay}
    (h : DecayRuns timestamp fusionScores l decay) (e : MemoryEntry) :
    DecayRuns timestamp fusionScores (l ++ [e]) (decayStep timestamp fusionScores decay e) := by
  rw [decayStep.eq_def]
  cases hscore : fusedScore fusionScores e with
  | none =>
      have hapart : ∀ run, Apart Tied (fusedScore fusionScores) run [e] := by
        intro run s _ s' hs'
        rw [headScore_singleton, hscore] at hs'
        cases hs'
      have hlast : ∀ runs : List (List MemoryEntry), ∀ run ∈ (runs ++ [[e]]).getLast?,
          headScore (fusedScore fusionScores) run = none := by
        intro runs run hrun
        obtain rfl : [e] = run := by simpa using hrun
        exact hscore
      cases h with
      | closed hruns _ =>
          rename_i runs _
          have hnext : DecayRuns timestamp fusionScores (l ++ [e])
              ⟨(runs ++ [[e]]).flatMap (newestFirst timestamp), [], none⟩ :=
            .closed (hruns.begin fun run _ => hapart run) (hlast _)
          rw [flatMap_concat, newestFirst_singleton] at hnext
          simpa only [Decay.flush, newestFirst_nil, List.append_nil] using hnext
      | building hruns _ =>
          rename_i runs bucket bucketScore _
          have hnext : DecayRuns timestamp fusionScores (l ++ [e])
              ⟨(runs ++ [bucket] ++ [[e]]).flatMap (newestFirst timestamp), [], none⟩ :=
            .closed (hruns.begin fun run _ => hapart run) (hlast _)
          rw [flatMap_concat, flatMap_concat, newestFirst_singleton] at hnext
          exact hnext
  | some score =>
      cases h with
      | closed hruns hlast =>
          refine DecayRuns.building (hruns.begin fun run hrun s hs => ?_) hscore
          rw [hlast run hrun] at hs
          cases hs
      | building hruns hhead =>
          rename_i runs bucket bucketScore
          dsimp only
          split
          · rename_i htied
            refine DecayRuns.building (hruns.extend hhead hscore htied) ?_
            cases bucket with
            | nil => cases hhead
            | cons a rest => exact hhead
          · rename_i hfar
            have hapart : ∀ run ∈ (runs ++ [bucket]).getLast?,
                Apart Tied (fusedScore fusionScores) run [e] := by
              intro run hrun s hs s' hs'
              obtain rfl : bucket = run := by simpa using hrun
              obtain rfl : bucketScore = s := Option.some.inj (hhead.symm.trans hs)
              obtain rfl : score = s' := Option.some.inj (hscore.symm.trans hs')
              exact hfar
            have hnext : DecayRuns timestamp fusionScores (l ++ [e])
                ⟨(runs ++ [bucket]).flatMap (newestFirst timestamp), [e], some score⟩ :=
              .building (hruns.begin hapart) hscore
            rw [flatMap_concat] at hnext
            exact hnext

theorem foldl_decayStep_runs (eligible : List MemoryEntry) {l : List MemoryEntry} {decay : Decay}
    (h : DecayRuns timestamp fusionScores l decay) :
    DecayRuns timestamp fusionScores (l ++ eligible)
      (eligible.foldl (decayStep timestamp fusionScores) decay) := by
  induction eligible generalizing l decay with
  | nil => rwa [List.append_nil]
  | cons e eligible ih =>
      have hnext := ih (decayStep_runs h e)
      rwa [List.append_assoc, List.singleton_append] at hnext

/-- Age decay sorts each run of tied scores by itself. -/
theorem applyAgeDecay_runs (timestamp : Datetime → Rat) (hscores : fusionScores.isEmpty = false)
    (eligible : List MemoryEntry) :
    ∃ runs, TieRuns Tied (fusedScore fusionScores) eligible runs ∧
      applyAgeDecay timestamp fusionScores eligible = runs.flatMap (newestFirst timestamp) := by
  have hstart : DecayRuns timestamp fusionScores []
      ⟨([] : List (List MemoryEntry)).flatMap (newestFirst timestamp), [], none⟩ :=
    .closed TieRuns.nil fun run hrun => nomatch hrun
  have h := foldl_decayStep_runs eligible hstart
  rw [List.nil_append, List.flatMap_nil] at h
  rw [applyAgeDecay, hscores, if_neg Bool.false_ne_true]
  generalize eligible.foldl (decayStep timestamp fusionScores) ⟨[], [], none⟩ = decay at h
  cases h with
  | closed hruns _ => exact ⟨_, hruns, by rw [Decay.flush, newestFirst_nil, List.append_nil]⟩
  | building hruns _ => exact ⟨_, hruns, by rw [Decay.flush, flatMap_concat]⟩

end Runs

theorem flatMap_newestFirst_perm {timestamp : Datetime → Rat} (runs : List (List MemoryEntry)) :
    (runs.flatMap (newestFirst timestamp)).Perm runs.flatten := by
  induction runs with
  | nil => exact List.Perm.refl _
  | cons run runs ih => exact (sortBy_perm _ run).append ih

section Prior

variable {py : Python} {dateFromisoformat : String → Option Int} {timestamp : Datetime → Rat}
  {options : PriorOptions} {entries : List MemoryEntry}

/-- The window is decided, and the entry is in it. -/
def opens (py : Python) (dateFromisoformat : String → Option Int) (options : PriorOptions)
    (entry : MemoryEntry) : Bool :=
  match inWindow py dateFromisoformat options entry with
  | .ok isOpen => isOpen
  | .error _ => false

/-- What the prior makes of a list: `decayed` are the open entries as age decay leaves them. -/
structure Reorders (py : Python) (dateFromisoformat : String → Option Int)
    (timestamp : Datetime → Rat) (options : PriorOptions) (entries result : List MemoryEntry) :
    Prop where
  perm : result.Perm
    (if options.includeSuperseded then entries
      else entries.filter (opens py dateFromisoformat options))
  openFirst : result.Pairwise fun a b =>
    opens py dateFromisoformat options b = true → opens py dateFromisoformat options a = true
  ineligible : (result.filter fun e => !opens py dateFromisoformat options e) =
    if options.includeSuperseded then
      entries.filter fun e => !opens py dateFromisoformat options e
    else []
  undecayed : ¬ (options.ageDecay ∧ options.fusionScores ≠ []) →
    result.filter (opens py dateFromisoformat options) =
      entries.filter (opens py dateFromisoformat options)
  decayed : options.ageDecay ∧ options.fusionScores ≠ [] →
    ∃ runs, TieRuns Tied (fusedScore options.fusionScores)
        (entries.filter (opens py dateFromisoformat options)) runs ∧
      result.filter (opens py dateFromisoformat options) = runs.flatMap (newestFirst timestamp)

theorem partitionOpen_eq {parts : List MemoryEntry × List MemoryEntry}
    (h : partitionOpen py dateFromisoformat options entries = .ok parts) :
    parts = (entries.filter (opens py dateFromisoformat options),
      entries.filter fun e => !opens py dateFromisoformat options e) := by
  induction entries generalizing parts with
  | nil =>
      cases h
      rfl
  | cons e entries ih =>
      rw [partitionOpen] at h
      cases hwindow : inWindow py dateFromisoformat options e with
      | error err =>
          rw [hwindow] at h
          cases h
      | ok isOpen =>
          cases hrest : partitionOpen py dateFromisoformat options entries with
          | error err =>
              rw [hwindow, hrest] at h
              cases h
          | ok rest =>
              rw [hwindow, hrest] at h
              have hopens : opens py dateFromisoformat options e = isOpen := by
                rw [opens, hwindow]
              obtain rfl := ih hrest
              cases isOpen with
              | true =>
                  cases h
                  simp [hopens]
              | false =>
                  cases h
                  simp [hopens]

/-- The open entries after the decay are the same entries, in runs of tied scores. -/
theorem decayed_spec (timestamp : Datetime → Rat) (options : PriorOptions)
    (eligible : List MemoryEntry) :
    let decayed :=
      if options.ageDecay then applyAgeDecay timestamp options.fusionScores eligible else eligible
    decayed.Perm eligible ∧
      (¬ (options.ageDecay ∧ options.fusionScores ≠ []) → decayed = eligible) ∧
      (options.ageDecay ∧ options.fusionScores ≠ [] →
        ∃ runs, TieRuns Tied (fusedScore options.fusionScores) eligible runs ∧
          decayed = runs.flatMap (newestFirst timestamp)) := by
  intro decayed
  by_cases hdecays : options.ageDecay ∧ options.fusionScores ≠ []
  · have hscores : options.fusionScores.isEmpty = false :=
      Bool.eq_false_iff.mpr fun h => hdecays.2 (List.isEmpty_iff.mp h)
    obtain ⟨runs, hruns, heq⟩ := applyAgeDecay_runs timestamp hscores eligible
    have hdecayed : decayed = runs.flatMap (newestFirst timestamp) := by
      rw [← heq]
      exact if_pos hdecays.1
    refine ⟨?_, fun h => absurd hdecays h, fun _ => ⟨runs, hruns, hdecayed⟩⟩
    rw [hdecayed]
    exact hruns.covers ▸ flatMap_newestFirst_perm runs
  · have hdecayed : decayed = eligible := by
      by_cases hage : options.ageDecay = true
      · have hnone : options.fusionScores.isEmpty = true :=
          List.isEmpty_iff.mpr (not_not.mp fun h => hdecays ⟨hage, h⟩)
        exact (if_pos hage).trans (if_pos hnone)
      · exact if_neg hage
    exact ⟨by rw [hdecayed], fun _ => hdecayed, fun h => absurd h hdecays⟩

section Split

variable {p : MemoryEntry → Bool} {decayed : List MemoryEntry}
  (hperm : decayed.Perm (entries.filter p))

include hperm

theorem filter_split :
    (decayed ++ entries.filter fun e => !p e).filter p = decayed ∧
      ((decayed ++ entries.filter fun e => !p e).filter fun e => !p e) =
        entries.filter fun e => !p e := by
  have hopen : ∀ e ∈ decayed, p e = true := fun e he => (List.mem_filter.mp (hperm.subset he)).2
  constructor
  · rw [List.filter_append, List.filter_eq_self.mpr hopen, List.filter_filter]
    simp
  · rw [List.filter_append, List.filter_eq_nil_iff.mpr fun e he => by simp [hopen e he],
      List.filter_filter]
    simp

theorem perm_split : (decayed ++ entries.filter fun e => !p e).Perm entries :=
  (hperm.append_right _).trans (List.filter_append_perm p entries)

theorem pairwise_split :
    (decayed ++ entries.filter fun e => !p e).Pairwise fun a b => p b = true → p a = true := by
  have hopen : ∀ e ∈ decayed, p e = true := fun e he => (List.mem_filter.mp (hperm.subset he)).2
  refine List.pairwise_append.mpr ⟨?_, ?_, fun a ha _ _ _ => hopen a ha⟩
  · exact List.pairwise_of_forall_mem_list fun a ha _ _ _ => hopen a ha
  · refine List.pairwise_of_forall_mem_list fun _ _ b hb hpb => ?_
    have hclosed := (List.mem_filter.mp hb).2
    rw [hpb] at hclosed
    cases hclosed

end Split

theorem applyValidityPrior_reorders {result : List MemoryEntry}
    (h : applyValidityPrior py dateFromisoformat timestamp options entries = .ok result) :
    Reorders py dateFromisoformat timestamp options entries result := by
  rw [applyValidityPrior] at h
  cases hparts : partitionOpen py dateFromisoformat options entries with
  | error err =>
      rw [hparts] at h
      cases h
  | ok parts =>
      rw [hparts] at h
      obtain rfl := partitionOpen_eq hparts
      obtain ⟨hperm, hundecayed, hdecayed⟩ := decayed_spec timestamp options
        (entries.filter (opens py dateFromisoformat options))
      obtain ⟨hopen, hclosed⟩ := filter_split hperm
      cases hincl : options.includeSuperseded with
      | true =>
          have hresult := Except.ok.inj ((if_pos hincl).symm.trans h)
          rw [← hresult]
          refine ⟨?_, pairwise_split hperm, ?_, ?_, ?_⟩
          · rw [if_pos hincl]
            exact perm_split hperm
          · rw [if_pos hincl, hclosed]
          · rwa [hopen]
          · rwa [hopen]
      | false =>
          have hfalse :
              ¬ options.includeSuperseded = true := by rw [hincl]; exact Bool.false_ne_true
          have hresult := Except.ok.inj ((if_neg hfalse).symm.trans h)
          rw [← hresult]
          have hall : ∀ e ∈ _, opens py dateFromisoformat options e = true := fun e he =>
            (List.mem_filter.mp (hperm.subset he)).2
          refine ⟨?_, ?_, ?_, ?_, ?_⟩
          · rwa [if_neg hfalse]
          · exact List.pairwise_of_forall_mem_list fun a ha _ _ _ => hall a ha
          · rw [if_neg hfalse]
            exact List.filter_eq_nil_iff.mpr fun e he => by simp [hall e he]
          · rwa [List.filter_eq_self.mpr hall]
          · rwa [List.filter_eq_self.mpr hall]

end Prior

/-- The prior only reorders runs of tied open entries, and the weight leaves the order of the
entries that are not distilled where their scores come in order. -/
theorem prior_and_weight_order {py : Python} {dateFromisoformat : String → Option Int}
    {timestamp : Datetime → Rat} {options : PriorOptions} {entries result : List MemoryEntry}
    (hprior : applyValidityPrior py dateFromisoformat timestamp options entries = .ok result)
    {weighed : List MemoryEntry} {scores : List Rat} {weight : Rat}
    {rows : List (MemoryEntry × Rat × Bool)}
    (hweight : weightDistilled weighed scores weight = .ok rows) :
    Reorders py dateFromisoformat timestamp options entries result ∧
      ((plainRows weighed scores).Pairwise (fun a b => b.2 ≤ a.2) →
        (rows.filter fun row => !row.2.2).map (fun row => (row.1, row.2.1)) =
          plainRows weighed scores) :=
  ⟨applyValidityPrior_reorders hprior, weightDistilled_keeps_plain hweight⟩

/-- An entry valid from the given second of the year 1. -/
def datedEntry (id : String) (second : Int) (h : id ≠ "") : MemoryEntry :=
  MemoryEntry.ofDefaults id "x" "default" ⟨second * 1000000, some 0⟩ h

def closedEntry (id : String) (second : Int) (h : id ≠ "") : MemoryEntry :=
  { datedEntry id second h with invalidFrom := some ⟨0, some 0⟩ }

def priorOptions (ageDecay : Bool) (fusionScores : List (String × Rat)) : PriorOptions where
  asOf := none
  referenceTime := ⟨0, some 0⟩
  validFromMin := none
  includeSuperseded := true
  ageDecay
  fusionScores

def priorOf (options : PriorOptions) (entries : List MemoryEntry) :
    Except PyError (List MemoryEntry) :=
  applyValidityPrior isoPython (fun _ => none) (fun d => d.instant) options entries

/-- Scores that are not equal are tied, equal ones stay without the decay and among closed entries,
and scores out of order are sorted. -/
theorem order_not_kept :
    priorOf (priorOptions true [("a", 1), ("b", 1 - 1 / 10 ^ 13)])
        [datedEntry "a" 1 (by decide), datedEntry "b" 2 (by decide)] =
      .ok [datedEntry "b" 2 (by decide), datedEntry "a" 1 (by decide)] ∧
    priorOf (priorOptions false [("a", 1), ("b", 1)])
        [datedEntry "a" 1 (by decide), datedEntry "b" 2 (by decide)] =
      .ok [datedEntry "a" 1 (by decide), datedEntry "b" 2 (by decide)] ∧
    priorOf (priorOptions true [("a", 1), ("b", 1)])
        [closedEntry "a" 1 (by decide), closedEntry "b" 2 (by decide)] =
      .ok [closedEntry "a" 1 (by decide), closedEntry "b" 2 (by decide)] ∧
    weightDistilled [datedEntry "a" 1 (by decide), datedEntry "b" 2 (by decide)] [0, 1] (1 / 2) =
      .ok [(datedEntry "b" 2 (by decide), 1, false), (datedEntry "a" 1 (by decide), 0, false)] := by
  decide +kernel

/-- A list in which two tied entries change places, and one whose scores come in order. -/
theorem prior_and_weight_order_tied :
    [datedEntry "b" 2 (by decide), datedEntry "a" 1 (by decide)].Perm
        [datedEntry "a" 1 (by decide), datedEntry "b" 2 (by decide)] ∧
      plainRows [datedEntry "a" 1 (by decide), datedEntry "b" 2 (by decide)] [1, 0] =
        [(datedEntry "a" 1 (by decide), 1), (datedEntry "b" 2 (by decide), 0)] := by
  have hprior : priorOf (priorOptions true [("a", 1), ("b", 1)])
      [datedEntry "a" 1 (by decide), datedEntry "b" 2 (by decide)] =
        .ok [datedEntry "b" 2 (by decide), datedEntry "a" 1 (by decide)] := by decide +kernel
  have hweight : weightDistilled [datedEntry "a" 1 (by decide), datedEntry "b" 2 (by decide)]
      [1, 0] (1 / 2) =
        .ok [(datedEntry "a" 1 (by decide), 1, false),
          (datedEntry "b" 2 (by decide), 0, false)] := by
    decide +kernel
  obtain ⟨horder, hkeeps⟩ := prior_and_weight_order hprior hweight
  exact ⟨horder.perm, (hkeeps (by decide +kernel)).symm⟩

end TrwMemory.Retrieval

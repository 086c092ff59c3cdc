import TrwMemory.Library.OrderedDict
import TrwMemory.Lifecycle.Merge

/-!
The one-time pass over stored entries (`batch_dedup`, `lifecycle/dedup.py`). Every active entry is
compared with the later ones; a later one at the skip threshold is set aside, one at the merge
threshold is merged into the earlier one first. What was set aside is compared no more.

After every comparison each scanned entry is kept as it grew, or set aside for another one that
is kept and is not compared as a later entry any more.

The similarity, its text, the encoder and the clock are parameters; the similarity raises where
the dimensions differ. The write to `active_entries` is left out: its place is not read again.
-/
namespace TrwMemory.Lifecycle

open Library

inductive DedupError where
  | lengthMismatch
  | dimensionMismatch
  | keyError (id : String)
  deriving DecidableEq, Repr

inductive BatchStatus where
  | skipped (reason : String)
  | completed
  deriving DecidableEq, Repr

structure BatchReport where
  status : BatchStatus
  entriesScanned : Nat
  entriesMerged : Nat
  entriesSkipped : Nat
  updatedEntries : List MemoryEntry
  deriving DecidableEq

structure DedupConfig (S : Type) where
  dedupSkipThreshold : S
  dedupMergeThreshold : S

structure Embedder (V S : Type) where
  available : Bool
  embedBatch : List String → List (Option V)
  calibratedThreshold : S → S

/-- `cosine_similarity`, none where it raises, and the text of a value with three decimals. -/
structure Similarity (V S : Type) where
  cosine : V → V → Option S
  text : S → String

/-- What the loops of a pass change. -/
structure Pass where
  updatedMap : List (String × MemoryEntry)
  skippedIds : List String
  mergedCount : Nat

def obsoleted (entry : MemoryEntry) (note : String) (now : Datetime) : MemoryEntry :=
  { entry with
    status := .obsolete
    detail := entry.detail ++ note
    updatedAt := now }

def duplicateNote (id sim : String) : String :=
  "\n[Auto-obsoleted: duplicate of " ++ id ++ ", similarity=" ++ sim ++ "]"

def mergeNote (id sim : String) : String :=
  "\n[Auto-merged into " ++ id ++ ", similarity=" ++ sim ++ "]"

def Pass.drop (pass : Pass) (entry : MemoryEntry) (note : String) (now : Datetime) : Pass where
  updatedMap := Dict.assign pass.updatedMap entry.id (obsoleted entry note now)
  skippedIds := pass.skippedIds ++ [entry.id]
  mergedCount := pass.mergedCount + 1

def Pass.absorb (pass : Pass) (survivor : MemoryEntry) (entry : MemoryEntry) (now : Datetime) :
    Pass :=
  { pass with
    updatedMap := Dict.assign pass.updatedMap survivor.id (mergeEntries now survivor entry) }

section Batch

variable {V S : Type} [LE S] [DecidableLE S]

/-- `_validated_thresholds`: skip, then merge. -/
def validatedThresholds [OfScientific S] (config : DedupConfig S) (embedder : Embedder V S) :
    S × S :=
  if config.dedupSkipThreshold ≤ config.dedupMergeThreshold then
    (embedder.calibratedThreshold 0.95, embedder.calibratedThreshold 0.85)
  else
    (embedder.calibratedThreshold config.dedupSkipThreshold,
      embedder.calibratedThreshold config.dedupMergeThreshold)

variable (similarity : Similarity V S) (clock : Nat → Datetime) (thresholds : S × S)

/-- The body of the inner loop; `idI` and `vecI` are the earlier entry's. -/
def compareWith (idI : String) (vecI : V) (pass : Pass) (other : MemoryEntry × Option V) :
    Except DedupError Pass :=
  match other with
  | (_, none) => .ok pass
  | (entryJ, some vecJ) =>
      if entryJ.id ∈ pass.skippedIds then .ok pass
      else
        match similarity.cosine vecI vecJ with
        | none => .error .dimensionMismatch
        | some sim =>
            if thresholds.1 ≤ sim then
              .ok (pass.drop entryJ (duplicateNote idI (similarity.text sim))
                (clock pass.mergedCount))
            else if thresholds.2 ≤ sim then
              match Dict.get pass.updatedMap idI with
              | none => .error (.keyError idI)
              | some currentI =>
                  .ok ((pass.absorb currentI entryJ (clock pass.mergedCount)).drop entryJ
                    (mergeNote idI (similarity.text sim)) (clock pass.mergedCount))
            else .ok pass

/-- The outer loop. -/
def scan : List (MemoryEntry × Option V) → Pass → Except DedupError Pass
  | [], pass => .ok pass
  | (_, none) :: rest, pass => scan rest pass
  | (entryI, some vecI) :: rest, pass =>
      if entryI.id ∈ pass.skippedIds then scan rest pass
      else do
        let pass ← rest.foldlM (compareWith similarity clock thresholds entryI.id vecI) pass
        scan rest pass

end Batch

section Dedup

variable {V S : Type} [LE S] [DecidableLE S] [OfScientific S]

def onlyActive (entries : List MemoryEntry) : List MemoryEntry :=
  entries.filter fun e => e.status == .active

/-- The vectors of the active entries. -/
def batchVectors (embedder : Embedder V S) (entries : List MemoryEntry) : List (Option V) :=
  let texts := (onlyActive entries).map fun e => e.content ++ " " ++ e.detail
  if texts.isEmpty then [] else embedder.embedBatch texts

def originalMap (entries : List MemoryEntry) : List (String × MemoryEntry) :=
  Dict.ofPairs (entries.map fun e => (e.id, e))

def startOf (entries : List MemoryEntry) : Pass where
  updatedMap := originalMap (onlyActive entries)
  skippedIds := []
  mergedCount := 0

/-- The entries that differ from the map taken before the loops. -/
def changedEntries (original updated : List (String × MemoryEntry)) : List MemoryEntry :=
  updated.filterMap fun item =>
    if Dict.get original item.1 = some item.2 then none else some item.2

def skippedReport (reason : String) : BatchReport where
  status := .skipped reason
  entriesScanned := 0
  entriesMerged := 0
  entriesSkipped := 0
  updatedEntries := []

def completedReport (entries : List MemoryEntry) (pass : Pass) : BatchReport where
  status := .completed
  entriesScanned := (onlyActive entries).length
  entriesMerged := pass.mergedCount
  entriesSkipped := pass.skippedIds.length
  updatedEntries := changedEntries (originalMap (onlyActive entries)) pass.updatedMap

def batchDedup (similarity : Similarity V S) (clock : Nat → Datetime)
    (entries : List MemoryEntry) (embedder : Option (Embedder V S)) (config : DedupConfig S) :
    Except DedupError BatchReport :=
  if entries.isEmpty then .ok (skippedReport "no entries")
  else
    match embedder.filter (·.available) with
    | none => .ok (skippedReport "embeddings unavailable")
    | some embedder =>
        let vectors := batchVectors embedder entries
        if vectors.length ≠ (onlyActive entries).length then .error .lengthMismatch
        else do
          let pass ← scan similarity clock (validatedThresholds config embedder)
            ((onlyActive entries).zip vectors) (startOf entries)
          .ok (completedReport entries pass)

end Dedup

structure Includes (entry survivor : MemoryEntry) : Prop where
  content : squeezed entry.content = squeezed survivor.content ∨
    within (squeezed entry.content) survivor.detail
  detail : within entry.detail survivor.detail
  tags : entry.tags ⊆ survivor.tags
  evidence : entry.evidence ⊆ survivor.evidence

theorem includes_refl (entry : MemoryEntry) : Includes entry entry :=
  ⟨.inl rfl, within_refl _, fun _ h => h, fun _ h => h⟩

theorem includes_mergeEntries (now : Datetime) (existing incoming : MemoryEntry) :
    Includes incoming (mergeEntries now existing incoming) := by
  have h := mergeEntries_keeps now existing incoming
  exact ⟨h.incomingContent, h.detail.2, h.tags.2, h.evidence.2⟩

/-- A survivor that merges once more keeps what it included. -/
theorem Includes.mergeEntries {entry survivor : MemoryEntry} (h : Includes entry survivor)
    (now : Datetime) (incoming : MemoryEntry) :
    Includes entry (mergeEntries now survivor incoming) := by
  have hkeep := mergeEntries_keeps now survivor incoming
  refine ⟨?_, within_trans h.detail hkeep.detail.1, fun _ ht => hkeep.tags.1 (h.tags ht),
    fun _ ht => hkeep.evidence.1 (h.evidence ht)⟩
  rcases h.content with heq | hwithin
  · exact .inl (heq.trans (congrArg squeezed hkeep.content.symm))
  · exact .inr (within_trans hwithin hkeep.detail.1)

theorem get_absorb {pass : Pass} {survivor entry : MemoryEntry} {now : Datetime} {id : String} :
    Dict.get (pass.absorb survivor entry now).updatedMap id =
      if survivor.id = id then some (mergeEntries now survivor entry)
      else Dict.get pass.updatedMap id :=
  Dict.get_assign _ _ _ _

theorem get_drop {pass : Pass} {entry : MemoryEntry} {note : String} {now : Datetime}
    {id : String} :
    Dict.get (pass.drop entry note now).updatedMap id =
      if entry.id = id then some (obsoleted entry note now) else Dict.get pass.updatedMap id :=
  Dict.get_assign _ _ _ _

section Invariant

variable {V S : Type} [LE S] (similarity : Similarity V S) (thresholds : S × S)

/-- `p` was set aside for `q`: as a duplicate, or after `survivor` took its content. -/
def SetAside (p q : MemoryEntry × Option V) (survivor dropped : MemoryEntry) : Prop :=
  ∃ (vp vq : V) (sim : S) (now : Datetime),
    p.2 = some vp ∧ q.2 = some vq ∧ similarity.cosine vq vp = some sim ∧
      (thresholds.1 ≤ sim ∧
          dropped = obsoleted p.1 (duplicateNote q.1.id (similarity.text sim)) now ∨
        ¬ thresholds.1 ≤ sim ∧ thresholds.2 ≤ sim ∧
          dropped = obsoleted p.1 (mergeNote q.1.id (similarity.text sim)) now ∧
          Includes p.1 survivor)

theorem SetAside.mergeEntries {p q : MemoryEntry × Option V} {survivor dropped : MemoryEntry}
    (h : SetAside similarity thresholds p q survivor dropped) (now : Datetime)
    (incoming : MemoryEntry) :
    SetAside similarity thresholds p q (mergeEntries now survivor incoming) dropped := by
  obtain ⟨vp, vq, sim, at_, hp, hq, hsim, hcase⟩ := h
  refine ⟨vp, vq, sim, at_, hp, hq, hsim, hcase.imp id ?_⟩
  exact fun ⟨hskip, hmerge, hdropped, hincl⟩ =>
    ⟨hskip, hmerge, hdropped, hincl.mergeEntries now incoming⟩

/-- The version of `p` in the map is active and has all `p` had. -/
def KeptIn (pass : Pass) (p : MemoryEntry) : Prop :=
  ∃ c, Dict.get pass.updatedMap p.id = some c ∧ c.status = .active ∧ Includes p c

/-- The invariant of a pass over `l`; `later` are the ids that still come as later entries. -/
structure Settled (l : List (MemoryEntry × Option V)) (later : List String) (pass : Pass) :
    Prop where
  distinct : (Dict.keys pass.updatedMap).Nodup
  keyed : ∀ id c, Dict.get pass.updatedMap id = some c → c.id = id
  kept : ∀ p ∈ l, p.1.id ∉ pass.skippedIds → KeptIn pass p.1
  setAside : ∀ p ∈ l, p.1.id ∈ pass.skippedIds →
    ∃ q ∈ l, q.1.id ∉ pass.skippedIds ∧ q.1.id ∉ later ∧ q.1.id ≠ p.1.id ∧
      ∃ survivor dropped, Dict.get pass.updatedMap q.1.id = some survivor ∧
        Dict.get pass.updatedMap p.1.id = some dropped ∧
        SetAside similarity thresholds p q survivor dropped

variable {similarity thresholds}
variable {l : List (MemoryEntry × Option V)} {later : List String} {pass pass' : Pass}

theorem Settled.mono {later' : List String} (h : Settled similarity thresholds l later pass)
    (hsub : later' ⊆ later) : Settled similarity thresholds l later' pass where
  distinct := h.distinct
  keyed := h.keyed
  kept := h.kept
  setAside := fun p hp hskip => by
    obtain ⟨q, hq, hkept, hlater, hrest⟩ := h.setAside p hp hskip
    exact ⟨q, hq, hkept, fun hmem => hlater (hsub hmem), hrest⟩

/-- A merge into a kept entry keeps the invariant. -/
theorem Settled.absorb (h : Settled similarity thresholds l later pass) {survivor : MemoryEntry}
    {idI : String} (hget : Dict.get pass.updatedMap idI = some survivor)
    (hactive : idI ∉ pass.skippedIds) (entry : MemoryEntry) (now : Datetime) :
    Settled similarity thresholds l later (pass.absorb survivor entry now) := by
  have hid : survivor.id = idI := h.keyed _ _ hget
  subst hid
  refine ⟨Dict.nodup_assign h.distinct _ _, fun id c hc => ?_, fun p hp hskip => ?_,
    fun p hp hskip => ?_⟩
  · rw [get_absorb] at hc
    split at hc
    · rename_i heq
      cases hc
      exact heq
    · exact h.keyed id c hc
  · obtain ⟨c, hc, hstatus, hincl⟩ := h.kept p hp hskip
    by_cases heq : survivor.id = p.1.id
    · have hsame : survivor = c := Option.some.inj (hget.symm.trans (heq ▸ hc))
      subst hsame
      exact ⟨mergeEntries now survivor entry, by rw [get_absorb, if_pos heq], hstatus,
        hincl.mergeEntries now entry⟩
    · exact ⟨c, by rw [get_absorb, if_neg heq, hc], hstatus, hincl⟩
  · obtain ⟨q, hq, hkept, hlater, hne, c, dropped, hc, hdropped, haside⟩ := h.setAside p hp hskip
    have hp' : survivor.id ≠ p.1.id := fun heq => hactive (heq ▸ hskip)
    have hdropped' :
        Dict.get (pass.absorb survivor entry now).updatedMap p.1.id = some dropped := by
      rw [get_absorb, if_neg hp', hdropped]
    by_cases heq : survivor.id = q.1.id
    · have hsame : survivor = c := Option.some.inj (hget.symm.trans (heq ▸ hc))
      subst hsame
      exact ⟨q, hq, hkept, hlater, hne, _, dropped, by rw [get_absorb, if_pos heq], hdropped',
        haside.mergeEntries similarity thresholds now entry⟩
    · exact ⟨q, hq, hkept, hlater, hne, c, dropped, by rw [get_absorb, if_neg heq, hc], hdropped',
        haside⟩

/-- A kept entry is set aside for another one that will not come as a later entry. -/
theorem Settled.drop (hids : (l.map fun p => p.1.id).Nodup)
    (h : Settled similarity thresholds l later pass) {p q : MemoryEntry × Option V}
    {survivor : MemoryEntry} {note : String} {now : Datetime} (hp : p ∈ l) (hlater : p.1.id ∈ later)
    (hq : q ∈ l) (hqkept : q.1.id ∉ pass.skippedIds) (hqlater : q.1.id ∉ later)
    (hget : Dict.get pass.updatedMap q.1.id = some survivor)
    (haside : SetAside similarity thresholds p q survivor (obsoleted p.1 note now)) :
    Settled similarity thresholds l later (pass.drop p.1 note now) := by
  have hother : ∀ id, id ∉ later → p.1.id ≠ id := fun id hid heq => hid (heq ▸ hlater)
  refine ⟨Dict.nodup_assign h.distinct _ _, fun id c hc => ?_, fun p' hp' hkept => ?_,
    fun p' hp' hskip => ?_⟩
  · rw [get_drop] at hc
    split at hc
    · rename_i heq
      cases hc
      exact heq
    · exact h.keyed id c hc
  · obtain ⟨hkept, hne⟩ := not_or.mp (fun hor => hkept (List.mem_append.mpr hor))
    obtain ⟨c, hc, hrest⟩ := h.kept p' hp' hkept
    refine ⟨c, ?_, hrest⟩
    rw [get_drop, if_neg fun heq => hne (List.mem_singleton.mpr heq.symm), hc]
  · by_cases heq : p.1.id = p'.1.id
    · have hsame : p = p' := List.inj_on_of_nodup_map hids hp hp' heq
      subst hsame
      refine ⟨q, hq, ?_, hqlater, (hother _ hqlater).symm, survivor, _, ?_, ?_, haside⟩
      · intro hmem
        rcases List.mem_append.mp hmem with hmem | hmem
        · exact hqkept hmem
        · exact hother _ hqlater (List.mem_singleton.mp hmem).symm
      · rw [get_drop, if_neg (hother _ hqlater), hget]
      · rw [get_drop, if_pos rfl]
    · have hskip' : p'.1.id ∈ pass.skippedIds := by
        rcases List.mem_append.mp hskip with hmem | hmem
        · exact hmem
        · exact absurd (List.mem_singleton.mp hmem).symm heq
      obtain ⟨q', hq', hkept', hlater', hne, c, dropped, hc, hdropped, haside'⟩ :=
        h.setAside p' hp' hskip'
      refine ⟨q', hq', ?_, hlater', hne, c, dropped, ?_, ?_, haside'⟩
      · intro hmem
        rcases List.mem_append.mp hmem with hmem | hmem
        · exact hkept' hmem
        · exact hother _ hlater' (List.mem_singleton.mp hmem).symm
      · rw [get_drop, if_neg (hother _ hlater'), hc]
      · rw [get_drop, if_neg heq, hdropped]

section Loops

variable [DecidableLE S] {clock : Nat → Datetime} {entryI : MemoryEntry} {vecI : V}

/-- One comparison: the earlier entry stays kept. -/
theorem compareWith_settled (hids : (l.map fun p => p.1.id).Nodup)
    (hI : (entryI, some vecI) ∈ l) (hIlater : entryI.id ∉ later) {other : MemoryEntry × Option V}
    (hother : other ∈ l) (hlater : other.1.id ∈ later)
    (hrun : compareWith similarity clock thresholds entryI.id vecI pass other = .ok pass')
    (h : Settled similarity thresholds l later pass) (hkept : entryI.id ∉ pass.skippedIds) :
    Settled similarity thresholds l later pass' ∧ entryI.id ∉ pass'.skippedIds := by
  have hne : entryI.id ≠ other.1.id := fun heq => hIlater (heq ▸ hlater)
  have hstays : entryI.id ∉ pass.skippedIds ++ [other.1.id] := fun hmem =>
    (List.mem_append.mp hmem).elim hkept fun hmem => hne (List.mem_singleton.mp hmem)
  obtain ⟨entryJ, vec⟩ := other
  rw [compareWith.eq_def] at hrun
  split at hrun
  · cases hrun
    exact ⟨h, hkept⟩
  · rename_i entryJ vecJ heq
    cases heq
    split at hrun
    · cases hrun
      exact ⟨h, hkept⟩
    · split at hrun
      · cases hrun
      · rename_i sim hsim
        obtain ⟨c, hc, hstatus, hincl⟩ := h.kept _ hI hkept
        split at hrun
        · rename_i hskip
          cases hrun
          exact ⟨h.drop hids hother hlater hI hkept hIlater hc
            ⟨vecJ, vecI, sim, _, rfl, rfl, hsim, .inl ⟨hskip, rfl⟩⟩, hstays⟩
        · rename_i hskip
          split at hrun
          · rename_i hmerge
            rw [hc] at hrun
            cases hrun
            have habsorb := h.absorb hc hkept entryJ (clock pass.mergedCount)
            have hmerged : Dict.get
                (pass.absorb c entryJ (clock pass.mergedCount)).updatedMap entryI.id =
                  some (mergeEntries (clock pass.mergedCount) c entryJ) := by
              rw [get_absorb, if_pos (h.keyed _ _ hc)]
            exact ⟨habsorb.drop hids hother hlater hI hkept hIlater hmerged
              ⟨vecJ, vecI, sim, _, rfl, rfl, hsim,
                .inr ⟨hskip, hmerge, rfl, includes_mergeEntries _ _ _⟩⟩, hstays⟩
          · cases hrun
            exact ⟨h, hkept⟩

theorem inner_settled (hids : (l.map fun p => p.1.id).Nodup)
    (hI : (entryI, some vecI) ∈ l) (hIlater : entryI.id ∉ later)
    {rest : List (MemoryEntry × Option V)} (hrest : rest ⊆ l)
    (hlater : ∀ p ∈ rest, p.1.id ∈ later)
    (hrun : rest.foldlM (compareWith similarity clock thresholds entryI.id vecI) pass = .ok pass')
    (h : Settled similarity thresholds l later pass) (hkept : entryI.id ∉ pass.skippedIds) :
    Settled similarity thresholds l later pass' := by
  induction rest generalizing pass with
  | nil =>
      cases hrun
      exact h
  | cons other rest ih =>
      rw [List.foldlM_cons] at hrun
      cases hstep : compareWith similarity clock thresholds entryI.id vecI pass other with
      | error e =>
          rw [hstep] at hrun
          cases hrun
      | ok next =>
          rw [hstep] at hrun
          obtain ⟨hnext, hkept⟩ := compareWith_settled hids hI hIlater (hrest List.mem_cons_self)
            (hlater other List.mem_cons_self) hstep h hkept
          exact ih (fun p hp => hrest (List.mem_cons_of_mem _ hp))
            (fun p hp => hlater p (List.mem_cons_of_mem _ hp)) hrun hnext hkept

theorem scan_settled (hids : (l.map fun p => p.1.id).Nodup)
    {rest : List (MemoryEntry × Option V)} (hrest : rest.Sublist l)
    (hrun : scan similarity clock thresholds rest pass = .ok pass')
    (h : Settled similarity thresholds l (rest.map fun p => p.1.id) pass) :
    Settled similarity thresholds l [] pass' := by
  induction rest generalizing pass with
  | nil =>
      cases hrun
      exact h
  | cons head rest ih =>
      have htail : rest.Sublist l := (List.sublist_cons_self head rest).trans hrest
      have hnext : Settled similarity thresholds l (rest.map fun p => p.1.id) pass :=
        h.mono (List.subset_cons_self _ _)
      obtain ⟨entryI, vec⟩ := head
      cases vec with
      | none => exact ih htail hrun hnext
      | some vecI =>
          rw [scan] at hrun
          split at hrun
          · exact ih htail hrun hnext
          · rename_i hkept
            have hcons := (hrest.map fun p => p.1.id).nodup hids
            cases hinner : rest.foldlM
                (compareWith similarity clock thresholds entryI.id vecI) pass with
            | error e =>
                rw [hinner] at hrun
                cases hrun
            | ok next =>
                rw [hinner] at hrun
                refine ih htail hrun ?_
                exact inner_settled hids (hrest.subset List.mem_cons_self)
                  (List.nodup_cons.mp hcons).1 htail.subset
                  (fun p hp => List.mem_map.mpr ⟨p, hp, rfl⟩) hinner hnext hkept

end Loops

end Invariant

end TrwMemory.Lifecycle

import TrwMemory.Labels.LabelTables

/-!
What a label policy answers: labels, stamps and admissions, after any calls. The cache of compiled
namespaces never shows in an answer.
-/
namespace TrwMemory.Labels

open Library

namespace LabelPolicy

variable {globMatches : String → String → Bool} {u : UnicodeTables}

variable (globMatches u) in
/-- A call answers by the rules, and leaves a cache of what is compiled. -/
theorem labelOf_cached {source : LabelSource} {data : Option FileData} {p : LabelPolicy}
    (h : CachedOf globMatches (init source data) p) (entry : MemoryEntry) :
    (p.labelOf globMatches u entry).1 =
        labelByRules globMatches u source (data.elim [] FileData.rules) entry ∧
      CachedOf globMatches (init source data) (p.labelOf globMatches u entry).2 := by
  have hfloor : p.namespaceFloor entry.ns = (init source data).namespaceFloor entry.ns :=
    (congrArg (fun r => LabelPolicy.namespaceFloor r entry.ns) h.policy :)
  have htags : p.tagLevels = (init source data).tagLevels :=
    (congrArg LabelPolicy.tagLevels h.policy :)
  have hrules : p.hasRules = (init source data).hasRules :=
    (congrArg LabelPolicy.hasRules h.policy :)
  rw [labelOf, hfloor, hrules]
  cases hhas : (init source data).hasRules with
  | false =>
      rw [if_neg Bool.false_ne_true]
      refine ⟨eq_of_forall_ge_iff fun b => ?_, h⟩
      rw [labelByRules_le, stamp_le, namespaceFloor_le]
      refine ⟨fun hbelow => ⟨hbelow.1.1, hbelow.1.2, fun rule hrule happlies => ?_, hbelow.2⟩,
        fun hbelow => ⟨⟨hbelow.team, hbelow.user⟩, hbelow.stamp⟩⟩
      rw [applies_of_hasRules hhas hrule] at happlies
      cases happlies
  | true =>
      rw [if_pos rfl]
      obtain ⟨htables, hcached⟩ := h.forNamespace entry.ns
      cases hcall : p.forNamespace globMatches entry.ns with
      | mk tables after =>
          rw [hcall] at htables hcached
          subst htables
          refine ⟨eq_of_forall_ge_iff fun b => ?_, hcached⟩
          dsimp only
          rw [htags, labelByRules_le, stamp_le, foldl_tags_le, max_le_iff, namespaceFloor_le]
          constructor
          · rintro ⟨⟨⟨hfloor, hcompiled⟩, htable⟩, hstamp⟩
            exact ⟨hfloor.1, hfloor.2, tables_le.mp ⟨hcompiled, htable⟩, hstamp⟩
          · intro hbelow
            obtain ⟨hcompiled, htable⟩ := tables_le.mpr hbelow.rules
            exact ⟨⟨⟨⟨hbelow.team, hbelow.user⟩, hcompiled⟩, htable⟩, hbelow.stamp⟩

theorem afterCalls_cached {source : LabelSource} {data : Option FileData} {p : LabelPolicy}
    (h : CachedOf globMatches (init source data) p) (entries : List MemoryEntry) :
    CachedOf globMatches (init source data) (p.afterCalls globMatches u entries) := by
  induction entries generalizing p with
  | nil => exact h
  | cons entry entries ih => exact ih (labelOf_cached globMatches u h entry).2

theorem stampLevel_insert (metadata : Metadata) (level : Level) :
    stampLevel (metadata.insert STAMP_KEY level.text) = some level := by
  rw [stampLevel, Finmap.lookup_insert, Option.map_some, stampValue_text]

theorem stampLevel_stamped (metadata : Metadata) (mark entryLevel : Level) :
    stampLevel (stamped metadata mark entryLevel) =
      if entryLevel < mark then some ((stampLevel metadata).elim mark (max · mark))
      else stampLevel metadata := by
  rw [stamped]
  split
  · have htext : higherStamp (metadata.lookup STAMP_KEY) mark =
        ((stampLevel metadata).elim mark (max · mark)).text := by
      rw [stampLevel]
      cases metadata.lookup STAMP_KEY <;> rfl
    rw [htext, stampLevel_insert]
  · rfl

theorem stampLevel_joined (base other : Metadata) :
    stampLevel (joined base other) = (stampLevel base).merge max (stampLevel other) := by
  have hbase : stampLevel base = (base.lookup STAMP_KEY).map stampValue := rfl
  have hother : stampLevel other = (other.lookup STAMP_KEY).map stampValue := rfl
  rw [joined, hother]
  cases hb : base.lookup STAMP_KEY with
  | none =>
      cases ho : other.lookup STAMP_KEY with
      | none =>
          rw [hb] at hbase
          exact hbase.trans (by rw [hbase]; rfl)
      | some stamp =>
          rw [hbase, hb]
          exact stampLevel_insert base (stampValue stamp)
  | some stamp =>
      rw [hbase, hb]
      cases ho : other.lookup STAMP_KEY with
      | none => exact stampLevel_insert base (stampValue stamp)
      | some stamp' => exact stampLevel_insert base (max (stampValue stamp) (stampValue stamp'))

variable (globMatches u) in
/-- One pass: the rows that may go, and the highest of their labels. -/
theorem admit_pass {source : LabelSource} {data : Option FileData} {p : LabelPolicy}
    (h : CachedOf globMatches (init source data) p) (clearance : Level)
    (entries admitted : List MemoryEntry) (top : Level) :
    let label := labelByRules globMatches u source (data.elim [] FileData.rules)
    let pass := entries.foldl (fun (admitted, top, p) entry =>
      let (level, p) := labelOf globMatches u p entry
      if level ≤ clearance then (admitted ++ [entry], max top level, p) else (admitted, top, p))
      (admitted, top, p)
    pass.1 = admitted ++ entries.filter (fun entry => label entry ≤ clearance) ∧
      ∀ b, pass.2.1 ≤ b ↔ top ≤ b ∧ ∀ entry ∈ entries, label entry ≤ clearance →
        label entry ≤ b := by
  induction entries generalizing admitted top p with
  | nil =>
      refine ⟨(List.append_nil _).symm, fun b => (and_iff_left fun _ hmem => ?_).symm⟩
      cases hmem
  | cons entry entries ih =>
      intro label pass
      obtain ⟨hlabel, hcached⟩ := labelOf_cached globMatches u h entry
      have hpass : pass = entries.foldl (fun (admitted, top, p) entry =>
          let (level, p) := labelOf globMatches u p entry
          if level ≤ clearance then (admitted ++ [entry], max top level, p) else (admitted, top, p))
          (if label entry ≤ clearance then
            (admitted ++ [entry], max top (label entry), (labelOf globMatches u p entry).2)
          else (admitted, top, (labelOf globMatches u p entry).2)) := by
        change List.foldl _ _ entries = _
        dsimp only
        rw [hlabel]
      rw [hpass]
      by_cases hclear : label entry ≤ clearance
      · rw [if_pos hclear]
        obtain ⟨hadmitted, htop⟩ := ih hcached (admitted ++ [entry]) (max top (label entry))
        refine ⟨?_, fun b => (htop b).trans ?_⟩
        · rw [hadmitted, List.filter_cons_of_pos (by simpa using hclear), List.append_assoc]
          rfl
        · rw [max_le_iff, List.forall_mem_cons]
          tauto
      · rw [if_neg hclear]
        obtain ⟨hadmitted, htop⟩ := ih hcached admitted top
        refine ⟨?_, fun b => (htop b).trans ?_⟩
        · rw [hadmitted, List.filter_cons_of_neg (by simpa using hclear)]
        · rw [List.forall_mem_cons]
          tauto

/-- What the rules say of an admission. -/
def admissionByRules (label : MemoryEntry → Level) (clearance : Level)
    (entries : List MemoryEntry) : Admission :=
  let admitted := entries.filter fun entry => label entry ≤ clearance
  ⟨admitted, entries.length - admitted.length, highestLevel (.TEAM :: admitted.map label)⟩

variable (globMatches u) in
theorem admit_cached {source : LabelSource} {data : Option FileData} {p : LabelPolicy}
    (h : CachedOf globMatches (init source data) p) (entries : List MemoryEntry)
    (place : Surface ⊕ Sink) :
    (p.admitEntries globMatches u entries place).1 =
      admissionByRules (labelByRules globMatches u source (data.elim [] FileData.rules))
        ((init source data).clearance place) entries := by
  have hclearance : p.clearance place = (init source data).clearance place :=
    (congrArg (fun r => LabelPolicy.clearance r place) h.policy :)
  obtain ⟨hadmitted, htop⟩ :=
    admit_pass globMatches u h ((init source data).clearance place) entries [] .TEAM
  rw [List.nil_append] at hadmitted
  rw [admitEntries, hclearance, admissionByRules]
  dsimp only
  rw [hadmitted]
  congr 1
  refine eq_of_forall_ge_iff fun b => (htop b).trans ?_
  rw [highestLevel_le, List.forall_mem_cons, List.forall_mem_map]
  refine and_congr_right fun _ => forall_congr' fun entry => ?_
  rw [List.mem_filter, decide_eq_true_iff]
  tauto

variable (globMatches u) in
/-- The answers of a policy that was made of some rules, where `p` is what the calls since have
made of it. -/
structure AnswersByRules (source : LabelSource) (data : Option FileData) (p : LabelPolicy) :
    Prop where
  label : ∀ row, (p.labelOf globMatches u row).1 =
    labelByRules globMatches u source (data.elim [] FileData.rules) row
  moreRules : ∀ (data' : FileData) (calls : List MemoryEntry) (row : MemoryEntry),
    data.elim [] FileData.rules ⊆ data'.rules →
      (p.labelOf globMatches u row).1 ≤
        (((init source (some data')).afterCalls globMatches u calls).labelOf globMatches u row).1
  moreTags : ∀ (row : MemoryEntry) (tags : List String), row.tags ⊆ tags →
    (p.labelOf globMatches u row).1 ≤ (p.labelOf globMatches u { row with tags }).1
  stamped : ∀ (row : MemoryEntry) (mark : Level), mark ≤ (p.labelOf globMatches u
    { row with
      metadata := LabelPolicy.stamped row.metadata mark (p.labelOf globMatches u row).1 }).1
  raised : ∀ (metadata : Metadata) (mark entryLevel level : Level),
    stampLevel metadata = some level →
      ∃ raised, stampLevel (LabelPolicy.stamped metadata mark entryLevel) = some raised ∧
        level ≤ raised
  joined : ∀ base other : Metadata, stampLevel (LabelPolicy.joined base other) =
    (stampLevel base).merge max (stampLevel other)
  admitted : ∀ (rows : List MemoryEntry) (place : Surface ⊕ Sink),
    (p.admitEntries globMatches u rows place).1 = admissionByRules
      (labelByRules globMatches u source (data.elim [] FileData.rules))
      ((init source data).clearance place) rows

/-- In every state of its cache a policy answers by its rules. -/
theorem answersByRules (globMatches : String → String → Bool) (u : UnicodeTables)
    (source : LabelSource) (data : Option FileData) (calls : List MemoryEntry) :
    AnswersByRules globMatches u source data
      ((init source data).afterCalls globMatches u calls) := by
  have hcached : ∀ data calls, CachedOf globMatches (init source data)
      ((init source data).afterCalls globMatches u calls) :=
    fun data => afterCalls_cached (CachedOf.init source data)
  have hlabel : ∀ data calls row,
      (((init source data).afterCalls globMatches u calls).labelOf globMatches u row).1 =
        labelByRules globMatches u source (data.elim [] FileData.rules) row :=
    fun data calls row => (labelOf_cached globMatches u (hcached data calls) row).1
  refine ⟨hlabel data calls, fun data' calls' row hrules => ?_, fun row tags htags => ?_,
    fun row mark => ?_, fun metadata mark entryLevel level hlevel => ?_, stampLevel_joined,
    admit_cached globMatches u (hcached data calls)⟩
  · rw [hlabel, hlabel]
    exact labelByRules_mono globMatches u hrules row (List.Subset.refl row.tags)
  · rw [hlabel, hlabel]
    exact labelByRules_mono globMatches u (List.Subset.refl _) row htags
  · rw [hlabel, hlabel]
    generalize hrow : labelByRules globMatches u source (data.elim [] FileData.rules) row = own
    by_cases hmark : own < mark
    · have hbelow := (labelByRules_le globMatches u).mp (le_refl (labelByRules globMatches u source
        (data.elim [] FileData.rules)
        { row with metadata := LabelPolicy.stamped row.metadata mark own }))
      refine le_trans ?_ (hbelow.stamp _ ((stampLevel_stamped row.metadata mark own).trans
        (if_pos hmark)))
      cases stampLevel row.metadata with
      | none => exact le_refl mark
      | some level => exact le_max_right level mark
    · rw [LabelPolicy.stamped, if_neg hmark, hrow]
      exact not_lt.mp hmark
  · rw [stampLevel_stamped, hlevel]
    split
    · exact ⟨_, rfl, le_max_left level mark⟩
    · exact ⟨level, rfl, le_refl level⟩

end LabelPolicy

end TrwMemory.Labels

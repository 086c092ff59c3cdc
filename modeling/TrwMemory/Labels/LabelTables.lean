import TrwMemory.Labels.LabelPolicy
import Mathlib.Order.Basic

/-!
The tables of a policy say what its rules say, in every state of the cache. A level is determined
by the levels above it, and of every table it is said which these are.
-/
namespace TrwMemory.Labels

open Library

/-- The highest of some levels. -/
def highestLevel (levels : List Level) : Level := levels.foldr max .PUBLIC

theorem highestLevel_le {levels : List Level} {b : Level} :
    highestLevel levels ≤ b ↔ ∀ level ∈ levels, level ≤ b := by
  induction levels with
  | nil => exact iff_of_true (bot_le (a := b)) fun _ h => (by cases h)
  | cons level levels ih =>
      rw [highestLevel, List.foldr_cons, max_le_iff, List.forall_mem_cons]
      exact and_congr_right fun _ => ih

section Rules

variable (globMatches : String → String → Bool) (u : UnicodeTables)

/-- The namespace fits, if the rule has one, and a tag has one of the keys, if it has any. -/
def Rule.applies (rule : Rule) (entry : MemoryEntry) : Bool :=
  rule.ns.all (globMatches entry.ns) &&
    (rule.tags.isEmpty || entry.tags.any fun tag => rule.tags.contains (tagKey u tag))

/-- The namespace of a user. `user:local` is one for a strict policy. -/
def userNamespace (source : LabelSource) (ns : String) : Bool :=
  ns.startsWith "user:" && (source == .strict || ns != "user:local")

/-- A label as the rules have it. -/
def labelByRules (source : LabelSource) (rules : List Rule) (entry : MemoryEntry) : Level :=
  highestLevel (.TEAM :: (if userNamespace source entry.ns then [Level.PERSONAL] else []) ++
    (rules.filter (·.applies globMatches u entry)).map Rule.level ++
    (LabelPolicy.stampLevel entry.metadata).toList)

/-- The levels that a row must stay below. -/
structure LabelBelow (source : LabelSource) (rules : List Rule) (entry : MemoryEntry)
    (b : Level) : Prop where
  team : Level.TEAM ≤ b
  user : userNamespace source entry.ns = true → Level.PERSONAL ≤ b
  rules : ∀ rule ∈ rules, rule.applies globMatches u entry = true → rule.level ≤ b
  stamp : ∀ level, LabelPolicy.stampLevel entry.metadata = some level → level ≤ b

theorem labelByRules_le {source : LabelSource} {rules : List Rule} {entry : MemoryEntry}
    {b : Level} : labelByRules globMatches u source rules entry ≤ b ↔
      LabelBelow globMatches u source rules entry b := by
  rw [labelByRules, highestLevel_le]
  constructor
  · intro h
    refine ⟨h _ (by simp), fun huser => h _ (by simp [huser]), fun rule hrule happlies => ?_,
      fun level hlevel => h _ (by simp [hlevel])⟩
    refine h _ (List.mem_append_left _ (List.mem_append_right _ ?_))
    exact List.mem_map_of_mem (List.mem_filter.mpr ⟨hrule, happlies⟩)
  · intro h level hlevel
    rcases List.mem_append.mp hlevel with hlevel | hstamp
    · rcases List.mem_append.mp hlevel with hfloor | hrule
      · rcases List.mem_cons.mp hfloor with rfl | huser
        · exact h.team
        · split at huser
          · rename_i huserNs
            rw [List.mem_singleton.mp huser]
            exact h.user huserNs
          · cases huser
      · obtain ⟨rule, hmem, rfl⟩ := List.mem_map.mp hrule
        obtain ⟨hmem, happlies⟩ := List.mem_filter.mp hmem
        exact h.rules rule hmem happlies
    · exact h.stamp level (Option.mem_toList.mp hstamp)

/-- More rules and more tags give higher labels. -/
theorem labelByRules_mono {source : LabelSource} {rules rules' : List Rule}
    (hrules : rules ⊆ rules') (entry : MemoryEntry) {tags : List String}
    (htags : entry.tags ⊆ tags) : labelByRules globMatches u source rules entry ≤
      labelByRules globMatches u source rules' { entry with tags } := by
  have hbelow := (labelByRules_le globMatches u).mp
    (le_refl (labelByRules globMatches u source rules' { entry with tags }))
  refine (labelByRules_le globMatches u).mpr ⟨hbelow.team, hbelow.user, ?_, hbelow.stamp⟩
  intro rule hrule happlies
  refine hbelow.rules rule (hrules hrule) ?_
  rw [Rule.applies, Bool.and_eq_true, Bool.or_eq_true] at happlies ⊢
  refine ⟨happlies.1, happlies.2.imp_right fun hany => ?_⟩
  obtain ⟨tag, htag, hkey⟩ := List.any_eq_true.mp hany
  exact List.any_eq_true.mpr ⟨tag, htags htag, hkey⟩

end Rules

theorem levelOf_assign (table : TagLevels) (tag : String) (level : Level) (key : String) :
    levelOf (Dict.assign table tag level) key = if tag = key then level else levelOf table key := by
  rw [levelOf, Dict.get_assign]
  split
  · rfl
  · rfl

/-- A raised table has the level of the rule at its tags. -/
theorem raiseTags_le {table : TagLevels} {rule : Rule} {key : String} {b : Level} :
    levelOf (raiseTags table rule) key ≤ b ↔
      levelOf table key ≤ b ∧ (key ∈ rule.tags → rule.level ≤ b) := by
  rw [raiseTags]
  generalize rule.tags = tags
  induction tags generalizing table with
  | nil => exact (and_iff_left fun h => (by cases h)).symm
  | cons tag tags ih =>
      rw [List.foldl_cons, ih, levelOf_assign, List.mem_cons]
      split
      · rename_i heq
        subst heq
        rw [max_le_iff]
        tauto
      · rename_i hne
        have hne' : key ≠ tag := Ne.symm hne
        tauto

/-- The table of the tags has the rules without a namespace. -/
theorem tagLevels_le {rules : List Rule} {key : String} {b : Level} {table : TagLevels} :
    levelOf (rules.foldl
      (fun table rule => if rule.ns.isSome then table else raiseTags table rule) table) key ≤ b ↔
      levelOf table key ≤ b ∧
        ∀ rule ∈ rules, rule.ns = none → key ∈ rule.tags → rule.level ≤ b := by
  induction rules generalizing table with
  | nil => exact (and_iff_left fun _ h => (by cases h)).symm
  | cons rule rules ih =>
      rw [List.foldl_cons, ih, List.forall_mem_cons]
      cases hns : rule.ns with
      | none =>
          rw [Option.isSome_none, if_neg Bool.false_ne_true, raiseTags_le]
          tauto
      | some ns =>
          rw [Option.isSome_some, if_pos rfl]
          exact and_congr_right fun _ => (and_iff_right nofun).symm

namespace LabelPolicy

variable {globMatches : String → String → Bool} {u : UnicodeTables}

/-- What a namespace is compiled to has the rules whose namespace fits it. -/
theorem foldl_compile_le {rules : List Rule} {ns key : String} {b : Level}
    {start : Level × TagLevels} :
    let compiled := rules.foldl (fun (floor, byTag) rule =>
      if !rule.ns.any (globMatches ns) then (floor, byTag)
      else if rule.tags.isEmpty then (max floor rule.level, byTag)
      else (floor, raiseTags byTag rule)) start
    (compiled.1 ≤ b ↔ start.1 ≤ b ∧ ∀ rule ∈ rules, rule.ns.any (globMatches ns) = true →
      rule.tags = [] → rule.level ≤ b) ∧
    (levelOf compiled.2 key ≤ b ↔ levelOf start.2 key ≤ b ∧ ∀ rule ∈ rules,
      rule.ns.any (globMatches ns) = true → key ∈ rule.tags → rule.level ≤ b) := by
  induction rules generalizing start with
  | nil => exact ⟨(and_iff_left fun _ h => (by cases h)).symm,
      (and_iff_left fun _ h => (by cases h)).symm⟩
  | cons rule rules ih =>
      obtain ⟨floor, byTag⟩ := start
      dsimp only
      rw [List.foldl_cons, List.forall_mem_cons, List.forall_mem_cons]
      obtain ⟨hfloor, htable⟩ := @ih (if !rule.ns.any (globMatches ns) then (floor, byTag)
        else if rule.tags.isEmpty then (max floor rule.level, byTag)
        else (floor, raiseTags byTag rule))
      refine ⟨hfloor.trans ?_, htable.trans ?_⟩
      · cases hns : rule.ns.any (globMatches ns) with
        | false => simp
        | true =>
            cases htags : rule.tags with
            | nil => simp [and_assoc]
            | cons tag tags => simp
      · cases hns : rule.ns.any (globMatches ns) with
        | false => simp
        | true =>
            cases htags : rule.tags with
            | nil => simp
            | cons tag tags =>
                have hraise := @raiseTags_le byTag rule key b
                rw [htags] at hraise
                simp only [Bool.not_true, Bool.false_eq_true, if_false, List.isEmpty_cons, hraise]
                tauto

variable (globMatches u) in
/-- The policy `q`, with some of its namespaces compiled. -/
structure CachedOf (q p : LabelPolicy) : Prop where
  policy : { p with nsCache := [] } = { q with nsCache := [] }
  compiled : ∀ ns tables, Dict.get p.nsCache ns = some tables → tables = q.compile globMatches ns

theorem CachedOf.init (source : LabelSource) (data : Option FileData) :
    CachedOf globMatches (init source data) (init source data) :=
  ⟨rfl, fun _ _ h => (by cases h)⟩

section Cached

variable {q p : LabelPolicy}

theorem CachedOf.compile (h : CachedOf globMatches q p) (ns : String) :
    p.compile globMatches ns = q.compile globMatches ns :=
  (congrArg (fun r => LabelPolicy.compile globMatches r ns) h.policy :)

/-- A namespace is answered as it is compiled. -/
theorem CachedOf.forNamespace (h : CachedOf globMatches q p) (ns : String) :
    (p.forNamespace globMatches ns).1 = q.compile globMatches ns ∧
      CachedOf globMatches q (p.forNamespace globMatches ns).2 := by
  rw [LabelPolicy.forNamespace]
  cases hget : Dict.get p.nsCache ns with
  | some tables => exact ⟨h.compiled ns tables hget, h⟩
  | none =>
      refine ⟨h.compile ns, h.policy, fun ns' tables htables => ?_⟩
      dsimp only at htables
      rw [Dict.get_assign] at htables
      split at htables
      · rename_i heq
        subst heq
        rw [← Option.some.inj htables, h.compile]
      · split at htables
        · cases htables
        · exact h.compiled ns' tables htables

end Cached

theorem foldl_tags_le {tagLevels byTag : TagLevels} {tags : List String} {level b : Level} :
    tags.foldl (fun level tag =>
      max level (max (levelOf tagLevels (tagKey u tag)) (levelOf byTag (tagKey u tag)))) level ≤ b ↔
      level ≤ b ∧ ∀ tag ∈ tags,
        levelOf tagLevels (tagKey u tag) ≤ b ∧ levelOf byTag (tagKey u tag) ≤ b := by
  induction tags generalizing level with
  | nil => exact (and_iff_left fun _ h => (by cases h)).symm
  | cons tag tags ih =>
      rw [List.foldl_cons, ih, List.forall_mem_cons, max_le_iff, max_le_iff]
      tauto

/-- Without rules nothing applies. -/
theorem applies_of_hasRules {source : LabelSource} {data : Option FileData}
    (h : (init source data).hasRules = false) {entry : MemoryEntry} {rule : Rule}
    (hrule : rule ∈ data.elim [] FileData.rules) : rule.applies globMatches u entry = false := by
  rw [hasRules, Bool.or_eq_false_iff, Bool.not_eq_false', Bool.not_eq_false',
    List.isEmpty_iff, List.isEmpty_iff] at h
  have hns : rule.ns = none := by
    cases hns : rule.ns with
    | none => rfl
    | some ns =>
        have hmem : rule ∈ (init source data).namespaced :=
          List.mem_filter.mpr ⟨hrule, by rw [hns]; rfl⟩
        rw [h.2] at hmem
        cases hmem
  cases htags : rule.tags with
  | nil => exact absurd htags (rule.bound.resolve_left (by rw [hns]; exact Bool.false_ne_true))
  | cons key tags =>
      have hpublic : rule.level ≤ .PUBLIC := by
        have htable : levelOf (init source data).tagLevels key ≤ .PUBLIC := by rw [h.1]; rfl
        exact (tagLevels_le.mp htable).2 rule hrule hns (htags ▸ List.mem_cons_self)
      exact absurd (rule.raises.trans hpublic) (by decide)

theorem namespaceFloor_le {source : LabelSource} {data : Option FileData} {ns : String}
    {b : Level} : (init source data).namespaceFloor ns ≤ b ↔
      Level.TEAM ≤ b ∧ (userNamespace source ns = true → Level.PERSONAL ≤ b) := by
  have hteam : Level.PERSONAL ≤ b → Level.TEAM ≤ b := (show Level.TEAM ≤ .PERSONAL by decide).trans
  change (if userNamespace source ns = true then Level.PERSONAL else .TEAM) ≤ b ↔ _
  split
  · rename_i huser
    exact ⟨fun h => ⟨hteam h, fun _ => h⟩, fun h => h.2 huser⟩
  · rename_i huser
    exact ⟨fun h => ⟨h, fun hns => absurd hns huser⟩, And.left⟩

theorem stamp_le {stamp : Option Level} {level b : Level} :
    stamp.elim level (max level) ≤ b ↔ level ≤ b ∧ ∀ l, stamp = some l → l ≤ b := by
  cases stamp with
  | none => exact (and_iff_left nofun).symm
  | some l => exact max_le_iff.trans (and_congr_right fun _ => by simp)

/-- The tables of a namespace and those of the tags, together, are the rules. -/
theorem tables_le {source : LabelSource} {data : Option FileData} {entry : MemoryEntry}
    {b : Level} :
    (((init source data).compile globMatches entry.ns).1 ≤ b ∧ ∀ tag ∈ entry.tags,
      levelOf (init source data).tagLevels (tagKey u tag) ≤ b ∧
        levelOf ((init source data).compile globMatches entry.ns).2 (tagKey u tag) ≤ b) ↔
      ∀ rule ∈ data.elim [] FileData.rules,
        rule.applies globMatches u entry = true → rule.level ≤ b := by
  have hpublic : Level.PUBLIC ≤ b := bot_le
  have hfloor : ((init source data).compile globMatches entry.ns).1 ≤ b ↔
      ∀ rule ∈ (init source data).namespaced,
      rule.ns.any (globMatches entry.ns) = true → rule.tags = [] → rule.level ≤ b :=
    (@foldl_compile_le globMatches _ _ "" b _).1.trans (and_iff_right hpublic)
  have hbyTag : ∀ key, levelOf ((init source data).compile globMatches entry.ns).2 key ≤ b ↔
      ∀ rule ∈ (init source data).namespaced,
      rule.ns.any (globMatches entry.ns) = true → key ∈ rule.tags → rule.level ≤ b :=
    fun key => foldl_compile_le.2.trans (and_iff_right hpublic)
  have htags : ∀ key, levelOf (init source data).tagLevels key ≤ b ↔
      ∀ rule ∈ data.elim [] FileData.rules, rule.ns = none → key ∈ rule.tags → rule.level ≤ b :=
    fun key => tagLevels_le.trans (and_iff_right hpublic)
  have hnamespaced : ∀ rule, rule ∈ (init source data).namespaced ↔
      rule ∈ data.elim [] FileData.rules ∧ rule.ns.isSome = true := fun rule => List.mem_filter
  simp only [hfloor, hbyTag, htags, hnamespaced]
  constructor
  · rintro ⟨hfloor, htags⟩ rule hrule happlies
    rw [Rule.applies, Bool.and_eq_true, Bool.or_eq_true, List.isEmpty_iff, List.any_eq_true]
      at happlies
    cases hns : rule.ns with
    | none =>
        have hbound := rule.bound.resolve_left (by rw [hns]; exact Bool.false_ne_true)
        obtain ⟨tag, htag, hkey⟩ := happlies.2.resolve_left hbound
        exact (htags tag htag).1 rule hrule hns (List.contains_iff_mem.mp hkey)
    | some glob =>
        have hmatch : rule.ns.any (globMatches entry.ns) = true := by
          have hall := happlies.1
          rw [hns] at hall ⊢
          exact hall
        have hmem : rule ∈ data.elim [] FileData.rules ∧ rule.ns.isSome = true :=
          ⟨hrule, by rw [hns]; rfl⟩
        rcases happlies.2 with hempty | ⟨tag, htag, hkey⟩
        · exact hfloor rule hmem hmatch hempty
        · exact (htags tag htag).2 rule hmem hmatch (List.contains_iff_mem.mp hkey)
  · intro h
    have hfits : ∀ rule : Rule, rule.ns.any (globMatches entry.ns) = true →
        rule.ns.all (globMatches entry.ns) = true := by
      intro rule hmatch
      cases hns : rule.ns with
      | none => rfl
      | some glob =>
          rw [hns] at hmatch
          exact hmatch
    have hkeyed : ∀ rule : Rule, ∀ tag ∈ entry.tags, tagKey u tag ∈ rule.tags →
        rule.ns.all (globMatches entry.ns) = true → rule.applies globMatches u entry = true := by
      intro rule tag htag hkey hns
      rw [Rule.applies, hns, Bool.true_and, Bool.or_eq_true, List.any_eq_true]
      exact .inr ⟨tag, htag, List.contains_iff_mem.mpr hkey⟩
    refine ⟨fun rule hrule hmatch hempty => h rule hrule.1 ?_, fun tag htag => ⟨?_, ?_⟩⟩
    · rw [Rule.applies, hfits rule hmatch, hempty]
      rfl
    · exact fun rule hrule hns hkey =>
        h rule hrule (hkeyed rule tag htag hkey (by rw [hns]; rfl))
    · exact fun rule hrule hmatch hkey =>
        h rule hrule.1 (hkeyed rule tag htag hkey (hfits rule hmatch))

end LabelPolicy

end TrwMemory.Labels

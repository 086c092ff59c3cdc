import Mathlib.Data.List.Infix
import TrwMemory.Models.Timestamps
import TrwMemory.Security.EvidenceInvariant
import TrwMemory.Storage.Database

/-!
The merge of an entry into another (`merge_entries`, `lifecycle/dedup.py`). The survivor keeps
its content and its recurrence, which counts one more; what the other entry says is appended to
the detail, its content with the spacing squeezed.

An enumerated value and its text are one value here. Logging is not modelled.
-/
namespace TrwMemory.Lifecycle

open Storage

/-- `" ".join(text.split())`. -/
def squeezed (text : String) : String :=
  String.ofList ([' '].intercalate
    ((text.toList.splitOnP pySpace).filter fun word => !word.isEmpty))

/-- `part in text`. -/
def within (part text : String) : Prop := part.toList <:+: text.toList

instance (part text : String) : Decidable (within part text) :=
  inferInstanceAs (Decidable (_ <:+: _))

/-- `now.date().isoformat()`. -/
def mergeDate (now : Datetime) : String :=
  String.ofList (Library.IsoText.dateText (Library.Civil.ofDays (now.wall.toNat / Datetime.DAY)))

section Texts

variable (existing newEntry : MemoryEntry)

/-- The incoming content, where it differs from the survivor's. -/
def keptContent : String :=
  if squeezed newEntry.content ≠ squeezed existing.content then squeezed newEntry.content else ""

/-- The incoming detail, where the survivor's does not have it already. -/
def newDetail : String :=
  if within newEntry.detail existing.detail then "" else newEntry.detail

def mergeHeader (today : String) : String :=
  "Merged from " ++ newEntry.id ++ " on " ++ today ++ ":" ++
    if keptContent existing newEntry ≠ "" then " " ++ keptContent existing newEntry else ""

def mergeBody (today : String) : String :=
  if newDetail existing newEntry ≠ "" then
    mergeHeader existing newEntry today ++ "\n" ++ newDetail existing newEntry
  else mergeHeader existing newEntry today

def mergedDetail (today : String) : String :=
  if newDetail existing newEntry ≠ "" ∨ keptContent existing newEntry ≠ "" then
    if existing.detail ≠ "" then
      existing.detail ++ "\n---\n" ++ mergeBody existing newEntry today
    else if keptContent existing newEntry ≠ "" then mergeBody existing newEntry today
    else newDetail existing newEntry
  else existing.detail

end Texts

/-- `_PROTECTION_TIER_ORDER`. -/
def protectionRank : ProtectionTier → Nat
  | .low => 0
  | .normal => 1
  | .high => 2
  | .critical => 3
  | .protected => 4
  | .permanent => 5

/-- `_CONFIDENCE_ORDER`. -/
def confidenceRank : Confidence → Nat
  | .unverified => 0
  | .low => 1
  | .medium => 2
  | .high => 3
  | .verified => 4

def stronger {α : Type} (rank : α → Nat) (existing new : α) : α :=
  if rank existing < rank new then new else existing

def assertionKey (a : Assertion) : AssertionType × String × String := (a.type, a.pattern, a.target)

def unionAssertions (existing incoming : List Assertion) : List Assertion :=
  incoming.foldl
    (fun merged a => if assertionKey a ∈ merged.map assertionKey then merged else merged ++ [a])
    existing

/-- `Level`. -/
inductive Level where
  | isPublic | team | personal | sensitive
  deriving DecidableEq, Repr

def Level.rank : Level → Nat
  | .isPublic => 0
  | .team => 1
  | .personal => 2
  | .sensitive => 3

def Level.stamp : Level → String
  | .isPublic => "public"
  | .team => "team"
  | .personal => "personal"
  | .sensitive => "sensitive"

/-- An unknown stamp counts as sensitive. -/
def Level.ofStamp (stamp : String) : Level :=
  if stamp = "public" then .isPublic
  else if stamp = "team" then .team
  else if stamp = "personal" then .personal
  else .sensitive

def STAMP_KEY : String := "trw_label"

/-- `LabelPolicy.joined`: the higher stamp of the two. -/
def joined (base other : Metadata) : Metadata :=
  match base.lookup STAMP_KEY, other.lookup STAMP_KEY with
  | none, none => base
  | some stamp, none | none, some stamp => base.insert STAMP_KEY (Level.ofStamp stamp).stamp
  | some a, some b =>
      base.insert STAMP_KEY (stronger Level.rank (Level.ofStamp a) (Level.ofStamp b)).stamp

/-- `existing + [a for a in new if a not in existing]`. -/
def unionOf (existing new : List String) : List String :=
  existing ++ new.filter fun a => !existing.contains a

/-- One turn of the loop over the ancestors. -/
def addAncestor (survivor : String) (merged : List String) (ancestor : String) : List String :=
  if ancestor ≠ "" ∧ ancestor ≠ survivor ∧ ancestor ∉ merged then merged ++ [ancestor] else merged

/-- The incoming id and its ancestry, without repetitions and without the survivor. -/
def mergedAncestry (existing newEntry : MemoryEntry) : List String :=
  (newEntry.id :: newEntry.mergedFrom).foldl (addAncestor existing.id) existing.mergedFrom

/-- Verified confidence is taken only where the survivor's evidence supports it. -/
def mergedConfidence (existing newEntry : MemoryEntry) : Confidence :=
  let merged := stronger confidenceRank existing.confidence newEntry.confidence
  if merged = .verified ∧ existing.evidenceLevel ≠ .observed ∧ existing.evidenceLevel ≠ .verified
  then existing.confidence
  else merged

def mergeEntries (now : Datetime) (existing newEntry : MemoryEntry) : MemoryEntry :=
  { existing with
    tags := unionOf existing.tags newEntry.tags
    evidence := unionOf existing.evidence newEntry.evidence
    importance := max existing.importance newEntry.importance
    recurrence := existing.recurrence + 1
    detail := mergedDetail existing newEntry (mergeDate now)
    mergedFrom := mergedAncestry existing newEntry
    accessCount := existing.accessCount + newEntry.accessCount
    recallCount := existing.recallCount + newEntry.recallCount
    protectionTier := stronger protectionRank existing.protectionTier newEntry.protectionTier
    confidence := mergedConfidence existing newEntry
    type := if newEntry.type = .incident ∧ existing.type ≠ .incident then .incident
      else existing.type
    assertions := unionAssertions existing.assertions newEntry.assertions
    metadata := joined existing.metadata newEntry.metadata
    updatedAt := now }

theorem within_refl (text : String) : within text text := List.infix_rfl

theorem within_trans {a b c : String} (h : within a b) (h' : within b c) : within a c :=
  List.IsInfix.trans h h'

theorem within_empty (text : String) : within "" text := List.nil_infix

theorem within_append_left (a b : String) : within a (a ++ b) := by
  rw [within, String.toList_append]
  exact (List.prefix_append _ _).isInfix

theorem within_append_right (a b : String) : within b (a ++ b) := by
  rw [within, String.toList_append]
  exact (List.suffix_append _ _).isInfix

section Detail

variable (existing newEntry : MemoryEntry) (today : String)

theorem existing_within_mergedDetail :
    within existing.detail (mergedDetail existing newEntry today) := by
  rw [mergedDetail]
  split
  · split
    · rw [String.append_assoc]
      exact within_append_left _ _
    · rename_i hempty
      rw [not_not.mp hempty]
      exact within_empty _
  · exact within_refl _

theorem newDetail_within_mergeBody :
    within (newDetail existing newEntry) (mergeBody existing newEntry today) := by
  rw [mergeBody]
  split
  · exact within_append_right _ _
  · rename_i hempty
    rw [not_not.mp hempty]
    exact within_empty _

theorem keptContent_within_mergeBody :
    within (keptContent existing newEntry) (mergeBody existing newEntry today) := by
  have hheader : within (keptContent existing newEntry) (mergeHeader existing newEntry today) := by
    rw [mergeHeader]
    split
    · exact within_trans (within_append_right _ _) (within_append_right _ _)
    · rename_i hempty
      rw [not_not.mp hempty]
      exact within_empty _
  rw [mergeBody]
  split
  · rw [String.append_assoc]
    exact within_trans hheader (within_append_left _ _)
  · exact hheader

theorem newDetail_within_mergedDetail :
    within (newDetail existing newEntry) (mergedDetail existing newEntry today) := by
  have hbody := newDetail_within_mergeBody existing newEntry today
  rw [mergedDetail]
  split
  · split
    · exact within_trans hbody (within_append_right _ _)
    · split
      · exact hbody
      · exact within_refl _
  · rename_i hnone
    rw [not_not.mp (not_or.mp hnone).1]
    exact within_empty _

theorem keptContent_within_mergedDetail :
    within (keptContent existing newEntry) (mergedDetail existing newEntry today) := by
  have hbody := keptContent_within_mergeBody existing newEntry today
  rw [mergedDetail]
  split
  · split
    · exact within_trans hbody (within_append_right _ _)
    · split
      · exact hbody
      · rename_i hempty
        rw [not_not.mp hempty]
        exact within_empty _
  · rename_i hnone
    rw [not_not.mp (not_or.mp hnone).2]
    exact within_empty _

theorem incoming_within_mergedDetail :
    within newEntry.detail (mergedDetail existing newEntry today) := by
  have hnew := newDetail_within_mergedDetail existing newEntry today
  rw [newDetail] at hnew
  split at hnew
  · rename_i hwithin
    exact within_trans hwithin (existing_within_mergedDetail existing newEntry today)
  · exact hnew

theorem content_within_mergedDetail
    (hdiffer : squeezed newEntry.content ≠ squeezed existing.content) :
    within (squeezed newEntry.content) (mergedDetail existing newEntry today) := by
  have hkept := keptContent_within_mergedDetail existing newEntry today
  rwa [keptContent, if_pos hdiffer] at hkept

end Detail

theorem subset_unionOf (existing new : List String) : existing ⊆ unionOf existing new :=
  List.subset_append_left _ _

theorem new_subset_unionOf (existing new : List String) : new ⊆ unionOf existing new := by
  intro a ha
  by_cases h : a ∈ existing
  · exact List.mem_append_left _ h
  · exact List.mem_append_right _ (List.mem_filter.mpr ⟨ha, by simp [h]⟩)

theorem existing_subset_unionAssertions (existing incoming : List Assertion) :
    existing ⊆ unionAssertions existing incoming := by
  induction incoming generalizing existing with
  | nil => exact fun _ h => h
  | cons a incoming ih =>
      rw [unionAssertions, List.foldl_cons]
      split
      · exact ih existing
      · exact fun b hb => ih _ (List.mem_append_left _ hb)

/-- An incoming assertion has one of its type, pattern and target in the union. -/
theorem incoming_unionAssertions (existing incoming : List Assertion) {a : Assertion}
    (ha : a ∈ incoming) :
    ∃ b ∈ unionAssertions existing incoming, assertionKey b = assertionKey a := by
  induction incoming generalizing existing with
  | nil => cases ha
  | cons c incoming ih =>
      rw [unionAssertions, List.foldl_cons]
      rcases List.mem_cons.mp ha with rfl | ha
      · split
        · rename_i hkey
          obtain ⟨b, hb, heq⟩ := List.mem_map.mp hkey
          exact ⟨b, existing_subset_unionAssertions existing incoming hb, heq⟩
        · exact ⟨a, existing_subset_unionAssertions _ incoming (by simp), rfl⟩
      · exact ih _ ha

section Ancestry

variable (survivor : String)

theorem subset_addAncestor (merged : List String) (ancestor : String) :
    merged ⊆ addAncestor survivor merged ancestor := by
  rw [addAncestor]
  split
  · exact List.subset_append_left _ _
  · exact fun _ h => h

theorem mem_addAncestor (merged : List String) {ancestor : String} (hne : ancestor ≠ "")
    (hself : ancestor ≠ survivor) : ancestor ∈ addAncestor survivor merged ancestor := by
  by_cases h : ancestor ∈ merged
  · exact subset_addAncestor survivor merged ancestor h
  · rw [addAncestor, if_pos ⟨hne, hself, h⟩]
    exact List.mem_append_right _ (List.mem_singleton_self _)

theorem subset_foldl_addAncestor (ancestors merged : List String) :
    merged ⊆ ancestors.foldl (addAncestor survivor) merged := by
  induction ancestors generalizing merged with
  | nil => exact fun _ h => h
  | cons a ancestors ih => exact fun b hb => ih _ (subset_addAncestor survivor merged a hb)

theorem mem_foldl_addAncestor (ancestors merged : List String) {ancestor : String}
    (hmem : ancestor ∈ ancestors) (hne : ancestor ≠ "") (hself : ancestor ≠ survivor) :
    ancestor ∈ ancestors.foldl (addAncestor survivor) merged := by
  induction ancestors generalizing merged with
  | nil => cases hmem
  | cons a ancestors ih =>
      rcases List.mem_cons.mp hmem with rfl | hmem
      · exact subset_foldl_addAncestor survivor ancestors _
          (mem_addAncestor survivor merged hne hself)
      · exact ih _ hmem

end Ancestry

theorem le_stronger_left {α : Type} (rank : α → Nat) (existing new : α) :
    rank existing ≤ rank (stronger rank existing new) := by
  rw [stronger]
  split <;> omega

theorem le_stronger_right {α : Type} (rank : α → Nat) (existing new : α) :
    rank new ≤ rank (stronger rank existing new) := by
  rw [stronger]
  split <;> omega

/-- A merge adds no violation: the survivor keeps its evidence level, and verified confidence is
taken only where that level supports it. -/
theorem mergeEntries_conforms (now : Datetime) {existing : MemoryEntry} (newEntry : MemoryEntry)
    (h : violatesEvidenceInvariant existing = false) :
    violatesEvidenceInvariant (mergeEntries now existing newEntry) = false := by
  simp only [violatesEvidenceInvariant, mergeEntries, mergedConfidence] at h ⊢
  split
  · exact h
  · rename_i hnot
    grind

/-- What a merge keeps of its two entries. -/
structure MergeKeeps (existing incoming merged : MemoryEntry) : Prop where
  content : merged.content = existing.content
  incomingContent : squeezed incoming.content = squeezed existing.content ∨
    within (squeezed incoming.content) merged.detail
  detail : within existing.detail merged.detail ∧ within incoming.detail merged.detail
  tags : existing.tags ⊆ merged.tags ∧ incoming.tags ⊆ merged.tags
  evidence : existing.evidence ⊆ merged.evidence ∧ incoming.evidence ⊆ merged.evidence
  assertions : existing.assertions ⊆ merged.assertions ∧
    ∀ a ∈ incoming.assertions, ∃ b ∈ merged.assertions, assertionKey b = assertionKey a
  ancestry : existing.mergedFrom ⊆ merged.mergedFrom ∧
    ∀ a ∈ incoming.id :: incoming.mergedFrom, a ≠ "" → a ≠ existing.id → a ∈ merged.mergedFrom
  recurrence : merged.recurrence = existing.recurrence + 1
  accessCount : merged.accessCount = existing.accessCount + incoming.accessCount
  recallCount : merged.recallCount = existing.recallCount + incoming.recallCount
  protection : protectionRank existing.protectionTier ≤ protectionRank merged.protectionTier ∧
    protectionRank incoming.protectionTier ≤ protectionRank merged.protectionTier
  conforms : violatesEvidenceInvariant existing = false → violatesEvidenceInvariant merged = false

theorem mergeEntries_keeps (now : Datetime) (existing incoming : MemoryEntry) :
    MergeKeeps existing incoming (mergeEntries now existing incoming) where
  content := rfl
  incomingContent := by
    by_cases h : squeezed incoming.content = squeezed existing.content
    · exact Or.inl h
    · exact Or.inr (content_within_mergedDetail existing incoming _ h)
  detail := ⟨existing_within_mergedDetail existing incoming _,
    incoming_within_mergedDetail existing incoming _⟩
  tags := ⟨subset_unionOf _ _, new_subset_unionOf _ _⟩
  evidence := ⟨subset_unionOf _ _, new_subset_unionOf _ _⟩
  assertions := ⟨existing_subset_unionAssertions _ _,
    fun _ ha => incoming_unionAssertions existing.assertions incoming.assertions ha⟩
  ancestry := ⟨subset_foldl_addAncestor existing.id _ _,
    fun _ hmem hne hself => mem_foldl_addAncestor existing.id _ _ hmem hne hself⟩
  recurrence := rfl
  accessCount := rfl
  recallCount := rfl
  protection := ⟨le_stronger_left _ _ _, le_stronger_right _ _ _⟩
  conforms := mergeEntries_conforms now incoming

def checkedAssertion (lastResult : Bool) : Assertion where
  type := .grepPresent
  pattern := "p"
  target := "t"
  lastResult := some lastResult
  lastVerifiedAt := none
  lastEvidence := ""
  firstFailedAt := none
  commitHash := none
  lineRange := none
  gitUrl := none

def survivorOf (now : Datetime) : MemoryEntry :=
  { MemoryEntry.ofDefaults "a" "x" "default" now a_ne_empty with
    assertions := [checkedAssertion true] }

def repeatedOf (now : Datetime) : MemoryEntry :=
  { MemoryEntry.ofDefaults "b" "y  z" "default" now b_ne_empty with
    recurrence := 5
    mergedFrom := ["a"]
    assertions := [checkedAssertion false] }

/-- The count of an entry merged away is not taken over, its content comes without the spacing, of
two assertions on one target the survivor's stays, and the survivor is no ancestor of itself. -/
theorem mergeEntries_not_union :
    let now : Datetime := ⟨0, some 0⟩
    let merged := mergeEntries now (survivorOf now) (repeatedOf now)
    merged.recurrence < (repeatedOf now).recurrence ∧
      ¬ within (repeatedOf now).content merged.content ∧
      ¬ within (repeatedOf now).content merged.detail ∧
      (∃ a ∈ (repeatedOf now).assertions, a ∉ merged.assertions) ∧
      "a" ∈ (repeatedOf now).mergedFrom ∧ "a" ∉ merged.mergedFrom := by
  decide

end TrwMemory.Lifecycle

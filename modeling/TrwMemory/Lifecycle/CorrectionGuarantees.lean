import TrwMemory.Lifecycle.CorrectionEffects

/-!
What every correction with success leaves: the live vectors are of their rows' texts, no end
of validity moves, the tags that it adds are there, and tags go only where a patch names the
whole list.
-/
namespace TrwMemory.Lifecycle

open Library Library.Keyed Storage Sync Tools Embeddings

variable {τ : Type} {digest : SyncContent → String} {rules : CorrectionRules}
  {w : Writer} {blocks : MemoryEntry → Bool} {entry : MemoryEntry} {patch : LearningPatch τ}
  {prior : Option RowKey} {now : Datetime} {db updated vectored db' : Db}
  {row existing : MemoryEntry} {k : RowKey} {fields : Patch}

section Patched

theorem patched_find (h : RowPatched digest w db db' k fields now row existing) (k' : RowKey) :
    db'.memories.find k' = if k' = k then
      some (row.patched (updateFields digest existing fields now)) else db.memories.find k' := by
  rw [h.memories, Table.find_put]

/-- A column that the update neither names nor keeps itself. -/
theorem patched_column (digest : SyncContent → String) (existing : MemoryEntry) (now : Datetime)
    {c : Column} (hc : c ∉ ownColumns) (hfields : fields c = none) :
    updateFields digest existing fields now c = none := by
  rw [updateFields_other digest existing fields now hc, hfields]

/-- No end of validity that is set has moved. -/
def EndsKept (db db' : Db) : Prop :=
  ∀ k row stop, db.memories.find k = some row → row.invalidFrom = some stop →
    ∃ row', db'.memories.find k = some row' ∧ row'.invalidFrom = some stop

theorem endsKept_of_memories (h : db'.memories = db.memories) : EndsKept db db' := by
  intro k _ stop hrow hstop
  exact ⟨_, by rw [h, hrow], hstop⟩

theorem EndsKept.trans {db'' : Db} (h : EndsKept db db') (h' : EndsKept db' db'') :
    EndsKept db db'' := by
  intro k row stop hrow hstop
  obtain ⟨row', hrow', hstop'⟩ := h k row stop hrow hstop
  exact h' k row' stop hrow' hstop'

/-- An update names no end, or that of a row without one. -/
theorem endsKept_patched (h : RowPatched digest w db db' k fields now row existing)
    (hend : fields .invalidFrom = none ∨ row.invalidFrom = none) : EndsKept db db' := by
  intro k' row' stop hrow hstop
  rw [patched_find h]
  by_cases hk : k' = k
  · subst hk
    obtain rfl := Option.some.inj (hrow.symm.trans h.found)
    rcases hend with hunnamed | hopen
    · refine ⟨_, if_pos rfl, ?_⟩
      simp only [MemoryEntry.patched]
      rw [patched_column digest existing now (by decide) hunnamed]
      exact hstop
    · rw [hopen] at hstop
      cases hstop
  · exact ⟨row', by rw [if_neg hk, hrow], hstop⟩

/-- The row carries these tags. -/
def HasTags (db : Db) (k : RowKey) (tags : List String) : Prop :=
  ∃ row, db.memories.find k = some row ∧ ∀ tag ∈ tags, tag ∈ row.tags

theorem hasTags_of_memories {tags : List String} (h : db'.memories = db.memories)
    (htags : HasTags db k tags) : HasTags db' k tags := by
  rwa [HasTags, h]

theorem hasTags_patched {k' : RowKey} {tags : List String}
    (h : RowPatched digest w db db' k fields now row existing)
    (hkept : k' = k → ∀ tag ∈ row.tags, tag ∈ (fields .tags).getD row.tags)
    (htags : HasTags db k' tags) : HasTags db' k' tags := by
  obtain ⟨row', hrow', hin⟩ := htags
  rw [HasTags, patched_find h]
  by_cases hk : k' = k
  · subst hk
    obtain rfl := Option.some.inj (hrow'.symm.trans h.found)
    refine ⟨_, if_pos rfl, fun tag htag => ?_⟩
    simp only [MemoryEntry.patched]
    rw [updateFields_other digest existing fields now (by decide : Column.tags ∉ ownColumns)]
    exact hkept rfl tag (hin tag htag)
  · exact ⟨row', by rw [if_neg hk, hrow'], hin⟩

/-- The vector of a row, where it has one, is the encoding of the row's text. -/
def LiveVectors (db : Db) : Prop :=
  ∀ k row v, db.memories.find k = some row → db.vectors.find k = some v →
    v.source = embeddingText row

theorem liveVectors_patched (h : RowPatched digest w db db' k fields now row existing)
    (hcontent : fields .content = none) (hdetail : fields .detail = none)
    (hlive : LiveVectors db) : LiveVectors db' := by
  intro k' row' v hrow hv
  rw [patched_find h] at hrow
  by_cases hk : k' = k
  · subst hk
    rw [if_pos rfl] at hrow
    obtain rfl := Option.some.inj hrow
    rw [embeddingText_updated, hcontent, hdetail]
    exact hlive k' row v h.found (h.vector_kept hv).2
  · rw [if_neg hk] at hrow
    exact hlive k' row' v hrow (h.rowWritten.vectors k' v hk hv)

end Patched

theorem collect_invalidFrom (rules : CorrectionRules) (current : MemoryEntry)
    (patch : LearningPatch τ) : collect rules current patch .invalidFrom = none := by
  rw [collect_plain (by decide), LearningPatch.plainFields, if_neg (by decide)]

/-- The tags of an update, or none where the patch names none. -/
theorem collect_tags (rules : CorrectionRules) (current : MemoryEntry) (patch : LearningPatch τ) :
    collect rules current patch .tags =
      if patch.tags.isSome || patch.tagsAdd.isSome then some (collectTags current patch)
      else none := by
  have hplain : patch.plainFields .tags = none := if_neg (by decide)
  have hassertions : ∀ fields : Patch,
      (patch.assertions.elim fields (fields.set .assertions)) .tags = fields .tags := by
    intro fields
    cases patch.assertions with
    | none => rfl
    | some _ => exact Patch.set_other _ _ (by decide)
  have hmetadata : collect rules current patch .tags =
      (if patch.tags.isSome || patch.tagsAdd.isSome then
        patch.plainFields.set .tags (collectTags current patch) else patch.plainFields) .tags := by
    unfold collect
    split
    · exact hassertions _
    · rw [Patch.set_other _ _ (by decide), hassertions]
  rw [hmetadata]
  split
  · exact Patch.set_self _ _ _
  · exact hplain

theorem closeFields_other {c : Column} (hc : c ∉ [Column.invalidFrom, .invalidatedBy]) :
    closeFields entry now c = none := by
  simp only [List.mem_cons, List.not_mem_nil, or_false, not_or] at hc
  rw [closeFields, Patch.set_other _ _ (Ne.symm hc.2), Patch.set_other _ _ (Ne.symm hc.1)]
  rfl

section Correction

variable (h : Corrects digest rules w blocks entry patch prior now db updated vectored db' row
  existing)

include h

theorem Corrects.endsKept : EndsKept db db' := by
  have hupdated : EndsKept db updated := by
    rcases h.update with ⟨-, rfl⟩ | hpatched
    · exact endsKept_of_memories rfl
    · exact endsKept_patched hpatched (.inl (collect_invalidFrom _ _ _))
  obtain ⟨closed, hclose⟩ := h.close
  have hprior : EndsKept vectored db' := by
    rcases closePrior_ok hclose with rfl | ⟨_, _, _, hpatched, hopen⟩
    · exact endsKept_of_memories rfl
    · exact endsKept_patched hpatched (.inr hopen)
  exact (hupdated.trans (endsKept_of_memories h.memories)).trans hprior

theorem Corrects.served_tags : (servedView existing).tags = row.tags := by
  obtain ⟨confidence, metadata, hview⟩ := servedView_fields existing
  rw [hview, rowToEntry_eq h.read]
  rfl

/-- Tags stay where the patch does not name the whole list. -/
theorem Corrects.hasTags {tags : List String} (hunnamed : k = rowKey entry → patch.tags = none)
    (htags : HasTags db k tags) : HasTags db' k tags := by
  have hupdated : HasTags updated k tags := by
    rcases h.update with ⟨-, rfl⟩ | hpatched
    · exact htags
    · refine hasTags_patched hpatched (fun hk tag htag => ?_) htags
      rw [collect_tags]
      split
      · rw [Option.getD_some, collectTags, hunnamed hk, h.served_tags]
        exact List.mem_append_left _ htag
      · exact htag
  obtain ⟨closed, hclose⟩ := h.close
  have hvectored := hasTags_of_memories h.memories hupdated
  rcases closePrior_ok hclose with rfl | ⟨_, _, _, hpatched, -⟩
  · exact hvectored
  · refine hasTags_patched hpatched (fun _ tag htag => ?_) hvectored
    rwa [closeFields_other (by decide)]

/-- The tags that the patch adds are there. -/
theorem Corrects.adds {tags : List String} (hadd : patch.tagsAdd = some tags) :
    HasTags db' (rowKey entry) tags := by
  have hcollected : ∀ tag ∈ tags, tag ∈ collectTags (servedView existing) patch := by
    intro tag htag
    rw [collectTags, hadd]
    by_cases hin : (patch.tags.getD (servedView existing).tags).contains tag = true
    · exact List.mem_append_left _ (List.contains_iff_mem.mp hin)
    · refine List.mem_append_right _ (List.mem_filter.mpr ⟨?_, ?_⟩)
      · exact List.mem_eraseDups.mpr htag
      · rwa [Bool.not_eq_true', ← Bool.not_eq_true]
  have hupdated : HasTags updated (rowKey entry) tags := by
    have htags := collect_tags rules (servedView existing) patch
    rw [hadd, Option.isSome_some, Bool.or_true, if_pos rfl] at htags
    rcases h.update with ⟨hempty, -⟩ | hpatched
    · have hmem : Column.tags ∈ (collect rules (servedView existing) patch).fields := by
        rw [Patch.mem_fields, Patch.names, htags]
        rfl
      rw [List.isEmpty_iff.mp hempty] at hmem
      cases hmem
    · rw [HasTags, patched_find hpatched]
      refine ⟨_, if_pos rfl, fun tag htag => ?_⟩
      simp only [MemoryEntry.patched]
      rw [updateFields_other digest existing _ now (by decide : Column.tags ∉ ownColumns), htags]
      exact hcollected tag htag
  obtain ⟨closed, hclose⟩ := h.close
  have hvectored := hasTags_of_memories h.memories hupdated
  rcases closePrior_ok hclose with rfl | ⟨_, _, _, hpatched, -⟩
  · exact hvectored
  · refine hasTags_patched hpatched (fun _ tag htag => ?_) hvectored
    rwa [closeFields_other (by decide)]

/-- The vector is dropped or replaced with the text. -/
theorem Corrects.liveVectors (havail : w.backend.vecAvailable = true) (hlive : LiveVectors db) :
    LiveVectors db' := by
  have hvectored : LiveVectors vectored := by
    rcases h.update with ⟨hempty, rfl⟩ | hpatched
    · rwa [h.sameText (unchanged_of_isEmpty hempty)]
    · cases hchanged : patch.textChanged with
      | false =>
          obtain ⟨hcontent, hdetail⟩ := unnamed_of_textChanged hchanged
          rw [h.sameText hchanged]
          refine liveVectors_patched hpatched ?_ ?_ hlive
          · rw [collect_text (by decide), hcontent]
          · rw [collect_text (by decide), hdetail]
      | true =>
          intro k row' v hrow hv
          rw [h.memories, patched_find hpatched] at hrow
          by_cases hk : k = rowKey entry
          · subst hk
            rw [if_pos rfl] at hrow
            obtain rfl := Option.some.inj hrow
            rw [embeddingText_updated]
            exact h.newText hchanged havail v hv
          · rw [if_neg hk] at hrow
            rw [h.others k hk] at hv
            exact hlive k row' v hrow (hpatched.rowWritten.vectors k v hk hv)
  obtain ⟨closed, hclose⟩ := h.close
  rcases closePrior_ok hclose with rfl | ⟨_, _, _, hpatched, -⟩
  · exact hvectored
  · exact liveVectors_patched hpatched (closeFields_other (by decide))
      (closeFields_other (by decide)) hvectored

end Correction

end TrwMemory.Lifecycle

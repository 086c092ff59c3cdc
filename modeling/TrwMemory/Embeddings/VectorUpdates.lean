import TrwMemory.Embeddings.VectorText

/-!
What corrections, pulled rows and re-encoded pages leave of the vectors of a row. An
update that names no text and a re-encoded page never leave a vector of another text.
-/
namespace TrwMemory.Embeddings

open Library.Keyed Storage Sync Tools Lifecycle

variable {digest : SyncContent → String} {d : Digests} {w : Writer} {db : Db}

/-- What the statements of an update leave of the rows and the vectors. -/
structure RowPatched (digest : SyncContent → String) (w : Writer) (db db' : Db) (k : RowKey)
    (fields : Patch) (now : Datetime) (row existing : MemoryEntry) : Prop where
  found : db.memories.find k = some row
  read : rowToEntry row = some existing
  memories :
      db'.memories = db.memories.put k (row.patched (updateFields digest existing fields now))
  vectors : db'.vectors = if prunesVector existing fields && w.backend.vecAvailable then
    db.vectors.discard (· == k) else db.vectors

/-- An update that is not refused patches the row, or has nothing to do. -/
theorem updateScript_ok {blocks : MemoryEntry → Bool} {k : RowKey} {fields : Patch}
    {now : Datetime} {statements : List Statement}
    (h : updateScript digest w.backend db k blocks fields now = .ok statements) :
    (statements = [] ∧ ∀ current, backendGet blocks db k = .ok (some current) →
      fields.fields.isEmpty = true) ∨
    ∃ row existing, RowPatched digest w db (execute statements db) k fields now row existing := by
  unfold updateScript at h
  cases hrow : db.memories.find k with
  | none =>
      simp only [hrow, Except.ok.injEq] at h
      exact .inl ⟨h.symm, fun current hget => by simp [backendGet, hrow] at hget⟩
  | some row =>
      cases hread : rowToEntry row with
      | none => simp [hrow, hread] at h
      | some existing =>
          simp only [hrow, hread] at h
          by_cases hskip : (blocks (servedView existing) || fields.fields.isEmpty) = true
          · rw [if_pos hskip] at h
            refine .inl ⟨(Except.ok.inj h).symm, fun current hget => ?_⟩
            obtain ⟨row', entry, hrow', hread', hblocks, -⟩ := backendGet_some hget
            obtain rfl := Option.some.inj (hrow.symm.trans hrow')
            obtain rfl := Option.some.inj (hread.symm.trans hread')
            simpa [hblocks] using hskip
          · rw [if_neg hskip] at h
            cases hfinish : finishUpdate digest row existing fields now with
            | error _ => simp [hfinish, Except.map] at h
            | ok written =>
                simp only [hfinish, Except.map, Except.ok.injEq] at h
                subst h
                obtain ⟨hmemories, hvectors⟩ :=
                  execute_updateStatements digest w.backend existing fields now hrow
                exact .inr ⟨row, existing, hrow, hread, hmemories, hvectors⟩

section Patched

variable {db' : Db} {k : RowKey} {fields : Patch} {now : Datetime} {row existing : MemoryEntry}

theorem embeddingText_updated (digest : SyncContent → String) (row existing : MemoryEntry)
    (fields : Patch) (now : Datetime) :
    embeddingText (row.patched (updateFields digest existing fields now)) =
      (fields .content).getD row.content ++ " " ++ (fields .detail).getD row.detail := by
  have hother : ∀ c ∉ ownColumns, updateFields digest existing fields now c = fields c :=
    fun c hc => updateFields_other digest existing fields now hc
  simp (disch := decide) only [embeddingText, MemoryEntry.patched, hother]

theorem RowPatched.rowWritten (h : RowPatched digest w db db' k fields now row existing) :
    RowWritten db db' k (row.patched (updateFields digest existing fields now)) := by
  refine ⟨h.memories, fun k' v _ hv => ?_⟩
  rw [h.vectors] at hv
  split at hv
  · exact (vectorsDropped_discard db (· == k)).vectors k' v hv
  · exact hv

theorem RowPatched.vector_kept (h : RowPatched digest w db db' k fields now row existing)
    {v : StoredVector} (hv : db'.vectors.find k = some v) :
    (prunesVector existing fields && w.backend.vecAvailable) = false ∧
      db.vectors.find k = some v := by
  rw [h.vectors] at hv
  split at hv
  · rw [Table.find_discard, if_pos (by simp)] at hv
    cases hv
  · rename_i hprunes
    exact ⟨by simpa using hprunes, hv⟩

/-- An update that names no text. -/
theorem RowPatched.followsText (h : RowPatched digest w db db' k fields now row existing)
    (hdb : FollowsText d db) (hcontent : fields .content = none) (hdetail : fields .detail = none) :
    FollowsText d db' := by
  have htext : embeddingText (row.patched (updateFields digest existing fields now)) =
      embeddingText row := by
    rw [embeddingText_updated, hcontent, hdetail]
    rfl
  exact h.rowWritten.followsText_of_sameText hdb h.found htext fun v hv => (h.vector_kept hv).2

end Patched

theorem followsText_updateScript {blocks : MemoryEntry → Bool} {k : RowKey} {fields : Patch}
    {now : Datetime} {statements : List Statement} (hdb : FollowsText d db)
    (h : updateScript digest w.backend db k blocks fields now = .ok statements)
    (hcontent : fields .content = none) (hdetail : fields .detail = none) :
    FollowsText d (execute statements db) := by
  rcases updateScript_ok h with ⟨rfl, -⟩ | ⟨row, existing, hpatched⟩
  · exact hdb
  · exact hpatched.followsText hdb hcontent hdetail

theorem backendUpdate_ok {blocks : MemoryEntry → Bool} {k : RowKey} {fields : Patch}
    {now : Datetime} {updated : Db} {served : Bool}
    (h : backendUpdate digest w blocks k fields now db = .ok (updated, served)) :
    ∃ statements, updateScript digest w.backend db k blocks fields now = .ok statements ∧
      updated = execute statements db := by
  unfold backendUpdate at h
  cases hscript : updateScript digest w.backend db k blocks fields now with
  | error _ => simp [hscript, bind, Except.bind] at h
  | ok statements =>
      simp only [hscript, bind, Except.bind] at h
      cases hget : backendGet blocks (execute statements db) k with
      | error _ => simp [hget] at h
      | ok current =>
          simp only [hget] at h
          exact ⟨statements, rfl, (Prod.mk.inj (Except.ok.inj h)).1.symm⟩

theorem followsText_markRowSynced (blocks : MemoryEntry → Bool) (k : RowKey) (now : Datetime)
    (hdb : FollowsText d db) : FollowsText d (markRowSynced digest w blocks k now db) := by
  unfold markRowSynced Call.run
  cases hscript : Call.script digest w.backend db
      (.update k blocks (Patch.none.set .lastSyncedAt (some now)) now) with
  | error _ => exact hdb
  | ok statements =>
      exact followsText_updateScript hdb hscript (Patch.set_other _ _ (by decide))
        (Patch.set_other _ _ (by decide))

theorem followsText_closePrior {τ : Type} {blocks : MemoryEntry → Bool} {entry : MemoryEntry}
    {patch : LearningPatch τ} {prior : Option RowKey} {now : Datetime} {closed : Db × Bool}
    (hdb : FollowsText d db)
    (h : closePrior digest w blocks entry patch prior now db = .ok closed) :
    FollowsText d closed.1 := by
  unfold closePrior at h
  cases prior with
  | none =>
      obtain rfl := Except.ok.inj h
      exact hdb
  | some k =>
      dsimp only at h
      split at h
      · obtain rfl := Except.ok.inj h
        exact hdb
      · cases hget : backendGet blocks db k with
        | error _ => simp [hget, bind, Except.bind] at h
        | ok current =>
            cases current with
            | none =>
                simp only [hget, bind, Except.bind] at h
                obtain rfl := Except.ok.inj h
                exact hdb
            | some existing =>
                simp only [hget, bind, Except.bind] at h
                split at h
                · obtain rfl := Except.ok.inj h
                  exact hdb
                · cases hupdate : backendUpdate digest w blocks k
                      ((Patch.none.set .invalidFrom (some now)).set .invalidatedBy (some entry.id))
                      now db with
                  | error _ => simp [hupdate] at h
                  | ok updated =>
                      simp only [hupdate] at h
                      obtain rfl := Except.ok.inj h
                      obtain ⟨statements, hscript, hupdated⟩ := backendUpdate_ok hupdate
                      rw [hupdated]
                      refine followsText_updateScript hdb hscript ?_ ?_
                      · rw [Patch.set_other _ _ (by decide), Patch.set_other _ _ (by decide)]
                        rfl
                      · rw [Patch.set_other _ _ (by decide), Patch.set_other _ _ (by decide)]
                        rfl

section Correction

variable {τ : Type} {rules : CorrectionRules} {blocks : MemoryEntry → Bool}
  {entry current : MemoryEntry} {patch : LearningPatch τ} {prior : Option RowKey}
  {result : EmbedResult} {now : Datetime}

/-- The plain fields of an update are those of the patch. -/
theorem collect_plain {c : Column} (hc : c ∉ [Column.tags, .assertions, .metadata]) :
    collect rules current patch c = patch.plainFields c := by
  simp only [List.mem_cons, List.not_mem_nil, or_false, not_or] at hc
  obtain ⟨htags, hassertions, hmetadata⟩ := hc
  have htagged : (if patch.tags.isSome || patch.tagsAdd.isSome then
      patch.plainFields.set .tags (collectTags current patch) else patch.plainFields) c =
        patch.plainFields c := by
    split
    · rw [Patch.set_other _ _ (Ne.symm htags)]
    · rfl
  have hasserted : ∀ fields : Patch, fields c = patch.plainFields c →
      (patch.assertions.elim fields (fields.set .assertions)) c = patch.plainFields c := by
    intro fields h
    cases patch.assertions with
    | none => exact h
    | some _ =>
        rw [Option.elim_some, Patch.set_other _ _ (Ne.symm hassertions)]
        exact h
  unfold Lifecycle.collect
  split
  · exact hasserted _ htagged
  · rw [Patch.set_other _ _ (Ne.symm hmetadata)]
    exact hasserted _ htagged

/-- The text fields of an update are those of the patch. -/
theorem collect_text {c : Column} (hc : c ∈ [Column.content, .detail]) :
    collect rules current patch c = patch.plain c := by
  have hplain : c ∈ PLAIN_FIELDS ∧ c ∉ [Column.tags, .assertions, .metadata] := by
    revert hc
    cases c <;> decide
  rw [collect_plain hplain.2, LearningPatch.plainFields, if_pos hplain.1]

/-- The vector is dropped, or encoded again from the committed text. -/
theorem followsText_replaceVector {k : RowKey} {fields : Patch} {updated vectored : Db}
    {row existing : MemoryEntry} {encodedText : String} (hdb : FollowsText d db)
    (hpatched : RowPatched digest w db updated k fields now row existing)
    (hcontent : current.content = row.content) (hdetail : current.detail = row.detail)
    (hnone : TextWrite.LeavesNone d db
      ⟨k, (fields .content).getD current.content ++ " " ++ (fields .detail).getD current.detail,
        w.backend.vecAvailable, false⟩)
    (h : replaceVector d w current fields encodedText (result.encoded d encodedText) k updated =
      some vectored) : FollowsText d vectored := by
  rw [hcontent, hdetail, ← embeddingText_updated digest row existing fields now] at hnone
  have hrow := hpatched.rowWritten
  have hdropped := vectorsDropped_discard updated (· == k)
  have hdroppedRow : RowWritten db { updated with vectors := updated.vectors.discard (· == k) } k
      (row.patched (updateFields digest existing fields now)) :=
    ⟨hrow.memories, fun k' v hk' hv => hrow.vectors k' v hk' (hdropped.vectors k' v hv)⟩
  have hgone : ({ updated with vectors := updated.vectors.discard (· == k) } : Db).vectors.find k =
      none := by
    rw [Table.find_discard, if_pos (by simp)]
  have hdrop : FollowsText d { updated with vectors := updated.vectors.discard (· == k) } := by
    refine hdroppedRow.followsText hdb (fun v hv => ?_) (hdroppedRow.derivedOf (hnone.derived rfl))
    rw [hgone] at hv
    cases hv
  unfold replaceVector at h
  split at h
  · rename_i hexists
    obtain rfl := Option.some.inj h
    refine hrow.followsText hdb (fun v hv => ?_) (hrow.derivedOf (hnone.derived rfl))
    have hfind : updated.vectors.find k = some v := hv
    have havail : w.backend.vecAvailable = false := by
      simpa [vectorExists, hfind] using hexists
    exact hnone.vector havail v (hpatched.vector_kept hfind).2
  · dsimp only at h
    cases hvector : result.encoded d encodedText with
    | none =>
        simp only [hvector, Option.some.injEq] at h
        exact h ▸ hdrop
    | some vector =>
        have hproof := (encoded_matches (Option.mem_def.mpr hvector)).2
        simp only [hvector] at h
        split at h
        · rename_i hcommitted
          rw [upsertVector_eq fun p hp => (hproof p hp).2, Option.some.injEq] at h
          subst h
          split
          · have hputRow : RowWritten db
                { updated with
                  vectors := (updated.vectors.discard (· == k)).put k vector } k
                (row.patched (updateFields digest existing fields now)) := by
              refine ⟨hrow.memories, fun k' v hk' hv => hdroppedRow.vectors k' v hk' ?_⟩
              rwa [Table.find_put_of_ne _ _ hk'] at hv
            refine hputRow.followsText hdb (fun v hv => ?_)
              (hputRow.derivedOf (hnone.derived rfl))
            rw [Table.find_put_self] at hv
            obtain rfl := Option.some.inj hv
            intro p hp
            rw [embeddingText_updated, ← hcontent, ← hdetail, hcommitted]
            exact (hproof p hp).1
          · exact hdrop
        · obtain rfl := Option.some.inj h
          exact hdrop

theorem followsText_finishCorrection {fields : Patch} {updated : Db}
    {finished : Db × CorrectionOutcome}
    (hvectored : ∀ vectored, (if patch.textChanged then
      replaceVector d w current fields (patch.textOf entry)
        (result.encoded d (patch.textOf entry)) (rowKey entry) updated
      else some updated) = some vectored → FollowsText d vectored)
    (h : finishCorrection digest d w blocks entry current patch fields prior result now updated =
      some finished) : FollowsText d finished.1 := by
  obtain ⟨vectored, hsome, hclose⟩ := Option.bind_eq_some_iff.mp h
  cases hclosed : closePrior digest w blocks entry patch prior now vectored with
  | error _ => simp [hclosed] at hclose
  | ok closed =>
      simp only [hclosed, Option.some.injEq] at hclose
      subst hclose
      exact followsText_closePrior (hvectored vectored hsome) hclosed

/-- The text that a correction is about to write. Its vector goes unless the ledger
blocks the corrected row, which is then left at that. -/
def correctionWrite [DecidableEq τ] (digest : SyncContent → String) (token : MemoryEntry → τ)
    (rules : CorrectionRules) (w : Writer) (blocks : MemoryEntry → Bool) (entry : MemoryEntry)
    (patch : LearningPatch τ) (result : EmbedResult) (now : Datetime) (db : Db) :
    Option TextWrite :=
  match backendGet blocks db (rowKey entry) with
  | .ok (some current) =>
      let fields := collect rules current patch
      if !patch.textChanged || result = .failed ||
          patch.ifRevision.any (· ≠ revisionOf token current) || rules.refuses current fields then
        none
      else
        match backendUpdate digest w blocks (rowKey entry) fields now db with
        | .error _ => none
        | .ok (_, served) =>
            some ⟨rowKey entry, patch.textOf current,
              w.backend.vecAvailable && (served || prunesVector current fields), false⟩
  | _ => none

theorem unnamed_of_textChanged (h : patch.textChanged = false) :
    patch.plain .content = none ∧ patch.plain .detail = none := by
  simpa [LearningPatch.textChanged, Patch.names] using h

theorem unchanged_of_isEmpty (h : (collect rules current patch).fields.isEmpty = true) :
    patch.textChanged = false := by
  have hnot : ∀ c ∈ [Column.content, .detail], patch.plain.names c = false := by
    intro c hc
    have hcollected : collect rules current patch c = patch.plain c := collect_text hc
    rw [Patch.names, ← hcollected]
    by_contra hnamed
    have hmem : c ∈ (collect rules current patch).fields :=
      Patch.mem_fields.mpr (Bool.eq_true_of_not_eq_false hnamed)
    rw [List.isEmpty_iff.mp h] at hmem
    cases hmem
  rw [LearningPatch.textChanged, hnot .content (by decide), hnot .detail (by decide)]
  rfl

theorem followsText_getD {finished : Option (Db × CorrectionOutcome)}
    (hdb : FollowsText d db) (h : ∀ after, finished = some after → FollowsText d after.1) :
    FollowsText d (finished.getD (db, .failed)).1 := by
  cases hfinished : finished with
  | none => exact hdb
  | some after => exact h after hfinished

/-- The update of a correction and what follows it. -/
theorem followsText_corrected (prior : Option RowKey) (result : EmbedResult) {updated : Db}
    {served : Bool} (hdb : FollowsText d db)
    (hget : backendGet blocks db (rowKey entry) = .ok (some current))
    (hnamed : (collect rules current patch).fields.isEmpty = false)
    (hupdate : backendUpdate digest w blocks (rowKey entry) (collect rules current patch) now db =
      .ok (updated, served))
    (hnone : patch.textChanged = true → TextWrite.LeavesNone d db
      ⟨rowKey entry, patch.textOf current,
        w.backend.vecAvailable && (served || prunesVector current (collect rules current patch)),
        false⟩) :
    FollowsText d (if served then
      (finishCorrection digest d w blocks entry current patch (collect rules current patch) prior
        result now updated).getD (db, .failed)
      else (updated, .notFound)).1 := by
  obtain ⟨row, existing, hrow, hread, -, hserved⟩ := backendGet_some hget
  obtain ⟨statements, hscript, rfl⟩ := backendUpdate_ok hupdate
  have hcontent : collect rules current patch .content = patch.plain .content :=
    collect_text (by decide)
  have hdetail : collect rules current patch .detail = patch.plain .detail :=
    collect_text (by decide)
  rcases updateScript_ok hscript with ⟨-, hempty⟩ | ⟨row', existing', hpatched⟩
  · rw [hempty current hget] at hnamed
    cases hnamed
  obtain rfl := Option.some.inj (hrow.symm.trans hpatched.found)
  obtain rfl := Option.some.inj (hread.symm.trans hpatched.read)
  have hkept : current.content = row.content ∧ current.detail = row.detail ∧
      current.status = existing.status := by
    obtain ⟨confidence, metadata, hview⟩ := servedView_fields existing
    rw [hserved, hview, rowToEntry_eq hread]
    exact ⟨rfl, rfl, rfl⟩
  have htext : patch.textOf current =
      (collect rules current patch .content).getD current.content ++ " " ++
        (collect rules current patch .detail).getD current.detail := by
    rw [hcontent, hdetail, LearningPatch.textOf]
  cases hchanged : patch.textChanged with
  | false =>
      obtain ⟨hunnamed, hunnamed'⟩ := unnamed_of_textChanged hchanged
      have hupdated := hpatched.followsText hdb (hcontent.trans hunnamed)
        (hdetail.trans hunnamed')
      cases served with
      | false => exact hupdated
      | true =>
          refine followsText_getD hdb fun finished hfinished => ?_
          refine followsText_finishCorrection (fun vectored hvectored => ?_) hfinished
          rw [hchanged, if_neg Bool.false_ne_true, Option.some.injEq] at hvectored
          exact hvectored ▸ hupdated
  | true =>
      have hleft := hnone hchanged
      cases served with
      | false =>
          have hrow := hpatched.rowWritten
          refine hrow.followsText hdb (fun v hv => ?_) (hrow.derivedOf ?_)
          · obtain ⟨hprunes, hv⟩ := hpatched.vector_kept hv
            have hrenewed : (w.backend.vecAvailable &&
                (false || prunesVector current (collect rules current patch))) = false := by
              rw [Bool.false_or, Bool.and_comm, ← hprunes, prunesVector, prunesVector, hkept.2.2]
            have hown := hleft.vector hrenewed v hv
            rwa [htext, hkept.1, hkept.2.1,
              ← embeddingText_updated digest row existing _ now] at hown
          · have hderived := hleft.derived rfl
            rwa [htext, hkept.1, hkept.2.1, ← embeddingText_updated digest row existing _ now]
              at hderived
      | true =>
          refine followsText_getD hdb fun finished hfinished => ?_
          refine followsText_finishCorrection (fun vectored hvectored => ?_) hfinished
          rw [hchanged, if_pos rfl] at hvectored
          refine followsText_replaceVector hdb hpatched hkept.1 hkept.2.1 ?_ hvectored
          rw [← htext]
          simpa using hleft

theorem followsText_applyCorrection [DecidableEq τ] {token : MemoryEntry → τ}
    (hdb : FollowsText d db)
    (hnone : ∀ write ∈ correctionWrite digest token rules w blocks entry patch result now db,
      write.LeavesNone d db) :
    FollowsText d
      (applyCorrection digest d token rules w blocks entry patch prior result now db).1 := by
  unfold applyCorrection
  unfold correctionWrite at hnone
  split
  · exact hdb
  · rename_i hencoded
    cases hget : backendGet blocks db (rowKey entry) with
    | error _ => exact hdb
    | ok found =>
        cases found with
        | none => exact hdb
        | some current =>
            simp only [hget] at hnone ⊢
            split
            · exact hdb
            · rename_i hrevision
              split
              · exact hdb
              · rename_i hrefuses
                split
                · rename_i hempty
                  refine followsText_getD hdb fun finished hfinished => ?_
                  refine followsText_finishCorrection (fun vectored hvectored => ?_) hfinished
                  rw [unchanged_of_isEmpty hempty, if_neg Bool.false_ne_true,
                    Option.some.injEq] at hvectored
                  exact hvectored ▸ hdb
                · rename_i hempty
                  cases hupdate : backendUpdate digest w blocks (rowKey entry)
                      (collect rules current patch) now db with
                  | error e =>
                      cases e with
                      | schema _ | unreadable _ => exact hdb
                  | ok result' =>
                      obtain ⟨updated, served⟩ := result'
                      have hleft : patch.textChanged = true → TextWrite.LeavesNone d db
                          ⟨rowKey entry, patch.textOf current, w.backend.vecAvailable &&
                            (served || prunesVector current (collect rules current patch)),
                            false⟩ := by
                        intro hchanged
                        refine hnone _ ?_
                        rw [if_neg (by simp_all), hupdate]
                        rfl
                      cases served with
                      | false =>
                          exact followsText_corrected prior result hdb hget
                            (by simpa using hempty) hupdate hleft
                      | true =>
                          exact followsText_corrected prior result hdb hget
                            (by simpa using hempty) hupdate hleft

end Correction

/-- The text that a pulled row is about to write. -/
def syncedWrite {τ : Type} [DecidableEq τ] (d : Digests) (token : MemoryEntry → τ) (w : Writer)
    (blocks : MemoryEntry → Bool) (ifRevision : Option τ) (row : MemoryEntry)
    (result : EmbedResult) (db : Db) : Option TextWrite :=
  match backendGet blocks db (rowKey row) with
  | .error _ => none
  | .ok current =>
      if current.map (revisionOf token) = ifRevision && storable db row then
        some ⟨rowKey row, embeddingText row, EmbedResult.lands w result ||
          dropsVector w current (embeddingText row) (result.encoded d (embeddingText row)), false⟩
      else none

theorem followsText_applySyncedEntry {τ : Type} [DecidableEq τ] {token : MemoryEntry → τ}
    {blocks : MemoryEntry → Bool} {ifRevision : Option τ} {row : MemoryEntry} {synced : Bool}
    {result : EmbedResult} {now : Datetime} (hdb : FollowsText d db)
    (hnone : ∀ write ∈ syncedWrite d token w blocks ifRevision row result db,
      write.LeavesNone d db) :
    FollowsText d
      (applySyncedEntry digest d token w blocks ifRevision row synced result now db).1 := by
  unfold applySyncedEntry
  unfold syncedWrite at hnone
  dsimp only
  cases hget : backendGet blocks db (rowKey row) with
  | error _ => exact hdb
  | ok current =>
      simp only [hget] at hnone ⊢
      split
      · exact hdb
      · rename_i hrevision
        cases hwritten :
            storeWithVector digest d w row (result.encoded d (embeddingText row)) db with
        | none => exact hdb
        | some written =>
            have hleft := hnone _ (by
              rw [if_pos (by simp [Decidable.not_not.mp hrevision, storable_of_some hwritten])]
              rfl)
            obtain ⟨hmemories, hvectors⟩ := storeWithVector_some hwritten
            have hrow : RowWritten db written (rowKey row) (stampSync digest row) := by
              refine ⟨hmemories, fun k' v hk' hv => ?_⟩
              rwa [hvectors, find_upserted_of_ne _ _ hk'] at hv
            have hkept : FollowsText d
                (if dropsVector w current (embeddingText row)
                    (result.encoded d (embeddingText row)) then
                  { written with vectors := written.vectors.discard (· == rowKey row) }
                else written) := by
              split
              · have hdropped := vectorsDropped_discard written (· == rowKey row)
                have hdroppedRow : RowWritten db
                    { written with vectors := written.vectors.discard (· == rowKey row) }
                    (rowKey row) (stampSync digest row) :=
                  ⟨hmemories, fun k' v hk' hv => hrow.vectors k' v hk' (hdropped.vectors k' v hv)⟩
                refine hdroppedRow.followsText hdb (fun v hv => ?_)
                  (hdroppedRow.derivedOf (hleft.derived rfl))
                rw [Table.find_discard, if_pos (by simp)] at hv
                cases hv
              · rename_i hdrops
                refine hrow.followsText hdb (vectorOf_upserted hvectors fun hlands => ?_)
                  (hrow.derivedOf (hleft.derived rfl))
                exact hleft.vector (by simpa [hlands] using hdrops)
            cases synced with
            | false => exact hkept
            | true => exact followsText_markRowSynced _ _ _ hkept

/-- A vector of the row's own text. -/
theorem followsText_putVector {k : RowKey} {row : MemoryEntry} {vector : StoredVector}
    (hdb : FollowsText d db) (hrow : db.memories.find k = some row)
    (hproof : ∀ p ∈ vector.provenance, p.inputSha256 = d.inputDigest (embeddingText row)) :
    FollowsText d { db with vectors := db.vectors.put k vector } := by
  intro k₁ row₁ hrow₁
  obtain ⟨hown, hderived⟩ := hdb k₁ row₁ hrow₁
  constructor
  · intro v hv p hp
    rw [Table.find_put] at hv
    split at hv
    · rename_i hk
      subst hk
      obtain rfl := Option.some.inj hv
      obtain rfl := Option.some.inj (hrow.symm.trans hrow₁)
      exact hproof p hp
    · exact hown v hv p hp
  · refine derivedOf_iff.mpr fun k' v hv hk' => ?_
    have hne : k' ≠ k := by
      rintro rfl
      have hnone : db.memories.find k' = none := isDerived_absent hk'
      rw [hrow] at hnone
      cases hnone
    rw [Table.find_put_of_ne _ _ hne] at hv
    exact derivedOf_iff.mp hderived k' v hv hk'

theorem followsText_reembedItem {blocks : MemoryEntry → Bool} {found db' : Db} {item : PageItem}
    (hdb : FollowsText d db) (h : reembedItem d w blocks found item db = some db') :
    FollowsText d db' := by
  unfold reembedItem at h
  dsimp only at h
  cases hget : backendGet blocks db (rowKey item.entry) with
  | error _ => simp [hget] at h
  | ok current =>
      cases hvector : item.vector with
      | none =>
          simp only [hget, hvector, Option.some.injEq] at h
          exact h ▸ hdb
      | some encoded =>
          obtain ⟨embedding, space⟩ := encoded
          simp only [hget, hvector] at h
          split at h
          · obtain rfl := Option.some.inj h
            exact hdb
          · rename_i hsame
            cases hproof : d.generationProvenance space (embeddingText item.entry) embedding with
            | none => simp [hproof] at h
            | some proof =>
                obtain ⟨hdigest, hmatches⟩ := d.generationProvenance_eq hproof
                simp only [hproof] at h
                rw [upsertVector_eq (by simpa using hmatches), Option.some.injEq] at h
                subst h
                split
                · obtain ⟨current, rfl⟩ : ∃ e, current = some e := by
                    cases current with
                    | none => simp at hsame
                    | some e => exact ⟨e, rfl⟩
                  obtain ⟨row, entry, hrow, hread, -, rfl⟩ := backendGet_some hget
                  have htext : embeddingText row = embeddingText item.entry := by
                    rw [← embeddingText_served hread]
                    simp only [Option.all_some, Bool.or_eq_true, bne_iff_ne, ne_eq, not_or,
                      Decidable.not_not] at hsame
                    exact hsame.1
                  refine followsText_putVector hdb hrow fun p hp => ?_
                  obtain rfl := Option.some.inj hp
                  rw [hdigest, htext]
                · exact hdb

theorem followsText_reembedPage {blocks : MemoryEntry → Bool} (page : List PageItem)
    (hdb : FollowsText d db) : FollowsText d (reembedPage d w blocks page db) := by
  have hitems : ∀ (items : List PageItem) (current : Db), FollowsText d current →
      ∀ after, items.foldlM (fun current item => reembedItem d w blocks db item current) current =
        some after → FollowsText d after := by
    intro items
    induction items with
    | nil =>
        intro current hcurrent after h
        obtain rfl := Option.some.inj h
        exact hcurrent
    | cons item items ih =>
        intro current hcurrent after h
        obtain ⟨next, hnext, hrest⟩ := Option.bind_eq_some_iff.mp h
        exact ih next (followsText_reembedItem hcurrent hnext) after hrest
  unfold reembedPage
  cases hpage : page.foldlM (fun current item => reembedItem d w blocks db item current) db with
  | none => exact hdb
  | some after => exact hitems page db hdb after hpage

end TrwMemory.Embeddings

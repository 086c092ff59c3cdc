import TrwMemory.Embeddings.VectorUpdates
import TrwMemory.Library.Verdicts
import TrwMemory.Lifecycle.Correction

/-!
What the transaction of a correction does: the update of its row, the vector and the closing
of a prior in the same store, each said once. From these: an end of validity once set stays,
the tags that a correction adds are there and those of others stay unless it names the tags,
the vector is of the row's text or gone; and the rows after it depend on the rows before it and
not on the caller's copy of the row.
-/
namespace TrwMemory.Lifecycle

open Library Library.Keyed Storage Sync Tools Embeddings

section Effects

variable {τ : Type} {digest : SyncContent → String} {d : Digests} {w : Writer}
  {blocks : MemoryEntry → Bool} {db db' : Db}

theorem backendUpdate_patched {k : RowKey} {fields : Patch} {now : Datetime} {updated : Db}
    {served : Bool} (h : backendUpdate digest w blocks k fields now db = .ok (updated, served)) :
    (updated = db ∧ ∀ current, backendGet blocks db k = .ok (some current) →
      fields.fields.isEmpty = true) ∨
    ∃ row existing, RowPatched digest w db updated k fields now row existing := by
  obtain ⟨statements, hscript, rfl⟩ := backendUpdate_ok h
  rcases updateScript_ok hscript with ⟨rfl, hempty⟩ | hpatched
  · exact .inl ⟨rfl, hempty⟩
  · exact .inr hpatched

/-- The vector goes, or is replaced by one of the committed text. -/
theorem replaceVector_spec (current : MemoryEntry) (fields : Patch) (text : String)
    (result : EmbedResult) (k : RowKey) (db : Db) :
    ∃ vectored, replaceVector d w current fields text (result.encoded d text) k db = some vectored ∧
      vectored.memories = db.memories ∧
      (∀ k', k' ≠ k → vectored.vectors.find k' = db.vectors.find k') ∧
      (w.backend.vecAvailable = true → ∀ v, vectored.vectors.find k = some v → v.source =
        (fields .content).getD current.content ++ " " ++ (fields .detail).getD current.detail) := by
  unfold replaceVector
  split
  · rename_i hexists
    refine ⟨db, rfl, rfl, fun _ _ => rfl, fun havail v hv => ?_⟩
    simp [vectorExists, havail, hv] at hexists
  · have hother : ∀ k', k' ≠ k → (db.vectors.discard (· == k)).find k' = db.vectors.find k' := by
      intro k' hk'
      rw [Table.find_discard, if_neg (by simpa using hk')]
    have hgone : (db.vectors.discard (· == k)).find k = none := by
      rw [Table.find_discard, if_pos (by simp)]
    have hdropped : ∀ v, (db.vectors.discard (· == k)).find k = some v → v.source =
        (fields .content).getD current.content ++ " " ++ (fields .detail).getD current.detail := by
      intro v hv
      rw [hgone] at hv
      cases hv
    dsimp only
    cases hvector : result.encoded d text with
    | none => exact ⟨_, rfl, rfl, hother, fun _ => hdropped⟩
    | some vector =>
        obtain ⟨hsource, hproof⟩ := encoded_matches (Option.mem_def.mpr hvector)
        dsimp only
        split
        · rename_i hcommitted
          rw [upsertVector_eq fun p hp => (hproof p hp).2]
          refine ⟨_, rfl, ?_⟩
          split
          · refine ⟨rfl, fun k' hk' => ?_, fun _ v hv => ?_⟩
            · rw [Table.find_put_of_ne _ _ hk', hother k' hk']
            · rw [Table.find_put_self] at hv
              obtain rfl := Option.some.inj hv
              exact hsource.trans hcommitted.symm
          · exact ⟨rfl, hother, fun _ => hdropped⟩
        · exact ⟨_, rfl, rfl, hother, fun _ => hdropped⟩

/-- The fields that close a validity window. -/
def closeFields (entry : MemoryEntry) (now : Datetime) : Patch :=
  (Patch.none.set .invalidFrom (some now)).set .invalidatedBy (some entry.id)

/-- A prior is left alone, or its open window is closed. -/
theorem closePrior_ok {entry : MemoryEntry} {patch : LearningPatch τ} {prior : Option RowKey}
    {now : Datetime} {closed : Bool}
    (h : closePrior digest w blocks entry patch prior now db = .ok (db', closed)) :
    db' = db ∨ ∃ k row existing,
      RowPatched digest w db db' k (closeFields entry now) now row existing ∧
        row.invalidFrom = none := by
  unfold closePrior at h
  cases prior with
  | none => exact .inl (Prod.mk.inj (Except.ok.inj h)).1.symm
  | some k =>
      dsimp only at h
      split at h
      · exact .inl (Prod.mk.inj (Except.ok.inj h)).1.symm
      · obtain ⟨current, hget, hclose⟩ := bind_eq_ok h
        cases current with
        | none => exact .inl (Prod.mk.inj (Except.ok.inj hclose)).1.symm
        | some current =>
            dsimp only at hclose
            split at hclose
            · exact .inl (Prod.mk.inj (Except.ok.inj hclose)).1.symm
            · rename_i hopen
              obtain ⟨⟨updated, served⟩, hupdate, hdone⟩ := bind_eq_ok hclose
              obtain rfl := (Prod.mk.inj (Except.ok.inj hdone)).1
              rcases backendUpdate_patched hupdate with ⟨hsame, -⟩ | ⟨row, existing, hpatched⟩
              · exact .inl hsame
              · refine .inr ⟨k, row, existing, hpatched, ?_⟩
                obtain ⟨row', entry', hrow, hread, -, rfl⟩ := backendGet_some hget
                obtain rfl := Option.some.inj (hrow.symm.trans hpatched.found)
                obtain ⟨confidence, metadata, hview⟩ := servedView_fields entry'
                rw [hview, rowToEntry_eq hread] at hopen
                cases hend : row'.invalidFrom with
                | none => rfl
                | some _ => simp [readBack, hend] at hopen

end Effects

section Transaction

variable {τ : Type} [DecidableEq τ] {digest : SyncContent → String} {d : Digests}
  {token : MemoryEntry → τ} {rules : CorrectionRules} {w : Writer} {blocks : MemoryEntry → Bool}
  {entry : MemoryEntry} {patch : LearningPatch τ} {prior : Option RowKey} {result : EmbedResult}
  {now : Datetime} {db db' : Db} {outcome : CorrectionOutcome}

/-- A correction without success leaves the store, unless the ledger hides its row from the
update on; one with success has updated the row and gone through what follows. -/
theorem applyCorrection_cases
    (h : applyCorrection digest d token rules w blocks entry patch prior result now db =
      (db', outcome)) :
    (outcome.isSuccess = false ∧ db' = db) ∨
    (outcome = .notFound ∧ ∃ current, backendGet blocks db (rowKey entry) = .ok (some current) ∧
      backendUpdate digest w blocks (rowKey entry) (collect rules current patch) now db =
        .ok (db', false)) ∨
    (outcome.isSuccess = true ∧ ∃ current updated,
      backendGet blocks db (rowKey entry) = .ok (some current) ∧
      ((collect rules current patch).fields.isEmpty = true ∧ updated = db ∨
        (collect rules current patch).fields.isEmpty = false ∧
          backendUpdate digest w blocks (rowKey entry) (collect rules current patch) now db =
            .ok (updated, true)) ∧
      finishCorrection digest d w blocks entry current patch (collect rules current patch) prior
        result now updated = some (db', outcome)) := by
  have hfinished : ∀ {current : MemoryEntry} {fields : Patch} {updated : Db}
      {finished : Db × CorrectionOutcome},
      finishCorrection digest d w blocks entry current patch fields prior result now updated =
        some finished → finished.2.isSuccess = true := by
    intro current fields updated finished hfinish
    obtain ⟨vectored, -, hclose⟩ := Option.bind_eq_some_iff.mp hfinish
    cases hclosed : closePrior digest w blocks entry patch prior now vectored with
    | error _ => simp [hclosed] at hclose
    | ok closed =>
        simp only [hclosed, Option.some.injEq] at hclose
        subst hclose
        dsimp only
        split <;> rfl
  have hunchanged : ∀ {o : CorrectionOutcome}, o.isSuccess = false → (db, o) = (db', outcome) →
      outcome.isSuccess = false ∧ db' = db := by
    rintro o ho ⟨rfl, rfl⟩
    exact ⟨ho, rfl⟩
  unfold applyCorrection at h
  split at h
  · exact .inl (hunchanged rfl h)
  · cases hget : backendGet blocks db (rowKey entry) with
    | error _ =>
        rw [hget] at h
        exact .inl (hunchanged rfl h)
    | ok found =>
        cases found with
        | none =>
            rw [hget] at h
            exact .inl (hunchanged rfl h)
        | some current =>
            rw [hget] at h
            dsimp only at h
            split at h
            · exact .inl (hunchanged rfl h)
            · split at h
              · exact .inl (hunchanged rfl h)
              · split at h
                · rename_i hempty
                  cases hfinish : finishCorrection digest d w blocks entry current patch
                      (collect rules current patch) prior result now db with
                  | none =>
                      rw [hfinish] at h
                      exact .inl (hunchanged rfl h)
                  | some finished =>
                      rw [hfinish] at h
                      obtain rfl : finished = (db', outcome) := h
                      exact .inr (.inr ⟨hfinished hfinish, current, db, rfl, .inl ⟨hempty, rfl⟩,
                        hfinish⟩)
                · rename_i hnamed
                  cases hupdate : backendUpdate digest w blocks (rowKey entry)
                      (collect rules current patch) now db with
                  | error error =>
                      rw [hupdate] at h
                      cases error with
                      | schema _ | unreadable _ => exact .inl (hunchanged rfl h)
                  | ok updated =>
                      rw [hupdate] at h
                      obtain ⟨updated, served⟩ := updated
                      cases served with
                      | false =>
                          obtain ⟨rfl, rfl⟩ := Prod.mk.inj h
                          exact .inr (.inl ⟨rfl, current, rfl, hupdate⟩)
                      | true =>
                          dsimp only at h
                          cases hfinish : finishCorrection digest d w blocks entry current patch
                              (collect rules current patch) prior result now updated with
                          | none =>
                              rw [hfinish] at h
                              exact .inl (hunchanged rfl h)
                          | some finished =>
                              rw [hfinish] at h
                              obtain rfl : finished = (db', outcome) := h
                              exact .inr (.inr ⟨hfinished hfinish, current, updated, rfl,
                                .inr ⟨by simpa using hnamed, hupdate⟩, hfinish⟩)

/-- What a correction with success has gone through. -/
structure Corrects (digest : SyncContent → String) (rules : CorrectionRules) (w : Writer)
    (blocks : MemoryEntry → Bool) (entry : MemoryEntry) (patch : LearningPatch τ)
    (prior : Option RowKey) (now : Datetime) (db updated vectored db' : Db)
    (row existing : MemoryEntry) : Prop where
  found : db.memories.find (rowKey entry) = some row
  read : rowToEntry row = some existing
  update : (collect rules (servedView existing) patch).fields.isEmpty = true ∧ updated = db ∨
    RowPatched digest w db updated (rowKey entry) (collect rules (servedView existing) patch) now
      row existing
  memories : vectored.memories = updated.memories
  others : ∀ k, k ≠ rowKey entry → vectored.vectors.find k = updated.vectors.find k
  sameText : patch.textChanged = false → vectored = updated
  newText : patch.textChanged = true → w.backend.vecAvailable = true →
    ∀ v, vectored.vectors.find (rowKey entry) = some v → v.source =
      ((collect rules (servedView existing) patch) .content).getD row.content ++ " " ++
        ((collect rules (servedView existing) patch) .detail).getD row.detail
  close : ∃ closed, closePrior digest w blocks entry patch prior now vectored = .ok (db', closed)

theorem corrects_of_success (ho : outcome.isSuccess = true)
    (h : applyCorrection digest d token rules w blocks entry patch prior result now db =
      (db', outcome)) :
    ∃ updated vectored row existing,
      Corrects digest rules w blocks entry patch prior now db updated vectored db' row
        existing := by
  rcases applyCorrection_cases h with ⟨hfailed, -⟩ | ⟨rfl, -⟩ |
    ⟨-, current, updated, hget, hupdate, hfinish⟩
  · rw [hfailed] at ho
    cases ho
  · cases ho
  · obtain ⟨row, existing, hrow, hread, -, rfl⟩ := backendGet_some hget
    obtain ⟨vectored, hvectored, hclose⟩ := Option.bind_eq_some_iff.mp hfinish
    have hpatched : (collect rules (servedView existing) patch).fields.isEmpty = true ∧
        updated = db ∨ RowPatched digest w db updated (rowKey entry)
          (collect rules (servedView existing) patch) now row existing := by
      rcases hupdate with hempty | ⟨hnamed, hupdate⟩
      · exact .inl hempty
      · rcases backendUpdate_patched hupdate with ⟨-, hempty⟩ | ⟨row', existing', hpatched⟩
        · rw [hempty _ hget] at hnamed
          cases hnamed
        · obtain rfl := Option.some.inj (hrow.symm.trans hpatched.found)
          obtain rfl := Option.some.inj (hread.symm.trans hpatched.read)
          exact .inr hpatched
    have hclosed : ∃ closed,
        closePrior digest w blocks entry patch prior now vectored = .ok (db', closed) := by
      cases hprior : closePrior digest w blocks entry patch prior now vectored with
      | error _ => simp [hprior] at hclose
      | ok finished =>
          simp only [hprior, Option.some.injEq, Prod.mk.injEq] at hclose
          exact ⟨finished.2, by rw [← hclose.1]⟩
    cases hchanged : patch.textChanged with
    | false =>
        rw [hchanged, if_neg Bool.false_ne_true, Option.some.injEq] at hvectored
        subst hvectored
        exact ⟨updated, updated, row, existing, hrow, hread, hpatched, rfl, fun _ _ => rfl,
          fun _ => rfl, (fun hnot => by rw [hchanged] at hnot; cases hnot), hclosed⟩
    | true =>
        obtain ⟨replaced, hreplaced, hmemories, hothers, hsource⟩ :=
          replaceVector_spec (d := d) (w := w) (servedView existing)
            (collect rules (servedView existing) patch) (patch.textOf entry) result
            (rowKey entry) updated
        rw [hchanged, if_pos rfl, hreplaced, Option.some.injEq] at hvectored
        subst hvectored
        have hkept : (servedView existing).content = row.content ∧
            (servedView existing).detail = row.detail := by
          obtain ⟨confidence, metadata, hview⟩ := servedView_fields existing
          rw [hview, rowToEntry_eq hread]
          exact ⟨rfl, rfl⟩
        rw [hkept.1, hkept.2] at hsource
        exact ⟨updated, replaced, row, existing, hrow, hread, hpatched, hmemories, hothers,
          (fun hnot => by rw [hchanged] at hnot; cases hnot), fun _ => hsource, hclosed⟩

/-- The row is served after the update, where there is one. -/
def staysServed (digest : SyncContent → String) (rules : CorrectionRules) (w : Writer)
    (blocks : MemoryEntry → Bool) (entry : MemoryEntry) (patch : LearningPatch τ) (now : Datetime)
    (db : Db) : Bool :=
  match backendGet blocks db (rowKey entry) with
  | .ok (some current) =>
      match backendUpdate digest w blocks (rowKey entry) (collect rules current patch) now db with
      | .ok (_, served) => served
      | .error _ => true
  | _ => true

theorem unchanged_of_not_success (ho : outcome.isSuccess = false)
    (h : applyCorrection digest d token rules w blocks entry patch prior result now db =
      (db', outcome))
    (hserved : staysServed digest rules w blocks entry patch now db = true) : db' = db := by
  rcases applyCorrection_cases h with ⟨-, hsame⟩ | ⟨-, current, hget, hhidden⟩ | ⟨hsuccess, -⟩
  · exact hsame
  · rw [staysServed, hget] at hserved
    dsimp only at hserved
    rw [hhidden] at hserved
    cases hserved
  · rw [hsuccess] at ho
    cases ho

end Transaction

end TrwMemory.Lifecycle

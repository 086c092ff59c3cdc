import TrwMemory.Lifecycle.CorrectionEffects
import TrwMemory.Lifecycle.CorrectionGuarantees

/-!
The rows after a correction and its outcome depend on the rows before it: not on the caller's
copy of the row, which only names it, and not on the vectors. So corrections that are committed
one after another, each with its caller's own copy of the row, leave what callers would who read
the row first, and what one of them leaves, all of them leave.
-/
namespace TrwMemory.Lifecycle

open Library Library.Keyed Storage Sync Tools Embeddings

/-- A result without its vectors and sidecars. -/
def rowsOf {α : Type} (r : Db × α) : Table RowKey MemoryEntry × α := (r.1.memories, r.2)

section Rows

variable {digest : SyncContent → String} {w : Writer} {blocks : MemoryEntry → Bool}
  {db db' : Db} (hrows : db.memories = db'.memories)

include hrows

theorem backendGet_rows (k : RowKey) : backendGet blocks db k = backendGet blocks db' k := by
  unfold backendGet
  rw [hrows]

theorem updateScript_rows (k : RowKey) (fields : Patch) (now : Datetime) :
    updateScript digest w.backend db k blocks fields now =
      updateScript digest w.backend db' k blocks fields now := by
  unfold updateScript
  rw [hrows]

theorem execute_rows {k : RowKey} {fields : Patch} {now : Datetime} {statements : List Statement}
    (h : updateScript digest w.backend db k blocks fields now = .ok statements) :
    (execute statements db).memories = (execute statements db').memories := by
  have h' := h
  rw [updateScript_rows hrows] at h'
  rcases updateScript_ok h with ⟨rfl, -⟩ | ⟨row, existing, hpatched⟩
  · exact hrows
  · rcases updateScript_ok h' with ⟨rfl, -⟩ | ⟨row', existing', hpatched'⟩
    · exact hrows
    · have hfound := hpatched'.found
      rw [← hrows, hpatched.found] at hfound
      obtain rfl := Option.some.inj hfound
      obtain rfl := Option.some.inj (hpatched.read.symm.trans hpatched'.read)
      rw [hpatched.memories, hpatched'.memories, hrows]

theorem backendUpdate_rows (k : RowKey) (fields : Patch) (now : Datetime) :
    (backendUpdate digest w blocks k fields now db).map rowsOf =
      (backendUpdate digest w blocks k fields now db').map rowsOf := by
  unfold backendUpdate
  cases hscript : updateScript digest w.backend db k blocks fields now with
  | error _ =>
      rw [updateScript_rows hrows] at hscript
      rw [hscript]
      rfl
  | ok statements =>
      have hexecuted := execute_rows hrows hscript
      rw [updateScript_rows hrows] at hscript
      rw [hscript]
      simp only [bind, Except.bind]
      rw [backendGet_rows hexecuted]
      cases backendGet blocks (execute statements db') k with
      | error _ => rfl
      | ok served =>
          simp only [pure, Except.pure, Except.map, rowsOf]
          rw [hexecuted]

theorem closePrior_rows {τ : Type} {entry entry' : MemoryEntry} (hid : entry.id = entry'.id)
    (patch : LearningPatch τ) (prior : Option RowKey) (now : Datetime) :
    (closePrior digest w blocks entry patch prior now db).map rowsOf =
      (closePrior digest w blocks entry' patch prior now db').map rowsOf := by
  unfold closePrior
  rw [← hid]
  cases prior with
  | none => simp only [Except.map, rowsOf, hrows]
  | some k =>
      dsimp only
      split
      · simp only [Except.map, rowsOf, hrows]
      · rw [backendGet_rows hrows]
        cases backendGet blocks db' k with
        | error _ => rfl
        | ok current =>
            cases current with
            | none => simp only [bind, Except.bind, pure, Except.pure, Except.map, rowsOf,
                hrows]
            | some existing =>
                simp only [bind, Except.bind]
                split
                · simp only [pure, Except.pure, Except.map, rowsOf, hrows]
                · have hupdate := @backendUpdate_rows digest w blocks db db' hrows k
                    ((Patch.none.set .invalidFrom (some now)).set .invalidatedBy (some entry.id))
                    now
                  generalize backendUpdate digest w blocks k _ now db = updated at hupdate ⊢
                  generalize backendUpdate digest w blocks k _ now db' = updated' at hupdate ⊢
                  cases updated with
                  | error error =>
                      cases updated' with
                      | error error' =>
                          obtain rfl := Except.error.inj hupdate
                          rfl
                      | ok _ => cases hupdate
                  | ok updated =>
                      cases updated' with
                      | error _ => cases hupdate
                      | ok updated' =>
                          have hsame := (Prod.mk.inj (Except.ok.inj hupdate)).1
                          simp only [pure, Except.pure, Except.map, rowsOf]
                          rw [hsame]

end Rows

section Transaction

variable {τ : Type} {digest : SyncContent → String} {d : Digests}
  {rules : CorrectionRules} {w : Writer} {blocks : MemoryEntry → Bool}
  {entry entry' current : MemoryEntry} {patch : LearningPatch τ} {prior : Option RowKey}
  {result : EmbedResult} {now : Datetime} {db db' : Db}

theorem vectored_rows (fields : Patch) (hrows : db.memories = db'.memories) :
    ∃ vectored vectored',
      (if patch.textChanged then replaceVector d w current fields (patch.textOf entry)
        (result.encoded d (patch.textOf entry)) (rowKey entry) db else some db) = some vectored ∧
      (if patch.textChanged then replaceVector d w current fields (patch.textOf entry')
        (result.encoded d (patch.textOf entry')) (rowKey entry') db' else some db') =
          some vectored' ∧ vectored.memories = vectored'.memories := by
  split
  · obtain ⟨vectored, hvectored, hmemories, -⟩ :=
      replaceVector_spec (d := d) (w := w) current fields (patch.textOf entry) result
        (rowKey entry) db
    obtain ⟨vectored', hvectored', hmemories', -⟩ :=
      replaceVector_spec (d := d) (w := w) current fields (patch.textOf entry') result
        (rowKey entry') db'
    exact ⟨vectored, vectored', hvectored, hvectored', by rw [hmemories, hmemories', hrows]⟩
  · exact ⟨db, db', rfl, rfl, hrows⟩

theorem finishCorrection_rows (hkey : rowKey entry = rowKey entry') (fields : Patch)
    (hrows : db.memories = db'.memories) :
    (finishCorrection digest d w blocks entry current patch fields prior result now db).map rowsOf =
      (finishCorrection digest d w blocks entry' current patch fields prior result now db').map
        rowsOf := by
  obtain ⟨vectored, vectored', hvectored, hvectored', hmemories⟩ :=
    @vectored_rows τ d w entry entry' current patch result db db' fields hrows
  have hid : entry.id = entry'.id := congrArg RowKey.id hkey
  have hclose := @closePrior_rows digest w blocks vectored vectored' hmemories τ entry entry' hid
    patch prior now
  unfold finishCorrection
  dsimp only
  rw [hvectored, hvectored', Option.bind_some, Option.bind_some]
  cases hprior : closePrior digest w blocks entry patch prior now vectored with
  | error _ =>
      cases hprior' : closePrior digest w blocks entry' patch prior now vectored' with
      | error _ => rfl
      | ok _ =>
          rw [hprior, hprior'] at hclose
          cases hclose
  | ok closed =>
      cases hprior' : closePrior digest w blocks entry' patch prior now vectored' with
      | error _ =>
          rw [hprior, hprior'] at hclose
          cases hclose
      | ok closed' =>
          rw [hprior, hprior'] at hclose
          obtain ⟨hrows', hclosed⟩ := Prod.mk.inj (Except.ok.inj hclose)
          dsimp only [Option.map_some, rowsOf]
          rw [hrows', hclosed]

theorem getD_rows {x x' : Option (Db × CorrectionOutcome)} (h : x.map rowsOf = x'.map rowsOf)
    (hrows : db.memories = db'.memories) :
    rowsOf (x.getD (db, .failed)) = rowsOf (x'.getD (db', .failed)) := by
  cases x with
  | none =>
      cases x' with
      | none => simp only [Option.getD_none, rowsOf, hrows]
      | some _ => cases h
  | some r =>
      cases x' with
      | none => cases h
      | some r' => exact Option.some.inj h

variable [DecidableEq τ] {token : MemoryEntry → τ}

/-- Two copies of one row, and two stores with the same rows. -/
theorem applyCorrection_rows (hkey : rowKey entry = rowKey entry')
    (hrows : db.memories = db'.memories) :
    rowsOf (applyCorrection digest d token rules w blocks entry patch prior result now db) =
      rowsOf (applyCorrection digest d token rules w blocks entry' patch prior result now db') := by
  have hunchanged : ∀ o : CorrectionOutcome, rowsOf (db, o) = rowsOf (db', o) := by
    intro o
    simp only [rowsOf, hrows]
  unfold applyCorrection
  rw [← hkey, backendGet_rows hrows]
  split
  · exact hunchanged _
  · cases backendGet blocks db' (rowKey entry) with
    | error _ => exact hunchanged _
    | ok found =>
        cases found with
        | none => exact hunchanged _
        | some current =>
            dsimp only
            split
            · exact hunchanged _
            · split
              · exact hunchanged _
              · split
                · exact getD_rows (finishCorrection_rows hkey _ hrows) hrows
                · have hupdate := @backendUpdate_rows digest w blocks db db' hrows (rowKey entry)
                    (collect rules current patch) now
                  generalize backendUpdate digest w blocks (rowKey entry) _ now db = updated
                    at hupdate ⊢
                  generalize backendUpdate digest w blocks (rowKey entry) _ now db' = updated'
                    at hupdate ⊢
                  cases updated with
                  | error error =>
                      cases updated' with
                      | ok _ => cases hupdate
                      | error error' =>
                          obtain rfl := Except.error.inj hupdate
                          cases error with
                          | schema _ | unreadable _ => exact hunchanged _
                  | ok updated =>
                      cases updated' with
                      | error _ => cases hupdate
                      | ok updated' =>
                          obtain ⟨updated, served⟩ := updated
                          obtain ⟨updated', served'⟩ := updated'
                          obtain ⟨hmemories, hserved⟩ := Prod.mk.inj (Except.ok.inj hupdate)
                          subst hserved
                          cases served with
                          | false => exact Prod.ext hmemories rfl
                          | true =>
                              exact getD_rows (finishCorrection_rows hkey _ hmemories) hrows

end Transaction

open Library.Transition

section Serial

variable {τ : Type} [DecidableEq τ] (digest : SyncContent → String) (d : Digests)
  (token : MemoryEntry → τ) (calls : Nat → CorrectionCall τ)

/-- The store after the corrections that were committed, with the callers' own copies. -/
inductive Committed (first : Db) : List (Nat × Datetime) → Db → Prop where
  | start : Committed first [] first
  | commit {commits c now db db' outcome} : Committed first commits db →
      transact digest d token calls c now db = (db', outcome) → outcome.isSuccess = true →
      Committed first (commits ++ [(c, now)]) db'

/-- The caller's copy of its row, read from this store. -/
def freshCopy (call : CorrectionCall τ) (db : Db) : MemoryEntry :=
  match backendGet call.blocks db (rowKey call.entry) with
  | .ok (some current) => 
      { current with id := call.entry.id, ns := call.entry.ns, id_ne := call.entry.id_ne }
  | _ => call.entry

/-- A whole call with nothing in between. -/
def correctAlone (c : Nat) (now : Datetime) (db : Db) : Db × CorrectionOutcome :=
  let call := calls c
  applyCorrection digest d token call.rules call.w call.blocks (freshCopy call db) call.patch
    call.prior.inStore call.result now db

/-- Calls one after another, each with success. -/
inductive Serial (first : Db) : List (Nat × Datetime) → Db → Prop where
  | start : Serial first [] first
  | call {commits c now db db' outcome} : Serial first commits db →
      correctAlone digest d token calls c now db = (db', outcome) → outcome.isSuccess = true →
      Serial first (commits ++ [(c, now)]) db'

variable {digest d token calls} {first db : Db} {commits : List (Nat × Datetime)}

omit [DecidableEq τ] in
theorem rowKey_freshCopy (call : CorrectionCall τ) (db : Db) :
    rowKey (freshCopy call db) = rowKey call.entry := by
  unfold freshCopy
  split <;> rfl

theorem Committed.serial (h : Committed digest d token calls first commits db) :
    ∃ db', Serial digest d token calls first commits db' ∧ db'.memories = db.memories := by
  induction h with
  | start => exact ⟨first, .start, rfl⟩
  | @commit commits c now db db' outcome _ hstep hsuccess ih =>
      obtain ⟨alone, hserial, hrows⟩ := ih
      have hkey := rowKey_freshCopy (calls c) alone
      have hsame : rowsOf (correctAlone digest d token calls c now alone) =
          rowsOf (transact digest d token calls c now db) := applyCorrection_rows hkey hrows
      cases halone : correctAlone digest d token calls c now alone with
      | mk alone' outcome' =>
          rw [hstep, halone] at hsame
          obtain ⟨hmemories, rfl⟩ := Prod.mk.inj hsame
          exact ⟨alone', .call hserial halone hsuccess, hmemories⟩

theorem transact_corrects {c : Nat} {now : Datetime} {db' : Db} {outcome : CorrectionOutcome}
    (h : transact digest d token calls c now db = (db', outcome))
    (hsuccess : outcome.isSuccess = true) :
    ∃ updated vectored row existing,
      Corrects digest (calls c).rules (calls c).w (calls c).blocks (calls c).entry (calls c).patch
        (calls c).prior.inStore now db updated vectored db' row existing :=
  corrects_of_success hsuccess h

theorem Committed.endsKept (h : Committed digest d token calls first commits db) :
    EndsKept first db := by
  induction h with
  | start => exact endsKept_of_memories rfl
  | commit _ hstep hsuccess ih =>
      obtain ⟨_, _, _, _, hcorrects⟩ := transact_corrects hstep hsuccess
      exact ih.trans hcorrects.endsKept

theorem Committed.liveVectors (h : Committed digest d token calls first commits db)
    (havail : ∀ commit ∈ commits, (calls commit.1).w.backend.vecAvailable = true)
    (hlive : LiveVectors first) : LiveVectors db := by
  induction h with
  | start => exact hlive
  | @commit commits c now db db' outcome _ hstep hsuccess ih =>
      obtain ⟨_, _, _, _, hcorrects⟩ := transact_corrects hstep hsuccess
      refine hcorrects.liveVectors (havail (c, now) (by simp)) (ih fun commit hcommit => ?_)
      exact havail commit (List.mem_append_left _ hcommit)

/-- What a committed correction adds stays until one names the whole list of that row. -/
theorem Committed.hasTags (h : Committed digest d token calls first commits db)
    {before after : List (Nat × Datetime)} {c : Nat} {now : Datetime} {tags : List String}
    (hcommits : commits = before ++ (c, now) :: after)
    (hadd : (calls c).patch.tagsAdd = some tags)
    (hunnamed : ∀ later ∈ after, rowKey (calls later.1).entry = rowKey (calls c).entry →
      (calls later.1).patch.tags = none) :
    HasTags db (rowKey (calls c).entry) tags := by
  induction h generalizing after with
  | start => simp at hcommits
  | @commit commits last at_ db db' outcome _ hstep hsuccess ih =>
      obtain ⟨_, _, _, _, hcorrects⟩ := transact_corrects hstep hsuccess
      rcases List.eq_nil_or_concat after with rfl | ⟨after, final, rfl⟩
      · obtain ⟨-, hlast⟩ := List.append_inj' hcommits rfl
        obtain ⟨rfl, rfl⟩ := Prod.mk.inj (List.cons.inj hlast).1
        exact hcorrects.adds hadd
      · rw [List.concat_eq_append] at hcommits hunnamed
        rw [← List.cons_append, ← List.append_assoc] at hcommits
        obtain ⟨hbefore, hlast⟩ := List.append_inj' hcommits rfl
        have hfinal := (List.cons.inj hlast).1
        refine hcorrects.hasTags (fun hkey => ?_) (ih hbefore fun later hlater => ?_)
        · exact hunnamed (last, at_) (by rw [hfinal]; simp) hkey.symm
        · exact hunnamed later (List.mem_append_left _ hlater)

end Serial

end TrwMemory.Lifecycle

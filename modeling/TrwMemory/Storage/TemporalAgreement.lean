import TrwMemory.Storage.TemporalFetch

/-!
A batch whose rows are dropped early moves the selection as the whole batch does. The count of
deferred entries runs ahead of the selection's own list by what a batch holds; it is never
ahead of what the list will hold once the batch was offered.
-/
namespace TrwMemory.Codec

open Library Storage Retrieval

section Selecting

variable {eligible : Window → Except PyError Bool} {selection : TemporalSelection} {limit : Nat}

theorem selectFrom_full {selected : Selected} (h : selected.isFull limit = true)
    (entries : List MemoryEntry) :
    selectFrom eligible selection limit selected entries = .ok selected := by
  cases entries with
  | nil => rfl
  | cons e entries => rw [selectFrom, h, if_pos rfl]

theorem selectFrom_append (selected : Selected) (first rest : List MemoryEntry) :
    selectFrom eligible selection limit selected (first ++ rest) =
      selectFrom eligible selection limit selected first >>= fun selected =>
        selectFrom eligible selection limit selected rest := by
  induction first generalizing selected with
  | nil => rfl
  | cons e first ih =>
      rw [List.cons_append, selectFrom, selectFrom]
      cases hfull : selected.isFull limit with
      | true =>
          rw [if_pos rfl, if_pos rfl]
          exact (selectFrom_full hfull rest).symm
      | false =>
          rw [if_neg Bool.false_ne_true, if_neg Bool.false_ne_true]
          cases offer eligible selection limit selected e with
          | ok selected => exact ih selected
          | error error => rfl

/-- The list holds as many deferred entries as were counted, up to the quota. -/
def Counted (selection : TemporalSelection) (limit deferred : Nat) (selected : Selected) : Prop :=
  selected.isFull limit = true ∨
    (selection.includeSuperseded = true → min limit deferred ≤ selected.deferred.length)

end Selecting

section Agreement

variable {py : Python} {pydantic : Pydantic} {dateFromisoformat : String → Option Int}
  {selection : TemporalSelection} {limit : Nat} {entryFilter : MemoryEntry → Bool}

variable (py dateFromisoformat selection) in
/-- The early decision about a row raises: its metadata cannot be read, a timestamp of its
window cannot be moved to UTC, or its window does not compare with the instant. -/
def EarlyRaises (cells : Cells) : Prop :=
  (earlyCanary py selection cells).isOk = false ∨
    earlyCanary py selection cells = .ok false ∧
      (earlyWindow py selection cells >>= selection.eligible py dateFromisoformat).isOk = false

/-- Whether the decision raises does not depend on the count. -/
theorem retain_raises {deferred : Nat} {cells : Cells}
    (h : (retain py dateFromisoformat selection limit deferred cells).isOk = true) :
    ¬EarlyRaises py dateFromisoformat selection cells := by
  rw [retain] at h
  rintro (hcanary | ⟨hcanary, hwindow⟩)
  · cases hearly : earlyCanary py selection cells with
    | ok canary =>
        rw [hearly] at hcanary
        cases hcanary
    | error error =>
        rw [hearly] at h
        cases h
  · rw [hcanary] at h
    cases hearly : earlyWindow py selection cells with
    | error error =>
        simp only [hearly, bind, Except.bind] at h
        cases h
    | ok window =>
        rw [hearly] at hwindow
        simp only [hearly, bind, Except.bind] at h hwindow
        cases heligible : selection.eligible py dateFromisoformat window with
        | ok b =>
            rw [heligible] at hwindow
            cases hwindow
        | error error =>
            rw [heligible] at h
            cases h

theorem retain_ok (limit deferred : Nat) {cells : Cells}
    (h : ¬EarlyRaises py dateFromisoformat selection cells) :
    ∃ kept, retain py dateFromisoformat selection limit deferred cells = .ok kept := by
  rw [EarlyRaises, not_or, not_and] at h
  rw [retain]
  cases hcanary : earlyCanary py selection cells with
  | error error =>
      rw [hcanary] at h
      exact absurd rfl h.1
  | ok canary =>
      cases canary with
      | true => exact ⟨false, rfl⟩
      | false =>
          have heligible := h.2 hcanary
          cases hwindow : earlyWindow py selection cells with
          | error error =>
              rw [hwindow] at heligible
              exact absurd rfl heligible
          | ok window =>
              rw [hwindow] at heligible
              change ¬(selection.eligible py dateFromisoformat window).isOk = false at heligible
              cases hopen : selection.eligible py dateFromisoformat window with
              | error error =>
                  rw [hopen] at heligible
                  exact absurd rfl heligible
              | ok b =>
                  refine ⟨b || (selection.includeSuperseded && deferred < limit), ?_⟩
                  simp only [bind, Except.bind, hopen]
                  rfl

/-- The decision about a row that is mapped to an entry. -/
theorem retain_mapped {deferred : Nat} {cells : Cells} {e : MemoryEntry}
    (h : mapFiltered py pydantic selection entryFilter cells = .ok (some e)) :
    retain py dateFromisoformat selection limit deferred cells =
      if selection.excludeSystemCanaries && isSystemCanary e.metadata then .ok false
      else (selection.eligible py dateFromisoformat (windowOf e)).map fun open_ =>
        open_ || (selection.includeSuperseded && deferred < limit) := by
  obtain ⟨hwindow, hcanary⟩ := mapFiltered_early h
  rw [retain, hcanary, hwindow]
  cases selection.excludeSystemCanaries && isSystemCanary e.metadata with
  | true => rfl
  | false =>
      change (selection.eligible py dateFromisoformat (windowOf e) >>= _) = _
      cases selection.eligible py dateFromisoformat (windowOf e) <;> rfl

/-- A row that is dropped early would not have been selected. -/
theorem offer_dropped {deferred : Nat} {selected : Selected} {cells : Cells} {e : MemoryEntry}
    (h : mapFiltered py pydantic selection entryFilter cells = .ok (some e))
    (hdrop : retain py dateFromisoformat selection limit deferred cells = .ok false)
    (hcount : selection.includeSuperseded = true → min limit deferred ≤ selected.deferred.length) :
    offer (selection.eligible py dateFromisoformat) selection limit selected e = .ok selected := by
  rw [retain_mapped h] at hdrop
  rw [offer]
  cases hcanary : selection.excludeSystemCanaries && isSystemCanary e.metadata with
  | true => rfl
  | false =>
      rw [hcanary, if_neg Bool.false_ne_true] at hdrop
      rw [if_neg Bool.false_ne_true]
      cases heligible : selection.eligible py dateFromisoformat (windowOf e) with
      | error error =>
          rw [heligible] at hdrop
          cases hdrop
      | ok b =>
          rw [heligible] at hdrop
          have hkept := Except.ok.inj hdrop
          rw [Bool.or_eq_false_iff] at hkept
          obtain ⟨rfl, hkept⟩ := hkept
          refine if_neg fun hroom => ?_
          simp only [Bool.and_eq_true, decide_eq_true_eq] at hroom
          have hle := hcount hroom.1
          simp only [hroom.1, Bool.true_and, decide_eq_false_iff_not] at hkept
          omega

/-- A row that is kept is offered, and the count follows the list. -/
theorem offer_kept {deferred : Nat} {selected selected' : Selected} {cells : Cells}
    {e : MemoryEntry} (h : mapFiltered py pydantic selection entryFilter cells = .ok (some e))
    (hkeep : retain py dateFromisoformat selection limit deferred cells = .ok true)
    (hcount : selection.includeSuperseded = true → min limit deferred ≤ selected.deferred.length)
    (hoffer : offer (selection.eligible py dateFromisoformat) selection limit selected e =
      .ok selected') :
    ∃ deferred', accepted py dateFromisoformat selection deferred e = .ok deferred' ∧
      (selection.includeSuperseded = true →
        min limit deferred' ≤ selected'.deferred.length) := by
  rw [retain_mapped h] at hkeep
  rw [offer] at hoffer
  rw [accepted]
  cases hcanary : selection.excludeSystemCanaries && isSystemCanary e.metadata with
  | true =>
      rw [hcanary, if_pos rfl] at hkeep
      cases hkeep
  | false =>
      rw [hcanary, if_neg Bool.false_ne_true] at hkeep hoffer
      cases heligible : selection.eligible py dateFromisoformat (windowOf e) with
      | error error =>
          rw [heligible] at hkeep
          cases hkeep
      | ok b =>
          rw [heligible] at hoffer hkeep
          cases b with
          | true =>
              refine ⟨deferred, rfl, fun hinclude => ?_⟩
              rw [← Except.ok.inj hoffer]
              exact hcount hinclude
          | false =>
              refine ⟨deferred + 1, rfl, fun hinclude => ?_⟩
              have hle := hcount hinclude
              change (if selection.includeSuperseded && selected.deferred.length < limit then _
                else _) = _ at hoffer
              split at hoffer
              · rw [← Except.ok.inj hoffer]
                simp only [List.length_append, List.length_singleton]
                omega
              · rename_i hroom
                rw [← Except.ok.inj hoffer]
                simp only [hinclude, Bool.true_and, decide_eq_true_eq] at hroom
                omega

/-- Whether an entry is counted can be decided where its row was kept. -/
theorem accepted_kept {deferred : Nat} {cells : Cells} {e : MemoryEntry}
    (h : mapFiltered py pydantic selection entryFilter cells = .ok (some e))
    (hkeep : retain py dateFromisoformat selection limit deferred cells = .ok true) :
    ∃ deferred', accepted py dateFromisoformat selection deferred e = .ok deferred' := by
  rw [retain_mapped h] at hkeep
  rw [accepted]
  cases hcanary : selection.excludeSystemCanaries && isSystemCanary e.metadata with
  | true =>
      rw [hcanary, if_pos rfl] at hkeep
      cases hkeep
  | false =>
      rw [hcanary, if_neg Bool.false_ne_true] at hkeep
      cases heligible : selection.eligible py dateFromisoformat (windowOf e) with
      | error error =>
          rw [heligible] at hkeep
          cases hkeep
      | ok b => cases b <;> exact ⟨_, rfl⟩

theorem selectFrom_singleton {selected : Selected} (h : selected.isFull limit = false)
    (eligible : Window → Except PyError Bool) (e : MemoryEntry) :
    selectFrom eligible selection limit selected [e] =
      offer eligible selection limit selected e := by
  rw [selectFrom, h, if_neg Bool.false_ne_true]
  cases offer eligible selection limit selected e <;> rfl

theorem select_dropped {deferred : Nat} {selected selected' : Selected} {cells : Cells}
    {mapped : Option MemoryEntry}
    (h : mapFiltered py pydantic selection entryFilter cells = .ok mapped)
    (hdrop : retain py dateFromisoformat selection limit deferred cells = .ok false)
    (hcount : Counted selection limit deferred selected)
    (hselect : selectFrom (selection.eligible py dateFromisoformat) selection limit selected
      mapped.toList = .ok selected') : selected' = selected := by
  cases mapped with
  | none => exact (Except.ok.inj hselect).symm
  | some e =>
      rw [Option.toList_some] at hselect
      cases hfull : selected.isFull limit with
      | true =>
          rw [selectFrom_full hfull] at hselect
          exact (Except.ok.inj hselect).symm
      | false =>
          have hcount := hcount.resolve_left (by simp [hfull])
          rw [selectFrom_singleton hfull, offer_dropped h hdrop hcount] at hselect
          exact (Except.ok.inj hselect).symm

theorem select_kept {deferred : Nat} {selected selected' : Selected} {cells : Cells}
    {e : MemoryEntry} (h : mapFiltered py pydantic selection entryFilter cells = .ok (some e))
    (hkeep : retain py dateFromisoformat selection limit deferred cells = .ok true)
    (hcount : Counted selection limit deferred selected)
    (hselect : selectFrom (selection.eligible py dateFromisoformat) selection limit selected [e] =
      .ok selected') :
    ∃ deferred', accepted py dateFromisoformat selection deferred e = .ok deferred' ∧
      Counted selection limit deferred' selected' := by
  cases hfull : selected.isFull limit with
  | true =>
      rw [selectFrom_full hfull] at hselect
      obtain rfl := Except.ok.inj hselect
      obtain ⟨deferred', haccepted⟩ := accepted_kept h hkeep
      exact ⟨deferred', haccepted, .inl hfull⟩
  | false =>
      have hcount := hcount.resolve_left (by simp [hfull])
      rw [selectFrom_singleton hfull] at hselect
      obtain ⟨deferred', haccepted, hcount'⟩ := offer_kept h hkeep hcount hselect
      exact ⟨deferred', haccepted, .inr hcount'⟩

/-- No early decision about a row raises. -/
def Quiet (py : Python) (dateFromisoformat : String → Option Int) (selection : TemporalSelection)
    (rows : List RawRow) : Prop :=
  ∀ row ∈ rows, ∀ cells, row.decode SqlValue.decoded = some cells →
    ¬EarlyRaises py dateFromisoformat selection cells

/-- A batch whose rows are dropped early moves the selection as the whole batch does. -/
theorem decodeRetained_agrees {rows : List RawRow}
    (hquiet : Quiet py dateFromisoformat selection rows) {deferred : Nat}
    {selected selected' : Selected} {entries : List MemoryEntry}
    (hcount : Counted selection limit deferred selected)
    (hrows : decodeRows py pydantic selection entryFilter rows = .ok entries)
    (hselect : selectFrom (selection.eligible py dateFromisoformat) selection limit selected
      entries =
      .ok selected') :
    ∃ kept deferred', decodeRetained py pydantic dateFromisoformat selection limit entryFilter
        deferred rows = .ok (kept, deferred') ∧
      selectFrom (selection.eligible py dateFromisoformat) selection limit selected kept =
        .ok selected' ∧
      Counted selection limit deferred' selected' := by
  induction rows generalizing deferred selected entries with
  | nil =>
      obtain rfl := Except.ok.inj hrows
      obtain rfl := Except.ok.inj hselect
      exact ⟨[], deferred, rfl, rfl, hcount⟩
  | cons row rows ih =>
      rw [Quiet, List.forall_mem_cons] at hquiet
      rw [decodeRows] at hrows
      rw [decodeRetained]
      cases hdecode : row.decode SqlValue.decoded with
      | none =>
          rw [hdecode] at hrows
          exact ih hquiet.2 hcount hrows hselect
      | some cells =>
          rw [hdecode] at hrows
          obtain ⟨mapped, hmapped, hrows⟩ := bind_eq_ok hrows
          obtain ⟨rest, hrest, hentries⟩ := bind_eq_ok hrows
          obtain rfl := Except.ok.inj hentries
          rw [selectFrom_append] at hselect
          obtain ⟨between, hfirst, hlater⟩ := bind_eq_ok hselect
          obtain ⟨keep, hkeep⟩ := retain_ok limit deferred (hquiet.1 cells hdecode)
          cases keep with
          | false =>
              obtain rfl := select_dropped hmapped hkeep hcount hfirst
              obtain ⟨kept, deferred', hretained, hkept, hcount'⟩ :=
                ih hquiet.2 hcount hrest hlater
              refine ⟨kept, deferred', ?_, hkept, hcount'⟩
              simp only [bind, Except.bind, hkeep]
              exact hretained
          | true =>
              cases mapped with
              | none =>
                  obtain rfl := Except.ok.inj hfirst
                  obtain ⟨kept, deferred', hretained, hkept, hcount'⟩ :=
                    ih hquiet.2 hcount hrest hlater
                  refine ⟨kept, deferred', ?_, hkept, hcount'⟩
                  simp only [bind, Except.bind, hkeep, hmapped]
                  exact hretained
              | some e =>
                  obtain ⟨after, haccepted, hcount⟩ := select_kept hmapped hkeep hcount hfirst
                  obtain ⟨kept, deferred', hretained, hkept, hcount'⟩ :=
                    ih hquiet.2 hcount hrest hlater
                  refine ⟨e :: kept, deferred', ?_, ?_, hcount'⟩
                  · simp only [bind, Except.bind, hkeep, hmapped, haccepted, hretained]
                    rfl
                  · refine (selectFrom_append selected [e] kept).trans ?_
                    rw [Option.toList_some] at hfirst
                    rw [hfirst]
                    exact hkept

/-- What was read of a batch raised nothing early. -/
theorem decodeRetained_quiet {rows : List RawRow} {deferred deferred' : Nat}
    {kept : List MemoryEntry}
    (h : decodeRetained py pydantic dateFromisoformat selection limit entryFilter deferred rows =
      .ok (kept, deferred')) : Quiet py dateFromisoformat selection rows := by
  induction rows generalizing deferred deferred' kept with
  | nil => exact List.forall_mem_nil _
  | cons row rows ih =>
      rw [Quiet, List.forall_mem_cons]
      rw [decodeRetained] at h
      cases hdecode : row.decode SqlValue.decoded with
      | none =>
          rw [hdecode] at h
          refine ⟨fun _ hcells => ?_, ih h⟩
          cases hcells
      | some cells =>
          rw [hdecode] at h
          obtain ⟨keep, hkeep, h⟩ := bind_eq_ok h
          have hraises := retain_raises (by rw [hkeep]; rfl)
          refine ⟨fun _ hcells => Option.some.inj hcells ▸ hraises, ?_⟩
          cases keep with
          | false => exact ih h
          | true =>
              obtain ⟨mapped, -, h⟩ := bind_eq_ok h
              cases mapped with
              | none => exact ih h
              | some e =>
                  obtain ⟨after, -, h⟩ := bind_eq_ok h
                  obtain ⟨rest, hrest, -⟩ := bind_eq_ok h
                  exact ih hrest

end Agreement

end TrwMemory.Codec

import TrwMemory.Retrieval.ExpiryEligibility
import TrwMemory.Retrieval.SourcePolicy

/-!
The entries an acquisition returns: never more than its limit, none twice, and none of a group
while an admissible entry of a group before it is left. What it asks of its query holds of a
store that filters its rows by the predicate and then selects by validity.
-/
namespace TrwMemory.Retrieval

open Library Storage

namespace RecallInvocation

section Store

/-- The rows that pass the predicate; it may raise. -/
def passing (accepts : MemoryEntry → Except RecallError Bool) :
    List MemoryEntry → Except RecallError (List MemoryEntry)
  | [] => .ok []
  | entry :: entries => do
      let accepted ← accepts entry
      let rest ← passing accepts entries
      .ok (if accepted then entry :: rest else rest)

/-- A store's query with `temporal_selection` and `entry_filter`, over its rows in order. -/
def storeFetch (py : Python) (dateFromisoformat : String → Option Int)
    (selection : TemporalSelection) (rows : List MemoryEntry)
    (accepts : MemoryEntry → Except RecallError Bool) (limit : Nat) :
    Except RecallError (List MemoryEntry) := do
  let entries ← passing accepts rows
  match select (selection.eligible py dateFromisoformat) selection limit entries with
  | .error error => .error (.raised error)
  | .ok selected => .ok selected

theorem mem_passing {accepts : MemoryEntry → Except RecallError Bool} {rows kept : List MemoryEntry}
    (h : passing accepts rows = .ok kept) (e : MemoryEntry) :
    e ∈ kept ↔ e ∈ rows ∧ accepts e = .ok true := by
  induction rows generalizing kept with
  | nil =>
      cases h
      simp
  | cons row rows ih =>
      obtain ⟨accepted, haccepted, h⟩ := bind_eq_ok h
      obtain ⟨rest, hrest, h⟩ := bind_eq_ok h
      cases h
      cases accepted with
      | true => grind
      | false => grind

theorem passing_sublist {accepts : MemoryEntry → Except RecallError Bool}
    {rows kept : List MemoryEntry} (h : passing accepts rows = .ok kept) : kept.Sublist rows := by
  induction rows generalizing kept with
  | nil =>
      cases h
      exact List.Sublist.refl _
  | cons row rows ih =>
      obtain ⟨accepted, -, h⟩ := bind_eq_ok h
      obtain ⟨rest, hrest, h⟩ := bind_eq_ok h
      cases h
      split
      · exact (ih hrest).cons_cons row
      · exact (ih hrest).cons row

end Store

section Select

variable {eligible : Window → Except PyError Bool} {selection : TemporalSelection} {limit : Nat}

/-- Entries of which each is eligible, or of which none is and such entries are wanted. -/
def Uniform (eligible : Window → Except PyError Bool) (selection : TemporalSelection) (open_ : Bool)
    (entries : List MemoryEntry) : Prop :=
  ∀ e ∈ entries, (selection.excludeSystemCanaries && isSystemCanary e.metadata) = false ∧
    eligible (windowOf e) = .ok open_

theorem selectFrom_open {entries : List MemoryEntry} (h : Uniform eligible selection true entries)
    {selected : Selected} (hlength : selected.eligible.length ≤ limit) :
    selectFrom eligible selection limit selected entries =
      .ok { selected with
        eligible := selected.eligible ++ entries.take (limit - selected.eligible.length) } := by
  induction entries generalizing selected with
  | nil => simp [selectFrom]
  | cons e entries ih =>
      obtain ⟨hcanary, hopen⟩ := h e List.mem_cons_self
      rw [selectFrom]
      by_cases hfull : selected.isFull limit = true
      · have heq : selected.eligible.length = limit := by simpa [Selected.isFull] using hfull
        rw [if_pos hfull, heq, Nat.sub_self, List.take_zero, List.append_nil]
      · have hne : selected.eligible.length ≠ limit := by
          simpa [Selected.isFull] using hfull
        have hstep : offer eligible selection limit selected e =
            .ok { selected with eligible := selected.eligible ++ [e] } := by
          rw [offer, hcanary, hopen]
          rfl
        rw [if_neg hfull, hstep]
        have hsub : limit - selected.eligible.length =
            (limit - (selected.eligible ++ [e]).length) + 1 := by
          rw [List.length_append, List.length_singleton]
          omega
        refine (ih (fun e he => h e (List.mem_cons_of_mem _ he)) ?_).trans ?_
        · simp only [List.length_append, List.length_singleton]
          omega
        · rw [hsub, List.take_succ_cons]
          simp

theorem selectFrom_closed {entries : List MemoryEntry}
    (h : Uniform eligible selection false entries)
    (hincl : selection.includeSuperseded = true) (hlimit : 0 < limit) {deferred : List MemoryEntry}
    (hlength : deferred.length ≤ limit) :
    selectFrom eligible selection limit ⟨[], deferred⟩ entries =
      .ok ⟨[], deferred ++ entries.take (limit - deferred.length)⟩ := by
  induction entries generalizing deferred with
  | nil => simp [selectFrom]
  | cons e entries ih =>
      obtain ⟨hcanary, hclosed⟩ := h e List.mem_cons_self
      have hopen : ¬ Selected.isFull limit ⟨[], deferred⟩ = true := by
        simp [Selected.isFull]
        omega
      have hrest : Uniform eligible selection false entries := fun e he =>
        h e (List.mem_cons_of_mem _ he)
      rw [selectFrom, if_neg hopen]
      by_cases hroom : deferred.length < limit
      · have hstep : offer eligible selection limit ⟨[], deferred⟩ e =
            .ok ⟨[], deferred ++ [e]⟩ := by
          rw [offer, hcanary, hclosed]
          simp [hincl, hroom, bind, Except.bind]
        have hsub : limit - deferred.length = (limit - (deferred ++ [e]).length) + 1 := by
          rw [List.length_append, List.length_singleton]
          omega
        rw [hstep]
        refine (ih hrest ?_).trans ?_
        · rw [List.length_append, List.length_singleton]
          omega
        · rw [hsub, List.take_succ_cons]
          simp
      · have hstep : offer eligible selection limit ⟨[], deferred⟩ e = .ok ⟨[], deferred⟩ := by
          rw [offer, hcanary, hclosed]
          simp [hincl, hroom, bind, Except.bind]
        have hfull : limit - deferred.length = 0 := by omega
        rw [hstep]
        refine (ih hrest hlength).trans ?_
        rw [hfull, List.take_zero, List.take_zero]

/-- Of uniform entries the selection takes the first ones. -/
theorem select_uniform {entries : List MemoryEntry} {isOpen : Bool}
    (h : Uniform eligible selection isOpen entries)
    (hwanted : isOpen = true ∨ selection.includeSuperseded = true) (hlimit : 0 < limit) :
    select eligible selection limit entries = .ok (entries.take limit) := by
  rw [select, if_neg (Nat.ne_of_gt hlimit)]
  cases isOpen with
  | true =>
      rw [selectFrom_open h (Nat.zero_le limit)]
      simp [Except.map, Selected.finish]
  | false =>
      have hincl : selection.includeSuperseded = true := by simpa using hwanted
      have hnone : ([] : List MemoryEntry).length ≤ limit := Nat.zero_le limit
      rw [selectFrom_closed h hincl hlimit hnone]
      simp [Except.map, Selected.finish]

end Select

section Acquire

variable {py : Python} {dateFromisoformat : String → Option Int} {invocation : RecallInvocation}
  {rows : List MemoryEntry}

theorem inScope_of_allows {entry : MemoryEntry}
    (h : invocation.allowsEntry py dateFromisoformat entry = .ok true) :
    invocation.inScope entry = true := by
  rw [allowsEntry] at h
  split at h
  · cases h
  · split at h
    · assumption
    · cases h

theorem mem_groups {g : AcquireGroup} (hg : g ∈ invocation.groups) :
    g.eligible = true ∨ invocation.temporal.includeSuperseded = true := by
  rw [groups, List.mem_flatMap] at hg
  obtain ⟨eligible, heligible, hg⟩ := hg
  have hsame : g.eligible = eligible := by
    rcases List.mem_cons.mp hg with rfl | hg
    · rfl
    · rw [List.mem_singleton.mp hg]
  rw [hsame]
  split at heligible
  · exact .inr ‹_›
  · exact .inl (List.mem_singleton.mp heligible)

theorem uniform_of_admits {g : AcquireGroup} {entries : List MemoryEntry}
    (h : ∀ e ∈ entries, Admits py dateFromisoformat invocation g e) :
    Uniform (invocation.temporal.eligible py dateFromisoformat) invocation.temporal g.eligible
      entries := by
  intro e he
  obtain ⟨hallows, heligible, -⟩ := admits_iff.mp (h e he)
  refine ⟨?_, heligible⟩
  have hscope := inScope_of_allows hallows
  simp only [inScope, Bool.and_eq_true, Bool.not_eq_true'] at hscope
  exact hscope.1.1.2

/-- A store's query gives the first rows of the group. -/
theorem storeFetch_eq {g : AcquireGroup} (hg : g ∈ invocation.groups) {k : Nat}
    {entries : List MemoryEntry}
    (h : storeFetch py dateFromisoformat invocation.temporal rows
      (invocation.accepts py dateFromisoformat g) k = .ok entries) :
    ∃ kept, passing (invocation.accepts py dateFromisoformat g) rows = .ok kept ∧
      entries = kept.take k := by
  obtain ⟨kept, hkept, h⟩ := bind_eq_ok h
  have huniform := uniform_of_admits fun e he => ((mem_passing hkept e).mp he).2
  refine ⟨kept, hkept, ?_⟩
  rcases Nat.eq_zero_or_pos k with rfl | hk
  · rw [select, if_pos rfl] at h
    cases h
  · rw [select_uniform huniform (mem_groups hg) hk] at h
    cases h
    rfl

/-- What an acquisition asks of its query holds of a store's. -/
theorem fetches_storeFetch (hrows : rows.Nodup) :
    Fetches rows (Admits py dateFromisoformat invocation)
      (fun g => storeFetch py dateFromisoformat invocation.temporal rows
        (invocation.accepts py dateFromisoformat g)) invocation.groups where
  nodup := fun g hg k entries h => by
    obtain ⟨kept, hkept, rfl⟩ := storeFetch_eq hg h
    exact ((List.take_sublist k kept).trans (passing_sublist hkept)).nodup hrows
  length_le := fun g hg k entries h => by
    obtain ⟨kept, -, rfl⟩ := storeFetch_eq hg h
    exact List.length_take_le k kept
  sound := fun g hg k entries h e he => by
    obtain ⟨kept, hkept, rfl⟩ := storeFetch_eq hg h
    exact (mem_passing hkept e).mp (List.mem_of_mem_take he)
  full := fun g hg k entries h hshort e he hadmits => by
    obtain ⟨kept, hkept, rfl⟩ := storeFetch_eq hg h
    have hall : kept.length ≤ k := by
      rw [List.length_take] at hshort
      omega
    rw [List.take_of_length_le hall]
    exact (mem_passing hkept e).mpr ⟨he, hadmits⟩

/-- An acquisition returns at most its limit, no entry twice and only admissible ones, and none of
a group while an entry of a group before it is left; every admissible entry has a group. -/
theorem acquire_fills {candidates : List MemoryEntry}
    {fetch : (MemoryEntry → Except RecallError Bool) → Nat → Except RecallError (List MemoryEntry)}
    (hfetch : Fetches candidates (Admits py dateFromisoformat invocation)
      (fun g => fetch (invocation.accepts py dateFromisoformat g)) invocation.groups)
    {limit : Int} {entries : List MemoryEntry}
    (h : invocation.acquire py dateFromisoformat fetch limit = .ok entries) :
    Filled candidates (Admits py dateFromisoformat invocation) invocation.groups limit.toNat
        entries ∧
      ∀ e eligible, invocation.allowsEntry py dateFromisoformat e = .ok true →
        invocation.eligibleEntry py dateFromisoformat e = .ok eligible →
        (eligible = true ∨ invocation.temporal.includeSuperseded = true) →
          ∃ g ∈ invocation.groups, Admits py dateFromisoformat invocation g e := by
  refine ⟨?_, fun e eligible => exists_group⟩
  rw [acquire] at h
  split at h
  · cases h
  · exact fill_spec (by omega) hfetch nodup_groups
      (fun g₁ _ g₂ _ e h₁ h₂ => group_unique h₁ h₂) h

end Acquire

def openPolicy : SourcePolicy where
  includeDistilled := true
  includeKinds := []
  excludeKinds := []
  weights := []
  explicitWeightOverrides := []
  excludeExpired := true
  referenceTime := ⟨0, some 0⟩

def openInvocation : RecallInvocation where
  source := openPolicy
  temporal := ⟨none, true, true, ⟨0, some 0⟩⟩
  ns := "default"
  tags := []
  types := []
  confidenceFloor := none
  excludeHistoricalOnly := false

def taggedEntry (id : String) (tags : List String) (h : id ≠ "") : MemoryEntry :=
  { MemoryEntry.ofDefaults id "x" "default" ⟨0, some 0⟩ h with tags := tags }

/-- A durable entry takes the one place of an acquisition before a transient one that the store
lists first. -/
theorem acquire_fills_durable :
    Filled
      [taggedEntry "a" ["change_bulletin"] (by decide), taggedEntry "b" [] (by decide)]
      (Admits isoPython (fun _ => none) openInvocation) openInvocation.groups 1
      [taggedEntry "b" [] (by decide)] := by
  have hrun : openInvocation.acquire isoPython (fun _ => none)
      (storeFetch isoPython (fun _ => none) openInvocation.temporal
        [taggedEntry "a" ["change_bulletin"] (by decide), taggedEntry "b" [] (by decide)]) 1 =
      .ok [taggedEntry "b" [] (by decide)] := by decide +kernel
  exact (acquire_fills (fetches_storeFetch (by decide)) hrun).1

end RecallInvocation

end TrwMemory.Retrieval

import TrwMemory.Storage.QuarantineReads

/-!
Bounded work over a source that is paged by keys (`_sweep.py`), and the calls that carry it on
until it reports completion. A call visits pages until its budget of rows is spent, its clock
is past the deadline or its visitor leaves a part of a page, and names the row to resume after.

Visitors and clocks are arbitrary and may differ from call to call; what they do at a point of
a call depends on the rows visited there. The rows that a call has visited are part of its
result. A fetch may raise, which the call passes on.
-/
namespace TrwMemory.Storage

open Library.Keyset

universe u v w

variable {α : Type u} {κ : Type v} {ε : Type w}

/-- The `ValueError`s of `sweep`, and an error of its fetch. -/
inductive SweepError where
  | budget
  | overfull
  | consumed
  | fetch
  deriving DecidableEq, Repr

/-- The budgets of a call; how many rows its visitor consumes of a page, and whether the
deadline has passed, after a number of visited rows. -/
structure SweepCall (α : Type u) where
  page : Nat
  rows : Nat
  visit : Nat → List α → Nat
  late : Nat → Bool

/-- What `sweep` asks of its caller. -/
structure SweepCall.Lawful (call : SweepCall α) : Prop where
  page : 1 ≤ call.page
  rows : 1 ≤ call.rows
  visit : ∀ visited batch, batch ≠ [] →
    1 ≤ call.visit visited batch ∧ call.visit visited batch ≤ batch.length

section Calls

variable (fetch : Option κ → Nat → Except ε (List α)) (key : α → κ)

/-- The loop of `sweep`. Each round but the last visits a row, so a round for each row of the
budget is enough. -/
def sweepLoop (call : SweepCall α) : Nat → Nat → Option κ →
    List α × Except SweepError (Option κ)
  | 0, _, cursor => ([], .ok cursor)
  | fuel + 1, visited, cursor =>
      if call.rows ≤ visited then ([], .ok cursor)
      else
        let limit := min call.page (call.rows - visited)
        match fetch cursor limit with
        | .error _ => ([], .error .fetch)
        | .ok batch =>
            if batch.isEmpty then ([], .ok none)
            else if limit < batch.length then ([], .error .overfull)
            else
              let consumed := call.visit visited batch
              if ¬(1 ≤ consumed ∧ consumed ≤ batch.length) then ([], .error .consumed)
              else
                let seen := batch.take consumed
                let cursor := batch[consumed - 1]?.map key
                let visited := visited + consumed
                if consumed = batch.length ∧ batch.length < limit then (seen, .ok none)
                else if consumed < batch.length ∨ call.late visited then (seen, .ok cursor)
                else
                  let rest := sweepLoop call fuel visited cursor
                  (seen ++ rest.1, rest.2)

def sweep (call : SweepCall α) (after : Option κ) : List α × Except SweepError (Option κ) :=
  if call.page < 1 ∨ call.rows < 1 then ([], .error .budget)
  else sweepLoop fetch key call call.rows 0 after

/-- Up to `n` calls, each from where the one before it stopped: the rows visited, and whether
a call has reported completion. -/
def sweeps (calls : Nat → SweepCall α) : Nat → Nat → Option κ → List α × Bool
  | 0, _, _ => ([], false)
  | n + 1, i, cursor =>
      match sweep fetch key (calls i) cursor with
      | (seen, .ok none) => (seen, true)
      | (seen, .ok (some k)) =>
          let rest := sweeps calls n (i + 1) (some k)
          (seen ++ rest.1, rest.2)
      | (seen, .error _) => (seen, false)

/-- Whatever its calls, the sweep ends, and has visited `rows` in their order. -/
def VisitsOnce (rows : List α) : Prop :=
  ∀ calls : Nat → SweepCall α, (∀ i, (calls i).Lawful) →
    ∃ n, sweeps fetch key calls n 0 none = (rows, true)

end Calls

section Ordered

variable [LinearOrder κ]

/-- What a call makes of what is after its cursor: completion means that all of it was
visited, and otherwise the token splits it. -/
def Progress (source : OrderedSource α κ) (cursor : Option κ) (started : Prop) :
    List α × Except SweepError (Option κ) → Prop
  | (seen, .ok none) => seen = source.after cursor
  | (seen, .ok (some k)) =>
      seen ++ source.after (some k) = source.after cursor ∧ (started → seen ≠ [])
  | (_, .error _) => False

namespace OrderedSource

variable (source : OrderedSource α κ)

/-- The pages of a source, none of which raises. -/
def pages {ε : Type w} (cursor : Option κ) (limit : Nat) : Except ε (List α) :=
  .ok (source.fetch cursor limit)

/-- After the last of the first `n` rows. -/
theorem after_take (cursor : Option κ) {n : Nat} (hpos : 1 ≤ n)
    (hn : n ≤ (source.after cursor).length) :
    ∃ last, (source.after cursor)[n - 1]? = some last ∧
      (source.after cursor).take n ++ source.after (some (source.key last)) =
        source.after cursor := by
  have hindex : n - 1 < (source.after cursor).length := by omega
  refine ⟨_, List.getElem?_eq_getElem hindex, ?_⟩
  have hlast : (source.fetch cursor n).getLast? = some (source.after cursor)[n - 1] := by
    rw [OrderedSource.fetch, List.getLast?_take, if_neg (by omega),
      List.getElem?_eq_getElem hindex, Option.some_or]
  rw [source.after_last hlast, List.take_append_drop]

end OrderedSource

/-- One round visits a beginning of what is left; the rounds after it go on from there. -/
theorem sweepLoop_progress (source : OrderedSource α κ) {call : SweepCall α}
    (hcall : call.Lawful) {fuel visited : Nat} {cursor : Option κ}
    (hfuel : call.rows ≤ visited + fuel) (hcursor : cursor = none → visited < call.rows) :
    Progress source cursor (visited < call.rows)
      (sweepLoop (source.pages (ε := ε)) source.key call fuel visited cursor) := by
  induction fuel generalizing visited cursor with
  | zero =>
      cases cursor with
      | none => exact absurd (hcursor rfl) (by omega)
      | some k => exact ⟨rfl, fun h => absurd h (by omega)⟩
  | succ fuel ih =>
      rw [sweepLoop]
      split
      · rename_i hspent
        cases cursor with
        | none => exact absurd (hcursor rfl) (by omega)
        | some k => exact ⟨rfl, fun h => absurd h (by omega)⟩
      · rename_i hleft
        dsimp only [OrderedSource.pages]
        generalize hlimit : min call.page (call.rows - visited) = limit
        have hlimitPos : 1 ≤ limit := by have := hcall.page; omega
        generalize hbatch : source.fetch cursor limit = batch
        have htake : batch = (source.after cursor).take limit := hbatch.symm
        have hlength : batch.length = min limit (source.after cursor).length := by
          rw [htake, List.length_take]
        split
        · -- nothing is left
          rename_i hempty
          have hnil := List.isEmpty_iff.mp hempty
          rw [hnil, List.length_nil] at hlength
          exact (List.eq_nil_of_length_eq_zero (by omega)).symm
        · rename_i hempty
          have hne : batch ≠ [] := fun h => hempty (List.isEmpty_iff.mpr h)
          rw [if_neg (by omega)]
          generalize hconsumed : call.visit visited batch = consumed
          have hvisit := hconsumed ▸ hcall.visit visited batch hne
          rw [if_neg (not_not.mpr hvisit)]
          obtain ⟨last, hlast, hsplit⟩ := source.after_take cursor hvisit.1 (by omega)
          have hseen : batch.take consumed = (source.after cursor).take consumed := by
            rw [htake, List.take_take, Nat.min_eq_left (by omega)]
          have hkey : batch[consumed - 1]?.map source.key = some (source.key last) := by
            rw [htake, List.getElem?_take_of_lt (by omega), hlast, Option.map_some]
          have hseenNe : batch.take consumed ≠ [] := by
            intro hnil
            have := congrArg List.length hnil
            rw [List.length_take, List.length_nil] at this
            omega
          rw [hkey]
          split
          · -- a short page that was consumed whole
            rename_i hshort
            change batch.take consumed = _
            rw [hseen, List.take_of_length_le (by omega)]
          · split
            · exact ⟨by rw [hseen, hsplit], fun _ => hseenNe⟩
            · have hrest := @ih (visited + consumed)
                (some (source.key last)) (by omega) (fun h => by cases h)
              generalize sweepLoop (source.pages (ε := ε)) source.key call fuel (visited + consumed)
                (some (source.key last)) = rest at hrest ⊢
              match rest, hrest with
              | (seen, .ok none), hrest =>
                  have hrest : seen = source.after (some (source.key last)) := hrest
                  change batch.take consumed ++ seen = _
                  rw [hrest, hseen, hsplit]
              | (seen, .ok (some k)), hrest =>
                  refine ⟨?_, fun _ => List.append_ne_nil_of_left_ne_nil hseenNe _⟩
                  rw [List.append_assoc, hrest.1, hseen, hsplit]
              | (_, .error _), hrest => exact hrest

theorem sweep_progress (source : OrderedSource α κ) {call : SweepCall α} (hcall : call.Lawful)
    (cursor : Option κ) :
    Progress source cursor True (sweep (source.pages (ε := ε)) source.key call cursor) := by
  have hpage := hcall.page
  have hrows := hcall.rows
  have hloop := @sweepLoop_progress _ _ ε _ source _ hcall call.rows 0 cursor (by omega)
    (fun _ => by omega)
  rw [sweep, if_neg (by omega)]
  have hstarted : (0 < call.rows) = True := eq_true (by omega)
  rwa [hstarted] at hloop

/-- On what is left: a call that does not complete the sweep has visited something. -/
theorem sweeps_exact (source : OrderedSource α κ) {calls : Nat → SweepCall α}
    (hcalls : ∀ i, (calls i).Lawful) {n : Nat} (i : Nat) {cursor : Option κ}
    (hn : (source.after cursor).length < n) :
    sweeps (source.pages (ε := ε)) source.key calls n i cursor = (source.after cursor, true) := by
  induction n generalizing i cursor with
  | zero => exact absurd hn (Nat.not_lt_zero _)
  | succ n ih =>
      have hprogress := sweep_progress (ε := ε) source (hcalls i) cursor
      rw [sweeps]
      generalize sweep (source.pages (ε := ε)) source.key (calls i) cursor = result at hprogress ⊢
      match result, hprogress with
      | (seen, .ok none), hdone => exact congrArg (·, true) hdone
      | (seen, .ok (some k)), hmore =>
          have hlength := congrArg List.length hmore.1
          have hpos := List.length_pos_iff.mpr (hmore.2 trivial)
          rw [List.length_append] at hlength
          dsimp only
          rw [ih (i + 1) (by omega), hmore.1]
      | (_, .error _), hfail => exact hfail.elim

theorem visitsOnce_ordered (source : OrderedSource α κ) :
    VisitsOnce (source.pages (ε := ε)) source.key source.rows :=
  fun _ hcalls => ⟨_, sweeps_exact source hcalls 0 (Nat.lt_succ_self _)⟩

end Ordered

end TrwMemory.Storage

import TrwMemory.Library.Keyset

/-!
Reads with a limit behind the quarantine filter (`storage/interface.py`). The source
applies its limit before the blocked rows go, so each read goes on until the page is
full or the source has no more. A source is the list of its rows in their order; a
keyset source orders them by a key that no two rows share.

The loops are given fuel. A ledger that changes during one read is not modelled.
-/
namespace TrwMemory.Storage

open Library.Keyset

universe u v

variable {α : Type u}

/-- `LedgerView.filter`. -/
def filterQuarantined (blocks : α → Bool) (rows : List α) : List α :=
  rows.filter fun row => !blocks row

/-- `_quarantine_limited`: the plain read first, and the read with the predicate where
blocked rows took places of a full page. -/
def quarantineLimited (blocks : α → Bool) (read : Option (α → Bool) → List α)
    (entryFilter : Option (α → Bool)) (limit : Nat) : List α :=
  match entryFilter with
  | some inner => read (some fun row => !blocks row && inner row)
  | none =>
      let raw := read none
      let kept := filterQuarantined blocks raw
      if kept.length = raw.length ∨ raw.length < limit then kept
      else read (some fun row => !blocks row)

/-- `_quarantine_regrown`; `size` is what the next read asks for. -/
def quarantineRegrown (blocks : α → Bool) (read : Nat → List α) (limit : Nat) :
    Nat → Nat → Option (List α)
  | 0, _ => none
  | fuel + 1, size =>
      let raw := read size
      let kept := filterQuarantined blocks raw
      if limit ≤ kept.length ∨ raw.length < size then some (kept.take limit)
      else quarantineRegrown blocks read limit fuel (size + (raw.length - kept.length))

variable {κ : Type v}

/-- The loop of `_quarantine_keyset` after a fetch of `raw`. -/
def refill (blocks : α → Bool) (fetch : Option κ → Nat → List α) (key : α → κ) (limit : Nat) :
    Nat → List α → List α → Option (List α)
  | 0, _, _ => none
  | fuel + 1, raw, page =>
      if raw.length = limit ∧ page.length < limit then
        match raw.getLast? with
        | none => none
        | some last =>
            let raw := fetch (some (key last)) limit
            refill blocks fetch key limit fuel raw (page ++ filterQuarantined blocks raw)
      else some (page.take limit)

/-- `_quarantine_keyset`. -/
def quarantineKeyset (blocks : α → Bool) (fetch : Option κ → Nat → List α) (key : α → κ)
    (after : Option κ) (limit fuel : Nat) : Option (List α) :=
  let raw := fetch after limit
  refill blocks fetch key limit fuel raw (filterQuarantined blocks raw)

/-- The rows of a keyset query in the order of their keys. -/
structure OrderedSource (α : Type u) (κ : Type v) [LinearOrder κ] where
  key : α → κ
  rows : List α
  sorted : StrictlySorted key rows

variable [LinearOrder κ]

namespace OrderedSource

/-- The rows strictly after a cursor. -/
def after (source : OrderedSource α κ) : Option κ → List α
  | none => source.rows
  | some k => behind source.key k source.rows

def fetch (source : OrderedSource α κ) (cursor : Option κ) (limit : Nat) : List α :=
  (source.after cursor).take limit

theorem after_strict (source : OrderedSource α κ) (cursor : Option κ) :
    StrictlySorted source.key (source.after cursor) := by
  cases cursor with
  | none => exact source.sorted
  | some k => exact behind_strict source.key k source.sorted

theorem length_after_le (source : OrderedSource α κ) (cursor : Option κ) :
    (source.after cursor).length ≤ source.rows.length := by
  cases cursor with
  | none => exact le_rfl
  | some k => exact List.length_filter_le _ _

/-- After the last row of a page comes what the page left. -/
theorem after_last (source : OrderedSource α κ) {cursor : Option κ} {limit : Nat} {last : α}
    (h : (source.fetch cursor limit).getLast? = some last) :
    source.after (some (source.key last)) = (source.after cursor).drop limit := by
  have hdrop := behind_take_last source.key (source.after_strict cursor) h
  cases cursor with
  | none => exact hdrop
  | some k =>
      have hmem : last ∈ behind source.key k source.rows :=
        List.mem_of_mem_take (List.mem_of_getLast? h)
      rwa [after, behind_behind source.key source.rows
        ((mem_behind source.key).mp hmem).2] at hdrop

end OrderedSource

theorem filterQuarantined_append (blocks : α → Bool) (first rest : List α) :
    filterQuarantined blocks (first ++ rest) =
      filterQuarantined blocks first ++ filterQuarantined blocks rest :=
  List.filter_append first rest

/-- What the filter leaves of a page begins what it leaves of all the rows. -/
theorem filterQuarantined_take (blocks : α → Bool) (rows : List α) (n : Nat) :
    filterQuarantined blocks rows =
      filterQuarantined blocks (rows.take n) ++ filterQuarantined blocks (rows.drop n) := by
  rw [← filterQuarantined_append, List.take_append_drop]

theorem take_filterQuarantined {blocks : α → Bool} {rows : List α} {n limit : Nat}
    (h : limit ≤ (filterQuarantined blocks (rows.take n)).length) :
    (filterQuarantined blocks (rows.take n)).take limit =
      (filterQuarantined blocks rows).take limit := by
  rw [filterQuarantined_take blocks rows n, List.take_append_of_le_length h]

/-- The plain read or the read with the predicate, whichever is taken. -/
theorem quarantineLimited_eq (blocks : α → Bool) (rows : List α) (limit : Nat)
    (entryFilter : Option (α → Bool)) :
    quarantineLimited blocks
        (fun predicate => (rows.filter (predicate.getD fun _ => true)).take limit)
        entryFilter limit =
      (rows.filter fun row => !blocks row && entryFilter.elim true (· row)).take limit := by
  cases entryFilter with
  | some inner => rfl
  | none =>
      have hall : rows.filter (fun _ => true) = rows := List.filter_eq_self.mpr fun _ _ => rfl
      simp only [quarantineLimited, Option.getD_none, Option.getD_some, hall, Option.elim_none,
        Bool.and_true]
      split
      · rename_i hkept
        rcases Nat.lt_or_ge rows.length limit with hshort | hfull
        · rw [List.take_of_length_le hshort.le, List.take_of_length_le
            ((List.length_filter_le _ _).trans hshort.le)]
          rfl
        · -- nothing of a full page was blocked
          rw [List.length_take, Nat.min_eq_left hfull] at hkept
          have hlength := hkept.resolve_right (Nat.lt_irrefl limit)
          have hpage := take_filterQuarantined hlength.ge
          rwa [List.take_of_length_le hlength.le] at hpage
      · rfl

theorem quarantineRegrown_eq (blocks : α → Bool) (rows : List α) (limit : Nat) {fuel size : Nat}
    (hsize : limit ≤ size) (hfuel : rows.length + 2 ≤ fuel + size) (hpos : 0 < fuel) :
    quarantineRegrown blocks (rows.take ·) limit fuel size =
      some ((filterQuarantined blocks rows).take limit) := by
  induction fuel generalizing size with
  | zero => exact absurd hpos (Nat.lt_irrefl 0)
  | succ fuel ih =>
      simp only [quarantineRegrown]
      split
      · rename_i hdone
        congr 1
        rcases hdone with hfull | hshort
        · exact take_filterQuarantined hfull
        · rw [List.length_take] at hshort
          rw [List.take_of_length_le (by omega : rows.length ≤ size)]
      · rename_i hmore
        rw [not_or, not_le, not_lt] at hmore
        obtain ⟨hshort, hfull⟩ := hmore
        -- a full page that is still short has lost rows, so the next one is larger
        have hlength := List.length_take (i := size) (l := rows)
        exact ih (by omega) (by omega) (by omega)

/-- One page after another, until the page is full or the rows are read. -/
theorem refill_eq (source : OrderedSource α κ) (blocks : α → Bool) (limit : Nat) {fuel : Nat}
    {cursor : Option κ} (page : List α) (hfuel : (source.after cursor).length < fuel) :
    refill blocks source.fetch source.key limit fuel (source.fetch cursor limit)
        (page ++ filterQuarantined blocks (source.fetch cursor limit)) =
      some ((page ++ filterQuarantined blocks (source.after cursor)).take limit) := by
  induction fuel generalizing cursor page with
  | zero => exact absurd hfuel (Nat.not_lt_zero _)
  | succ fuel ih =>
      have hsplit := filterQuarantined_take blocks (source.after cursor) limit
      rw [refill]
      split
      · rename_i hmore
        cases hlast : (source.fetch cursor limit).getLast? with
        | none =>
            have hempty := List.getLast?_eq_none_iff.mp hlast
            rw [hempty] at hmore
            simp at hmore
            omega
        | some last =>
            have hdrop := source.after_last hlast
            have hlength : limit ≤ (source.after cursor).length := by
              have := hmore.1
              rw [OrderedSource.fetch, List.length_take] at this
              omega
            dsimp only
            rw [ih, hdrop, List.append_assoc, OrderedSource.fetch, ← hsplit]
            rw [hdrop, List.length_drop]
            omega
      · rename_i hdone
        congr 1
        rcases Nat.lt_or_ge (source.after cursor).length limit with hshort | hfull
        · rw [OrderedSource.fetch, List.take_of_length_le hshort.le]
        · have hlength : (source.fetch cursor limit).length = limit := by
            rw [OrderedSource.fetch, List.length_take, Nat.min_eq_left hfull]
          have hpage := not_lt.mp fun h => hdone ⟨hlength, h⟩
          rw [hsplit, ← List.append_assoc]
          exact (List.take_append_of_le_length hpage).symm

/-- Both loops end, and give the first `limit` rows of the source that the ledger does
not block, in the order of the source. -/
theorem quarantineReads_exact (source : OrderedSource α κ) (rows : List α) (blocks : α → Bool)
    (after : Option κ) (limit more : Nat) :
    quarantineRegrown blocks (rows.take ·) limit (rows.length + 2 + more) limit =
        some ((filterQuarantined blocks rows).take limit) ∧
      quarantineKeyset blocks source.fetch source.key after limit (source.rows.length + 1 + more) =
        some ((filterQuarantined blocks (source.after after)).take limit) := by
  constructor
  · exact quarantineRegrown_eq blocks rows limit le_rfl (by omega) (by omega)
  · have hlength := source.length_after_le after
    exact refill_eq source blocks limit [] (by omega)

end TrwMemory.Storage

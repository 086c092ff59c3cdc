import Mathlib.Algebra.Order.Ring.Rat
import TrwMemory.Library.Slots

/-!
The rows of one embedding space in the similarity index (`_SpaceRows`,
`_graph_namespace_index.py`): put, remove and the search for what scores above a threshold.
Beside it the map of live vectors, which says what the rows stand for.

The arithmetic of the vectors is a parameter: the unit vector of a stored vector, none where the
norm is zero, that of a query, and the score of two of them. A vector that is put has the width of
the space; the index checks it. Memory bounds and the reading of the store are left out.
-/
namespace TrwMemory.Graph

open Library

/-- The float vectors of a space of `dim` numbers. -/
abbrev Vector (F : Type) (dim : Nat) := { embedding : List F // embedding.length = dim }

structure Geometry (F Row Score : Type) where
  dim : Nat
  /-- `row / norm` in the matrix, none where the norm is zero. -/
  unit : Vector F dim → Option Row
  unitQuery : Vector F dim → Option Row
  zero : Row
  dot : Row → Row → Score
  /-- `score > threshold`. -/
  exceeds : Score → Score → Bool

structure SpaceRows (Row : Type) where
  ids : List (Option String)
  pos : List (String × Nat)
  rows : List Row

inductive SpaceOp (V : Type) where
  | put (entryId : String) (vector : V)
  | remove (entryId : String)

section

variable {F Row Score : Type} (g : Geometry F Row Score)

namespace SpaceRows

def empty : SpaceRows Row := ⟨[], [], List.replicate 16 g.zero⟩

/-- The live rows moved together, and sixteen rows to spare. -/
def compact (sr : SpaceRows Row) : SpaceRows Row :=
  let live := Slots.liveIndices sr.ids
  let ids := live.filterMap fun i => sr.ids[i]?
  ⟨ids, Slots.positions ids, live.filterMap (fun i => sr.rows[i]?) ++ List.replicate 16 g.zero⟩

def remove (sr : SpaceRows Row) (entryId : String) : SpaceRows Row :=
  match Dict.get sr.pos entryId with
  | none => sr
  | some index =>
      let left : SpaceRows Row :=
        ⟨sr.ids.set index none, Dict.pop sr.pos entryId, sr.rows.set index g.zero⟩
      if max 64 left.pos.length < left.ids.length - left.pos.length then left.compact g else left

/-- The rows with room for one more; a full matrix is doubled. -/
def grow (sr : SpaceRows Row) : List Row :=
  if sr.ids.length = sr.rows.length then
    sr.rows ++ List.replicate sr.rows.length g.zero
  else sr.rows

def put (sr : SpaceRows Row) (entryId : String) (vector : Vector F g.dim) : SpaceRows Row :=
  match g.unit vector with
  | none => sr.remove g entryId
  | some row =>
      match Dict.get sr.pos entryId with
      | some index => { sr with rows := sr.rows.set index row }
      | none =>
          ⟨sr.ids ++ [some entryId], Dict.assign sr.pos entryId sr.ids.length,
            (sr.grow g).set sr.ids.length row⟩

def apply (sr : SpaceRows Row) : SpaceOp (Vector F g.dim) → SpaceRows Row
  | .put entryId vector => sr.put g entryId vector
  | .remove entryId => sr.remove g entryId

def run (ops : List (SpaceOp (Vector F g.dim))) : SpaceRows Row :=
  ops.foldl (fun sr op => sr.apply g op) (empty g)

/-- The ids and scores of the rows that score above the threshold. -/
def above (sr : SpaceRows Row) (query : List F) (threshold : Score) : List (String × Score) :=
  if hdim : query.length = g.dim then
    if sr.pos = [] then []
    else
      match g.unitQuery ⟨query, hdim⟩ with
      | none => []
      | some unit =>
          (sr.ids.zip sr.rows).filterMap fun slot =>
            if g.exceeds (g.dot slot.2 unit) threshold then
              slot.1.map fun candidate => (candidate, g.dot slot.2 unit)
            else none
  else []

end SpaceRows

abbrev LiveVectors (F : Type) (dim : Nat) := List (String × Vector F dim)

/-- A vector of norm zero is never a candidate. -/
def SpaceOp.act (live : LiveVectors F g.dim) : SpaceOp (Vector F g.dim) → LiveVectors F g.dim
  | .put entryId vector =>
      if (g.unit vector).isSome then Dict.assign live entryId vector else Dict.pop live entryId
  | .remove entryId => Dict.pop live entryId

def liveAfter (ops : List (SpaceOp (Vector F g.dim))) : LiveVectors F g.dim :=
  ops.foldl (fun live op => op.act g live) []

/-- The score of a live vector against a query. -/
def similarity (query vector : Vector F g.dim) : Option Score :=
  (g.unitQuery query).bind fun unit => (g.unit vector).map fun row => g.dot row unit

/-- The live vectors whose similarity exceeds the threshold. -/
def hits (live : LiveVectors F g.dim) (query : Vector F g.dim) (threshold : Score) :
    List (String × Score) :=
  live.filterMap fun pair =>
    ((similarity g query pair.2).filter (g.exceeds · threshold)).map (pair.1, ·)

/-- The rows of the live vectors. -/
def unitRows (live : LiveVectors F g.dim) : List (String × Row) :=
  live.filterMap fun pair => (g.unit pair.2).map (pair.1, ·)

/-- The rows stand for the live vectors. -/
structure Represents (sr : SpaceRows Row) (live : LiveVectors F g.dim) : Prop where
  entries : Slots.entries sr.ids sr.rows = unitRows g live
  inverse : Slots.Inverse sr.pos sr.ids
  buffer : sr.ids.length ≤ sr.rows.length
  room : 0 < sr.rows.length
  units : ∀ pair ∈ live, (g.unit pair.2).isSome = true

end

section

variable {F Row Score : Type} {g : Geometry F Row Score} {sr : SpaceRows Row}
  {live : LiveVectors F g.dim}

theorem keys_unitRows (h : ∀ pair ∈ live, (g.unit pair.2).isSome = true) :
    Dict.keys (unitRows g live) = Dict.keys live := by
  induction live with
  | nil => rfl
  | cons pair live ih =>
      obtain ⟨row, hrow⟩ := Option.isSome_iff_exists.mp (h pair List.mem_cons_self)
      have hrest := ih fun pair hpair => h pair (List.mem_cons_of_mem _ hpair)
      rw [unitRows, List.filterMap_cons, hrow]
      exact congrArg (pair.1 :: ·) hrest

theorem unitRows_pop (live : LiveVectors F g.dim) (entryId : String) :
    unitRows g (Dict.pop live entryId) = Dict.pop (unitRows g live) entryId := by
  rw [unitRows, Dict.pop, Dict.pop, List.filterMap_filter, unitRows, List.filter_filterMap]
  refine List.filterMap_congr fun pair _ => ?_
  by_cases hne : pair.1 = entryId
  · cases hunit : g.unit pair.2 <;> simp [Option.filter, hne]
  · cases hunit : g.unit pair.2 <;> simp [Option.filter, hne]

theorem unitRows_assign {vector : Vector F g.dim} {row : Row} (hrow : g.unit vector = some row)
    (h : ∀ pair ∈ live, (g.unit pair.2).isSome = true) (entryId : String) :
    unitRows g (Dict.assign live entryId vector) =
      Dict.assign (unitRows g live) entryId row := by
  induction live with
  | nil => simp [Dict.assign, unitRows, hrow]
  | cons pair live ih =>
      obtain ⟨id, old⟩ := pair
      obtain ⟨oldRow, hold⟩ := Option.isSome_iff_exists.mp (h (id, old) List.mem_cons_self)
      have hcons : ∀ rest : LiveVectors F g.dim,
          unitRows g ((id, old) :: rest) = (id, oldRow) :: unitRows g rest := by
        intro rest
        rw [unitRows, List.filterMap_cons]
        simp only [hold, Option.map_some]
        rfl
      rw [Dict.assign, hcons, Dict.assign]
      split
      · rw [unitRows, List.filterMap_cons]
        simp only [hrow, Option.map_some]
        rfl
      · rw [hcons, ih fun pair hpair => h pair (List.mem_cons_of_mem _ hpair)]

theorem represents_empty : Represents g (SpaceRows.empty g) [] where
  entries := rfl
  inverse := fun k i => by simp [SpaceRows.empty, Dict.get]
  buffer := Nat.zero_le _
  room := by simp [SpaceRows.empty]
  units := fun _ h => nomatch h

theorem Represents.compact (h : Represents g sr live) : Represents g (sr.compact g) live where
  entries := by
    rw [← h.entries]
    exact Slots.entries_compact h.buffer _
  inverse := Slots.inverse_positions (Slots.distinct_compact h.inverse.distinct)
  buffer := by
    rw [SpaceRows.compact, Slots.ids_at_liveIndices, Slots.rows_at_liveIndices _ h.buffer,
      List.length_append, List.length_map]
    have hzip : (sr.ids.filter Option.isSome).length =
        ((sr.ids.zip sr.rows).filter fun slot => slot.1.isSome).length := by
      have hfst : (sr.ids.zip sr.rows).map Prod.fst = sr.ids := List.map_fst_zip h.buffer
      conv_lhs => rw [← hfst]
      rw [List.filter_map, List.length_map]
      rfl
    exact hzip.le.trans (Nat.le_add_right _ _)
  room := by simp [SpaceRows.compact]
  units := h.units

theorem inverse_kill {pos : List (String × Nat)} {ids : List (Option String)}
    (h : Slots.Inverse pos ids) {entryId : String} {index : Nat}
    (hi : ids[index]? = some (some entryId)) :
    Slots.Inverse (Dict.pop pos entryId) (ids.set index none) := by
  intro k i
  rw [Dict.get_pop, List.getElem?_set]
  by_cases hk : entryId = k
  · subst hk
    rw [if_pos rfl]
    refine iff_of_false (fun hnone => nomatch hnone) fun hslot => ?_
    split at hslot
    · split at hslot <;> cases hslot
    · rename_i hne
      exact hne (h.only hslot hi)
  · rw [if_neg hk, h k i]
    split
    · rename_i heq
      subst heq
      rw [hi]
      refine iff_of_false (fun heq => hk (Option.some.inj (Option.some.inj heq))) fun hslot => ?_
      split at hslot <;> cases hslot
    · exact Iff.rfl

theorem Represents.remove (h : Represents g sr live) (entryId : String) :
    Represents g (sr.remove g entryId) (Dict.pop live entryId) := by
  rw [SpaceRows.remove]
  cases hget : Dict.get sr.pos entryId with
  | none =>
      have hnew : entryId ∉ Dict.keys live := by
        rw [← keys_unitRows h.units, ← h.entries, Slots.mem_keys_entries h.buffer]
        intro hmem
        obtain ⟨i, hi⟩ := List.mem_iff_getElem?.mp hmem
        rw [(h.inverse entryId i).mpr hi] at hget
        cases hget
      rw [Dict.pop_of_not_mem hnew]
      exact h
  | some index =>
      have hi := (h.inverse entryId index).mp hget
      have hleft : Represents g ⟨sr.ids.set index none, Dict.pop sr.pos entryId,
          sr.rows.set index g.zero⟩ (Dict.pop live entryId) := by
        refine ⟨?_, inverse_kill h.inverse hi, ?_, ?_, fun pair hpair => ?_⟩
        · rw [Slots.entries_kill g.zero hi (fun j hj => h.inverse.only hi hj) h.buffer, h.entries,
            unitRows_pop]
        · simpa using h.buffer
        · simpa using h.room
        · exact h.units pair (List.mem_of_mem_filter hpair)
      dsimp only
      split
      · exact hleft.compact
      · exact hleft

theorem inverse_append {pos : List (String × Nat)} {ids : List (Option String)}
    (h : Slots.Inverse pos ids) {entryId : String} (hget : Dict.get pos entryId = none) :
    Slots.Inverse (Dict.assign pos entryId ids.length) (ids ++ [some entryId]) := by
  intro k i
  rw [Dict.get_assign]
  by_cases hk : entryId = k
  · subst hk
    rw [if_pos rfl]
    constructor
    · intro heq
      obtain rfl := Option.some.inj heq
      simp
    · intro hslot
      obtain hlt | hge := Nat.lt_or_ge i ids.length
      · rw [List.getElem?_append_left hlt] at hslot
        rw [(h entryId i).mpr hslot] at hget
        cases hget
      · have hlt := (List.getElem?_eq_some_iff.mp hslot).1
        rw [List.length_append, List.length_singleton] at hlt
        rw [Nat.le_antisymm hge (Nat.le_of_lt_succ hlt)]
  · rw [if_neg hk, h k i]
    obtain hlt | hge := Nat.lt_or_ge i ids.length
    · rw [List.getElem?_append_left hlt]
    · rw [List.getElem?_append_right hge, List.getElem?_eq_none hge]
      refine iff_of_false (fun hnone => nomatch hnone) fun hslot => ?_
      obtain heq := List.mem_singleton.mp (List.mem_of_getElem? hslot)
      exact hk (Option.some.inj heq).symm

theorem Represents.put (h : Represents g sr live) (entryId : String) (vector : Vector F g.dim) :
    Represents g (sr.put g entryId vector)
      ((SpaceOp.put entryId vector : SpaceOp (Vector F g.dim)).act g live) := by
  rw [SpaceRows.put.eq_def, SpaceOp.act]
  cases hunit : g.unit vector with
  | none => exact h.remove entryId
  | some row =>
      have hunits : ∀ pair ∈ Dict.assign live entryId vector,
          (g.unit pair.2).isSome = true := by
        intro pair hpair
        obtain rfl | hold := Dict.mem_of_mem_assign hpair
        · exact Option.isSome_iff_exists.mpr ⟨row, hunit⟩
        · exact h.units pair hold
      dsimp only [Option.isSome_some]
      cases hget : Dict.get sr.pos entryId with
      | some index =>
          have hi := (h.inverse entryId index).mp hget
          refine ⟨?_, h.inverse, ?_, ?_, hunits⟩
          · rw [if_pos rfl, unitRows_assign hunit h.units, ← h.entries]
            exact Slots.entries_set_row row hi (fun j hj => h.inverse.only hi hj) h.buffer
          · simpa using h.buffer
          · simpa using h.room
      | none =>
          have hroom : sr.ids.length < (sr.grow g).length := by
            have hbuffer := h.buffer
            have hpos := h.room
            rw [SpaceRows.grow]
            split
            · rw [List.length_append, List.length_replicate]
              omega
            · omega
          have hgrow : (sr.grow g).take sr.ids.length = sr.rows.take sr.ids.length := by
            rw [SpaceRows.grow]
            split
            · exact List.take_append_of_le_length h.buffer
            · rfl
          have hnew : entryId ∉ Dict.keys (unitRows g live) := by
            rw [← h.entries, Slots.mem_keys_entries h.buffer]
            intro hmem
            obtain ⟨i, hi⟩ := List.mem_iff_getElem?.mp hmem
            rw [(h.inverse entryId i).mpr hi] at hget
            cases hget
          refine ⟨?_, inverse_append h.inverse hget, ?_, ?_, hunits⟩
          · rw [if_pos rfl, unitRows_assign hunit h.units, Dict.assign_of_new hnew, ← h.entries]
            exact Slots.entries_append entryId row hgrow h.buffer hroom
          · rw [List.length_append, List.length_singleton, List.length_set]
            exact hroom
          · rw [List.length_set]
            exact Nat.zero_lt_of_lt hroom

theorem represents_run (ops : List (SpaceOp (Vector F g.dim))) :
    Represents g (SpaceRows.run g ops) (liveAfter g ops) := by
  induction ops using List.reverseRecOn with
  | nil => exact represents_empty
  | append_singleton ops op ih =>
      rw [SpaceRows.run, liveAfter, List.foldl_concat, List.foldl_concat]
      cases op with
      | put entryId vector => exact ih.put entryId vector
      | remove entryId => exact ih.remove entryId

theorem above_eq (h : Represents g sr live) (query : Vector F g.dim) (threshold : Score) :
    sr.above g query.1 threshold = hits g live query threshold := by
  have hsearch : ∀ unit, g.unitQuery query = some unit →
      ((sr.ids.zip sr.rows).filterMap fun slot =>
        if g.exceeds (g.dot slot.2 unit) threshold then
          slot.1.map fun candidate => (candidate, g.dot slot.2 unit)
        else none) = hits g live query threshold := by
    intro unit hunit
    have hentries : ((sr.ids.zip sr.rows).filterMap fun slot =>
        if g.exceeds (g.dot slot.2 unit) threshold then
          slot.1.map fun candidate => (candidate, g.dot slot.2 unit)
        else none) =
          (Slots.entries sr.ids sr.rows).filterMap fun pair =>
            if g.exceeds (g.dot pair.2 unit) threshold then some (pair.1, g.dot pair.2 unit)
            else none := by
      rw [Slots.entries, List.filterMap_filterMap]
      refine List.filterMap_congr fun slot _ => ?_
      cases slot.1 <;> simp
    rw [hentries, h.entries, unitRows, List.filterMap_filterMap, hits]
    refine List.filterMap_congr fun pair _ => ?_
    rw [similarity, hunit]
    cases hrow : g.unit pair.2 with
    | none => rfl
    | some row =>
        by_cases hexceeds : g.exceeds (g.dot row unit) threshold = true
        · simp [Option.filter, hexceeds]
        · simp [Option.filter, hexceeds]
  rw [SpaceRows.above, dif_pos query.2]
  split
  · rename_i hpos
    have hempty : live = [] := by
      refine List.eq_nil_iff_forall_not_mem.mpr fun pair hpair => ?_
      have hkey : pair.1 ∈ Dict.keys live := List.mem_map_of_mem hpair
      rw [← keys_unitRows h.units, ← h.entries, Slots.mem_keys_entries h.buffer] at hkey
      obtain ⟨i, hi⟩ := List.mem_iff_getElem?.mp hkey
      have hget := (h.inverse pair.1 i).mpr hi
      rw [hpos] at hget
      cases hget
    rw [hempty]
    rfl
  · split
    · rename_i hunit
      have hunit' : g.unitQuery query = none := hunit
      refine (List.filterMap_eq_nil_iff.mpr fun pair _ => ?_).symm
      rw [similarity, hunit']
      rfl
    · rename_i unit hunit
      exact hsearch unit hunit

/-- After any operations the search returns the live vectors whose similarity to the query exceeds
the threshold, in the order of their insertion, and nothing for a query of another width; the
positions are those of the live ids, and the row of a live id is that of its vector. -/
theorem spaceRows_refines (g : Geometry F Row Score) (ops : List (SpaceOp (Vector F g.dim))) :
    (∀ (query : Vector F g.dim) threshold,
      (SpaceRows.run g ops).above g query.1 threshold = hits g (liveAfter g ops) query threshold) ∧
    (∀ query threshold, query.length ≠ g.dim →
      (SpaceRows.run g ops).above g query threshold = []) ∧
    (∀ entryId i, Dict.get (SpaceRows.run g ops).pos entryId = some i ↔
      (SpaceRows.run g ops).ids[i]? = some (some entryId)) ∧
    Slots.entries (SpaceRows.run g ops).ids (SpaceRows.run g ops).rows =
      unitRows g (liveAfter g ops) ∧
    ∀ entryId, entryId ∈ Dict.keys (liveAfter g ops) ↔
      some entryId ∈ (SpaceRows.run g ops).ids := by
  have h := represents_run (g := g) ops
  refine ⟨above_eq h, fun query threshold hdim => dif_neg hdim, h.inverse, h.entries, ?_⟩
  intro entryId
  rw [← keys_unitRows h.units, ← h.entries, Slots.mem_keys_entries h.buffer]

/-- Exact vectors of one number. -/
def lineGeometry : Geometry Rat Rat Rat where
  dim := 1
  unit vector := (vector.1.head?.filter (· ≠ 0)).map fun x => x / |x|
  unitQuery query := (query.1.head?.filter (· ≠ 0)).map fun x => x / |x|
  zero := 0
  dot row unit := row * unit
  exceeds score threshold := decide (threshold < score)

/-- A live vector that reaches the threshold is not returned, and a zero vector is not live. -/
theorem reached_not_returned :
    similarity lineGeometry ⟨[1], rfl⟩ ⟨[2], rfl⟩ = some 1 ∧
      (SpaceRows.run lineGeometry [.put "a" ⟨[2], rfl⟩]).above lineGeometry [1] 1 = [] ∧
      (SpaceRows.run lineGeometry [.put "a" ⟨[0], rfl⟩]).above lineGeometry [1] (-1) = [] := by
  decide +kernel

end

end TrwMemory.Graph

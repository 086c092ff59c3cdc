import Mathlib.Data.List.Induction
import Mathlib.Data.List.Nodup
import Mathlib.Data.Option.Basic

/-!
Tables with a primary key. A table is the list of its rows in the order of their
insertion, and carries the proof that no key occurs twice, so that a table that
breaks its key cannot be built. Every operation is described by the row that is
found under each key.
-/
namespace Library.Keyed

universe u v

section EraseDups

variable {α : Type u} [DecidableEq α]

private theorem eraseDups_concat (values : List α) (a : α) :
    (values ++ [a]).eraseDups =
      if a ∈ values then values.eraseDups else values.eraseDups ++ [a] := by
  rw [List.eraseDups_append]
  split
  · rename_i hmem
    simp [List.removeAll, hmem]
  · rename_i hmem
    simp [List.removeAll, hmem, List.eraseDups_cons]

@[simp]
theorem mem_eraseDups {values : List α} {a : α} : a ∈ values.eraseDups ↔ a ∈ values := by
  induction values using List.reverseRecOn with
  | nil => simp
  | append_singleton values b ih =>
      rw [eraseDups_concat]
      split
      · rename_i hmem
        rw [ih, List.mem_append, List.mem_singleton]
        exact ⟨.inl, fun h => h.elim id fun hb => hb ▸ hmem⟩
      · rw [List.mem_append, List.mem_append, ih]

theorem nodup_eraseDups (values : List α) : values.eraseDups.Nodup := by
  induction values using List.reverseRecOn with
  | nil => simp
  | append_singleton values b ih =>
      rw [eraseDups_concat]
      split
      · exact ih
      · rename_i hmem
        exact List.nodup_append.mpr ⟨ih, List.nodup_singleton b, fun a ha c hc heq =>
          hmem (by rwa [← List.mem_singleton.mp hc, ← heq, ← mem_eraseDups])⟩

end EraseDups

/-- A row is its key and the rest of its columns. -/
structure Table (κ : Type u) (α : Type v) where
  rows : List (κ × α)
  nodup : (rows.map Prod.fst).Nodup

variable {κ : Type u} {α : Type v}

namespace Table

def empty : Table κ α := ⟨[], List.nodup_nil⟩

def keys (t : Table κ α) : List κ := t.rows.map Prod.fst

/-- `DELETE`: every row whose key is selected. -/
def discard (t : Table κ α) (p : κ → Bool) : Table κ α where
  rows := t.rows.filter fun row => !p row.1
  nodup := t.nodup.sublist (List.filter_sublist.map Prod.fst)

theorem discard_eq_self (t : Table κ α) {p : κ → Bool} (h : ∀ k ∈ t.keys, p k = false) :
    t.discard p = t := by
  cases t with
  | mk rows nodup =>
      simp only [discard, mk.injEq, List.filter_eq_self]
      intro row hrow
      rw [h row.1 (List.mem_map_of_mem hrow)]
      rfl

theorem discard_congr (t : Table κ α) {p q : κ → Bool} (h : ∀ k ∈ t.keys, p k = q k) :
    t.discard p = t.discard q := by
  simp only [discard, mk.injEq]
  exact List.filter_congr fun row hrow => by rw [h row.1 (List.mem_map_of_mem hrow)]

theorem discard_discard (t : Table κ α) (p q : κ → Bool) :
    (t.discard p).discard q = t.discard fun k => p k || q k := by
  simp only [discard, mk.injEq, List.filter_filter]
  exact List.filter_congr fun row _ => by rw [Bool.not_or, Bool.and_comm]

variable [DecidableEq κ]

def find (t : Table κ α) (k : κ) : Option α :=
  (t.rows.find? fun row => row.1 = k).map Prod.snd

/-- `INSERT OR REPLACE`: the old row of the key goes, the new one comes last. -/
def put (t : Table κ α) (k : κ) (a : α) : Table κ α where
  rows := t.rows.filter (fun row => !decide (row.1 = k)) ++ [(k, a)]
  nodup := by
    rw [List.map_append, List.nodup_append]
    refine ⟨t.nodup.sublist (List.filter_sublist.map Prod.fst), List.nodup_singleton k, ?_⟩
    intro old hold new hnew
    obtain ⟨row, hrow, rfl⟩ := List.mem_map.mp hold
    rw [List.mem_map] at hnew
    obtain ⟨row', hrow', rfl⟩ := hnew
    obtain rfl := List.mem_singleton.mp hrow'
    simpa using (List.mem_filter.mp hrow).2

/-- A key determines its row. -/
theorem mem_rows (t : Table κ α) (k : κ) (a : α) : (k, a) ∈ t.rows ↔ t.find k = some a := by
  unfold find
  constructor
  · intro hmem
    cases hfind : t.rows.find? fun row => row.1 = k with
    | none =>
        have habsent := List.find?_eq_none.mp hfind (k, a) hmem
        simp at habsent
    | some row =>
        have hkey : row.1 = k := by simpa using List.find?_some hfind
        have hrow : row = (k, a) :=
          List.inj_on_of_nodup_map t.nodup (List.mem_of_find?_eq_some hfind) hmem hkey
        rw [hrow, Option.map_some]
  · intro hfind
    obtain ⟨row, hrow, rfl⟩ := Option.map_eq_some_iff.mp hfind
    have hkey : row.1 = k := by simpa using List.find?_some hrow
    rw [← hkey]
    exact List.mem_of_find?_eq_some hrow

theorem find_eq_none (t : Table κ α) (k : κ) : t.find k = none ↔ k ∉ t.keys := by
  constructor
  · intro hnone hmem
    obtain ⟨row, hrow, rfl⟩ := List.mem_map.mp hmem
    rw [(t.mem_rows row.1 row.2).mp hrow] at hnone
    cases hnone
  · intro habsent
    cases hfind : t.find k with
    | none => rfl
    | some a =>
        exact absurd (List.mem_map_of_mem (f := Prod.fst) ((t.mem_rows k a).mpr hfind)) habsent

theorem mem_keys (t : Table κ α) (k : κ) : k ∈ t.keys ↔ (t.find k).isSome = true := by
  rw [Option.isSome_iff_ne_none, ne_eq, find_eq_none, not_not]

@[simp]
theorem find_empty (k : κ) : (empty : Table κ α).find k = none := rfl

@[simp]
theorem find_discard (t : Table κ α) (p : κ → Bool) (k : κ) :
    (t.discard p).find k = if p k then none else t.find k := by
  apply Option.ext
  intro a
  rw [← mem_rows]
  cases hp : p k with
  | true => simp [discard, hp]
  | false => simp [discard, hp, mem_rows]

@[simp]
theorem find_put (t : Table κ α) (k : κ) (a : α) (k' : κ) :
    (t.put k a).find k' = if k' = k then some a else t.find k' := by
  apply Option.ext
  intro b
  rw [← mem_rows]
  by_cases hk : k' = k
  · subst hk
    simp [put, eq_comm]
  · simp [put, hk, mem_rows]

theorem find_put_self (t : Table κ α) (k : κ) (a : α) : (t.put k a).find k = some a := by
  simp

theorem find_put_of_ne (t : Table κ α) {k k' : κ} (a : α) (h : k' ≠ k) :
    (t.put k a).find k' = t.find k' := by
  simp [h]

/-- The rows of a key. -/
theorem filter_key (t : Table κ α) (k : κ) :
    t.rows.filter (fun row => decide (row.1 = k)) = ((t.find k).map (k, ·)).toList := by
  cases hfind : t.find k with
  | none =>
      rw [Option.map_none, Option.toList_none, List.filter_eq_nil_iff]
      intro row hrow hkey
      rw [find_eq_none] at hfind
      exact hfind (by rw [← of_decide_eq_true hkey]; exact List.mem_map_of_mem hrow)
  | some a =>
      have hmem := (t.mem_rows k a).mpr hfind
      have hnodup : (t.rows.filter fun row => decide (row.1 = k)).Nodup :=
        (List.Nodup.of_map _ t.nodup).filter _
      have hall : ∀ row ∈ t.rows.filter (fun row => decide (row.1 = k)), row = (k, a) := by
        intro row hrow
        obtain ⟨hin, hkey⟩ := List.mem_filter.mp hrow
        exact List.inj_on_of_nodup_map t.nodup hin hmem (of_decide_eq_true hkey)
      have hin : (k, a) ∈ t.rows.filter fun row => decide (row.1 = k) :=
        List.mem_filter.mpr ⟨hmem, decide_eq_true rfl⟩
      exact List.perm_singleton.mp
        ((List.perm_ext_iff_of_nodup hnodup (List.nodup_singleton _)).mpr fun row =>
          ⟨fun h => List.mem_singleton.mpr (hall row h), fun h => List.mem_singleton.mp h ▸ hin⟩)

/-- What is counted in the rows after a row is put. -/
theorem countP_put (t : Table κ α) (k : κ) (a : α) (p : κ × α → Bool) :
    (t.put k a).rows.countP p + ((t.find k).map (k, ·)).toList.countP p =
      t.rows.countP p + [(k, a)].countP p := by
  have hsplit := List.countP_eq_countP_filter_add t.rows p fun row => decide (row.1 = k)
  rw [filter_key] at hsplit
  change List.countP p (t.rows.filter _ ++ [(k, a)]) + _ = _
  rw [List.countP_append]
  omega

theorem length_put (t : Table κ α) (k : κ) (a : α) :
    (t.put k a).rows.length + (if (t.find k).isSome then 1 else 0) = t.rows.length + 1 := by
  have hcount := t.countP_put k a fun _ => true
  rw [List.countP_true] at hcount
  cases hfind : t.find k with
  | none => simpa [hfind] using hcount
  | some old => simpa [hfind] using hcount

/-- `UPDATE`: what becomes of each row. -/
def alter (t : Table κ α) (f : κ → α → α) : Table κ α where
  rows := t.rows.map fun row => (row.1, f row.1 row.2)
  nodup := by
    rw [List.map_map]
    exact t.nodup

theorem find_alter (t : Table κ α) (f : κ → α → α) (k : κ) :
    (t.alter f).find k = (t.find k).map (f k) := by
  apply Option.ext
  intro a
  rw [← mem_rows, Option.map_eq_some_iff]
  constructor
  · intro hmem
    obtain ⟨row, hrow, heq⟩ := List.mem_map.mp hmem
    obtain ⟨rfl, rfl⟩ := Prod.mk.inj heq
    exact ⟨row.2, (t.mem_rows row.1 row.2).mp hrow, rfl⟩
  · rintro ⟨b, hb, rfl⟩
    exact List.mem_map.mpr ⟨(k, b), (t.mem_rows k b).mpr hb, rfl⟩

/-- The rows with their columns mapped, those left out that map to nothing. -/
def collect {β : Type v} (t : Table κ α) (f : α → Option β) : Table κ β where
  rows := t.rows.filterMap fun row => (f row.2).map (row.1, ·)
  nodup := by
    refine t.nodup.sublist ?_
    rw [List.map_filterMap, ← List.filterMap_eq_map]
    generalize t.rows = rows
    induction rows with
    | nil => exact .slnil
    | cons row rows ih =>
        rw [List.filterMap_cons, List.filterMap_cons]
        cases f row.2 with
        | none => exact ih.cons _
        | some b => exact ih.cons_cons _

theorem find_collect {β : Type v} (t : Table κ α) (f : α → Option β) (k : κ) :
    (t.collect f).find k = (t.find k).bind f := by
  apply Option.ext
  intro b
  rw [← mem_rows, Option.bind_eq_some_iff]
  simp only [collect, List.mem_filterMap, Option.map_eq_some_iff, Prod.mk.injEq]
  constructor
  · rintro ⟨row, hrow, c, hc, rfl, rfl⟩
    exact ⟨row.2, (t.mem_rows row.1 row.2).mp hrow, hc⟩
  · rintro ⟨a, ha, hb⟩
    exact ⟨(k, a), (t.mem_rows k a).mpr ha, b, hb, rfl, rfl⟩

/-- The largest key, `0` for no row. -/
def maxKey (t : Table Nat α) : Nat := t.keys.foldr max 0

theorem le_maxKey (t : Table Nat α) {k : Nat} (h : k ∈ t.keys) : k ≤ t.maxKey := by
  unfold maxKey
  generalize t.keys = keys at h
  induction keys with
  | nil => cases h
  | cons first rest ih =>
      rcases List.mem_cons.mp h with rfl | hrest
      · exact Nat.le_max_left _ _
      · exact Nat.le_trans (ih hrest) (Nat.le_max_right _ _)

/-- The key that a row without one is given. -/
def nextKey (t : Table Nat α) : Nat := t.maxKey + 1

theorem find_nextKey (t : Table Nat α) : t.find t.nextKey = none := by
  rw [find_eq_none]
  intro hmem
  exact absurd (t.le_maxKey hmem) (Nat.not_succ_le_self _)

/-- After an insert the key it was given is the largest. -/
@[simp]
theorem maxKey_put_nextKey (t : Table Nat α) (a : α) : (t.put t.nextKey a).maxKey = t.nextKey := by
  have hkeep : t.rows.filter (fun row => !decide (row.1 = t.nextKey)) = t.rows := by
    rw [List.filter_eq_self]
    intro row hrow
    have hle := t.le_maxKey (List.mem_map_of_mem (f := Prod.fst) hrow)
    have hne : row.1 ≠ t.nextKey := Nat.ne_of_lt (Nat.lt_succ_of_le hle)
    simpa using hne
  have hmax : ∀ (keys : List Nat) (top : Nat), (∀ k ∈ keys, k ≤ top) →
      (keys ++ [top]).foldr max 0 = top := by
    intro keys top hkeys
    induction keys with
    | nil => exact Nat.max_eq_left (Nat.zero_le top)
    | cons k keys ih =>
        rw [List.cons_append, List.foldr_cons,
          ih fun k' hk' => hkeys k' (List.mem_cons_of_mem k hk')]
        exact Nat.max_eq_right (hkeys k List.mem_cons_self)
  have hkeys : (t.put t.nextKey a).keys = t.keys ++ [t.nextKey] := by
    change (t.rows.filter (fun row => !decide (row.1 = t.nextKey)) ++ [(t.nextKey, a)]).map _ = _
    rw [hkeep, List.map_append]
    rfl
  rw [maxKey, hkeys]
  exact hmax _ _ fun k hk => Nat.le_succ_of_le (t.le_maxKey hk)

end Table

end Library.Keyed

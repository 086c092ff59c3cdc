import TrwMemory.Library.OrderedDict

/-!
A table of rows in slots. A slot names its key or is a tombstone; rows are replaced where they
stand, new ones are appended, and compaction closes the gaps. Its entries in slot order are a
dictionary in the order of insertion, which every operation changes as the dictionary's own does.

The buffer of rows may be longer than the list of slots.
-/
namespace Library.Slots

universe u v

variable {κ : Type u} {ρ : Type v}

/-- The live slots with their rows. -/
def entries (ids : List (Option κ)) (rows : List ρ) : List (κ × ρ) :=
  (ids.zip rows).filterMap fun slot => slot.1.map (·, slot.2)

/-- The indices of the live slots. -/
def liveIndices (ids : List (Option κ)) : List Nat :=
  (ids.zipIdx.filter fun slot => slot.1.isSome).map Prod.snd

/-- No key stands in two slots. -/
def Distinct (ids : List (Option κ)) : Prop := (ids.filterMap id).Nodup

theorem entries_cons_none (ids : List (Option κ)) (row : ρ) (rows : List ρ) :
    entries (none :: ids) (row :: rows) = entries ids rows := rfl

theorem entries_cons_some (k : κ) (ids : List (Option κ)) (row : ρ) (rows : List ρ) :
    entries (some k :: ids) (row :: rows) = (k, row) :: entries ids rows := rfl

theorem mem_keys_entries {ids : List (Option κ)} {rows : List ρ} (h : ids.length ≤ rows.length)
    {k : κ} : k ∈ Dict.keys (entries ids rows) ↔ some k ∈ ids := by
  induction ids generalizing rows with
  | nil => simp [entries, Dict.keys]
  | cons slot ids ih =>
      cases rows with
      | nil => cases h
      | cons row rows =>
          have hrest := @ih rows (Nat.le_of_succ_le_succ h)
          cases slot with
          | none => simpa [entries_cons_none] using hrest
          | some k' =>
              rw [entries_cons_some, Dict.keys, List.map_cons, List.mem_cons, List.mem_cons,
                Option.some_inj]
              exact or_congr Iff.rfl hrest

/-- A new slot, whatever lies behind it in the buffer. -/
theorem entries_append {ids : List (Option κ)} {rows grown : List ρ} (k : κ) (row : ρ)
    (hgrown : grown.take ids.length = rows.take ids.length) (hlength : ids.length ≤ rows.length)
    (hroom : ids.length < grown.length) :
    entries (ids ++ [some k]) (grown.set ids.length row) = entries ids rows ++ [(k, row)] := by
  have hfront : ids.zip (rows.take ids.length) = ids.zip rows := by
    conv_rhs => rw [← List.take_append_drop ids.length rows]
    rw [← List.append_nil ids, List.zip_append (by simp [hlength])]
    simp
  have hset : grown.set ids.length row =
      rows.take ids.length ++ row :: grown.drop (ids.length + 1) := by
    rw [List.set_eq_take_append_cons_drop, if_pos hroom, hgrown]
  rw [entries, hset, List.zip_append (by simp [hlength]), hfront, List.filterMap_append]
  rfl

theorem filterMap_live {α : Type v} (ids : List (Option κ)) {rows : List α}
    (hlength : ids.length ≤ rows.length) (n : Nat) (before : List α) (hbefore : before.length = n) :
    (((ids.zipIdx n).filter fun slot => slot.1.isSome).map Prod.snd).filterMap
        (fun i => (before ++ rows)[i]?) =
      ((ids.zip rows).filter fun slot => slot.1.isSome).map Prod.snd := by
  induction ids generalizing rows n before with
  | nil => rfl
  | cons slot ids ih =>
      cases rows with
      | nil => cases hlength
      | cons row rows =>
          have hrest := ih (Nat.le_of_succ_le_succ hlength) (n + 1) (before ++ [row])
            (by simp [hbefore])
          rw [List.append_assoc, List.singleton_append] at hrest
          have hhere : (before ++ row :: rows)[n]? = some row := by simp [← hbefore]
          cases slot with
          | none => simpa using hrest
          | some k => simpa [hhere] using hrest

theorem rows_at_liveIndices {α : Type v} (ids : List (Option κ)) {rows : List α}
    (hlength : ids.length ≤ rows.length) :
    (liveIndices ids).filterMap (fun i => rows[i]?) =
      ((ids.zip rows).filter fun slot => slot.1.isSome).map Prod.snd :=
  filterMap_live ids hlength 0 [] rfl

theorem ids_at_liveIndices (ids : List (Option κ)) :
    (liveIndices ids).filterMap (fun i => ids[i]?) = ids.filter Option.isSome := by
  rw [rows_at_liveIndices ids (Nat.le_refl _)]
  induction ids with
  | nil => rfl
  | cons slot ids ih =>
      cases slot with
      | none => simpa using ih
      | some k => simpa using ih

/-- The gaps closed, whatever the buffer holds behind. -/
theorem entries_compact {ids : List (Option κ)} {rows : List ρ} (hlength : ids.length ≤ rows.length)
    (rest : List ρ) :
    entries ((liveIndices ids).filterMap fun i => ids[i]?)
        ((liveIndices ids).filterMap (fun i => rows[i]?) ++ rest) = entries ids rows := by
  rw [ids_at_liveIndices, rows_at_liveIndices ids hlength]
  induction ids generalizing rows with
  | nil => simp [entries]
  | cons slot ids ih =>
      cases rows with
      | nil => cases hlength
      | cons row rows =>
          have hrest := @ih rows (Nat.le_of_succ_le_succ hlength)
          cases slot with
          | none =>
              rw [entries_cons_none, ← hrest]
              rfl
          | some k =>
              rw [entries_cons_some, ← hrest]
              rfl

theorem distinct_compact {ids : List (Option κ)} (h : Distinct ids) :
    Distinct ((liveIndices ids).filterMap fun i => ids[i]?) := by
  rw [ids_at_liveIndices, Distinct]
  exact ((List.filter_sublist.filterMap id).nodup h)

theorem keys_positions (ids : List (Option κ)) (n : Nat) :
    Dict.keys ((ids.zipIdx n).filterMap fun slot => slot.1.map (·, slot.2)) =
      ids.filterMap id := by
  induction ids generalizing n with
  | nil => rfl
  | cons slot ids ih =>
      cases slot with
      | none => simpa using ih (n + 1)
      | some k => simpa [Dict.keys] using ih (n + 1)

variable [DecidableEq κ]

/-- The positions are those of the live slots. -/
def Inverse (pos : List (κ × Nat)) (ids : List (Option κ)) : Prop :=
  ∀ k i, Dict.get pos k = some i ↔ ids[i]? = some (some k)

/-- `{candidate: i for i, candidate in enumerate(ids) if candidate is not None}`. -/
def positions (ids : List (Option κ)) : List (κ × Nat) :=
  Dict.ofPairs (ids.zipIdx.filterMap fun slot => slot.1.map (·, slot.2))

theorem Inverse.only {pos : List (κ × Nat)} {ids : List (Option κ)} (h : Inverse pos ids) {k : κ}
    {i j : Nat} (hi : ids[i]? = some (some k)) (hj : ids[j]? = some (some k)) : j = i :=
  Option.some.inj (((h k j).mpr hj).symm.trans ((h k i).mpr hi))

theorem Inverse.distinct {pos : List (κ × Nat)} {ids : List (Option κ)} (h : Inverse pos ids) :
    Distinct ids := by
  rw [Distinct, List.Nodup, List.pairwise_filterMap, List.pairwise_iff_getElem]
  rintro i j hi hj hij k hk k' hk' rfl
  have hik : ids[i]? = some (some k) := List.getElem?_eq_some_iff.mpr ⟨hi, hk⟩
  have hjk : ids[j]? = some (some k) := List.getElem?_eq_some_iff.mpr ⟨hj, hk'⟩
  exact Nat.ne_of_gt hij (h.only hik hjk)

theorem inverse_positions {ids : List (Option κ)} (h : Distinct ids) :
    Inverse (positions ids) ids := by
  have hkeys : (Dict.keys (ids.zipIdx.filterMap fun slot => slot.1.map (·, slot.2))).Nodup := by
    rwa [keys_positions]
  intro k i
  rw [positions, Dict.ofPairs_of_nodup hkeys]
  constructor
  · intro hget
    obtain ⟨slot, hslot, hpair⟩ := List.mem_filterMap.mp (Dict.mem_of_get hget)
    obtain ⟨k', hk', heq⟩ := Option.map_eq_some_iff.mp hpair
    obtain ⟨rfl, rfl⟩ := Prod.mk.inj heq
    rw [List.mk_mem_zipIdx_iff_getElem?.mp hslot, hk']
  · intro hi
    refine Dict.get_of_mem hkeys (List.mem_filterMap.mpr ⟨(some k, i), ?_, rfl⟩)
    exact List.mk_mem_zipIdx_iff_getElem?.mpr hi

/-- A row replaced in the slot of its key. -/
theorem entries_set_row {ids : List (Option κ)} {rows : List ρ} {k : κ} {i : Nat} (row : ρ)
    (hi : ids[i]? = some (some k)) (honly : ∀ j, ids[j]? = some (some k) → j = i)
    (hlength : ids.length ≤ rows.length) :
    entries ids (rows.set i row) = Dict.assign (entries ids rows) k row := by
  induction ids generalizing rows i with
  | nil => cases hi
  | cons slot ids ih =>
      cases rows with
      | nil => cases hlength
      | cons r rows =>
          cases i with
          | zero =>
              obtain rfl : slot = some k := by simpa using hi
              rw [List.set_cons_zero, entries_cons_some, entries_cons_some, Dict.assign,
                if_pos rfl]
          | succ i =>
              have hrest : entries ids (rows.set i row) = Dict.assign (entries ids rows) k row :=
                ih (by simpa using hi)
                  (fun j hj => Nat.succ.inj (honly (j + 1) (by simpa using hj)))
                  (Nat.le_of_succ_le_succ hlength)
              cases slot with
              | none => rw [List.set_cons_succ, entries_cons_none, entries_cons_none, hrest]
              | some k' =>
                  have hne : k' ≠ k := fun heq => by
                    have hzero := honly 0 (by simp [heq])
                    cases hzero
                  rw [List.set_cons_succ, entries_cons_some, entries_cons_some, Dict.assign,
                    if_neg hne, hrest]

/-- The slot of a key made a tombstone, whatever its row becomes. -/
theorem entries_kill {ids : List (Option κ)} {rows : List ρ} {k : κ} {i : Nat} (zero : ρ)
    (hi : ids[i]? = some (some k)) (honly : ∀ j, ids[j]? = some (some k) → j = i)
    (hlength : ids.length ≤ rows.length) :
    entries (ids.set i none) (rows.set i zero) = Dict.pop (entries ids rows) k := by
  induction ids generalizing rows i with
  | nil => cases hi
  | cons slot ids ih =>
      cases rows with
      | nil => cases hlength
      | cons r rows =>
          have hrows : ids.length ≤ rows.length := Nat.le_of_succ_le_succ hlength
          cases i with
          | zero =>
              obtain rfl : slot = some k := by simpa using hi
              have hnew : k ∉ Dict.keys (entries ids rows) := fun hmem => by
                obtain ⟨j, hj⟩ := List.mem_iff_getElem?.mp ((mem_keys_entries hrows).mp hmem)
                have hzero := honly (j + 1) (by simpa using hj)
                cases hzero
              rw [List.set_cons_zero, List.set_cons_zero, entries_cons_none, entries_cons_some,
                Dict.pop_cons_self, Dict.pop_of_not_mem hnew]
          | succ i =>
              have hrest : entries (ids.set i none) (rows.set i zero) =
                  Dict.pop (entries ids rows) k :=
                ih (by simpa using hi)
                  (fun j hj => Nat.succ.inj (honly (j + 1) (by simpa using hj)))
                  hrows
              cases slot with
              | none =>
                  rw [List.set_cons_succ, List.set_cons_succ, entries_cons_none,
                    entries_cons_none, hrest]
              | some k' =>
                  have hne : k' ≠ k := fun heq => by
                    have hzero := honly 0 (by simp [heq])
                    cases hzero
                  rw [List.set_cons_succ, List.set_cons_succ, entries_cons_some,
                    entries_cons_some, Dict.pop_cons_of_ne hne, hrest]

end Library.Slots

import TrwMemory.Library.OrderedDict

/-!
Dictionaries whose order is that of the last use, with the oldest key first. Of a dictionary
that is kept to a size only the newest part stays; it does not matter whether the oldest pair
goes with each use or all surplus goes at the end.
-/
namespace Library.Dict

universe u v

variable {κ : Type u} {α : Type v}

/-- The last `n` keys to be used. -/
def newest (n : Nat) (d : List (κ × α)) : List (κ × α) := d.drop (d.length - n)

theorem newest_of_length_le {n : Nat} {d : List (κ × α)} (h : d.length ≤ n) : newest n d = d := by
  rw [newest, Nat.sub_eq_zero_of_le h, List.drop_zero]

theorem length_newest (n : Nat) (d : List (κ × α)) : (newest n d).length = min n d.length := by
  rw [newest, List.length_drop]
  omega

theorem newest_append_of_le {n : Nat} (front : List (κ × α)) {d : List (κ × α)}
    (h : n ≤ d.length) : newest n (front ++ d) = newest n d := by
  rw [newest, newest, List.length_append, Nat.add_sub_assoc h, List.drop_append,
    List.drop_eq_nil_of_le (Nat.le_add_right _ _), List.nil_append, Nat.add_sub_cancel_left]

theorem nodup_newest {d : List (κ × α)} (hd : (keys d).Nodup) (n : Nat) :
    (keys (newest n d)).Nodup :=
  ((List.drop_sublist _ _).map Prod.fst).nodup hd

/-- The newest part has the keys that the part before it lacks. -/
theorem mem_keys_take {d : List (κ × α)} (hd : (keys d).Nodup) (n : Nat) (k : κ) :
    k ∈ keys (d.take (d.length - n)) ↔ k ∈ keys d ∧ k ∉ keys (newest n d) := by
  have hsplit : keys d = keys (d.take (d.length - n)) ++ keys (newest n d) := by
    rw [keys, keys, keys, ← List.map_append, newest, List.take_append_drop]
  rw [hsplit] at hd ⊢
  rw [List.mem_append]
  constructor
  · exact fun h => ⟨.inl h, fun hlast => (List.nodup_append.mp hd).2.2 k h k hlast rfl⟩
  · exact fun h => h.1.resolve_right h.2

theorem keys_newest_subset {d : List (κ × α)} {n : Nat} {k : κ} (h : k ∈ keys (newest n d)) :
    k ∈ keys d := ((List.drop_sublist _ _).map Prod.fst).subset h

variable [DecidableEq κ]

/-- `d.move_to_end(k)`, of a key that is there. -/
def moveToEnd (d : List (κ × α)) (k : κ) : List (κ × α) :=
  match get d k with
  | none => d
  | some a => pop d k ++ [(k, a)]

/-- The last use of `k` is now, and its value is `a`. -/
def touch (d : List (κ × α)) (k : κ) (a : α) : List (κ × α) := pop d k ++ [(k, a)]

def touchAll (d items : List (κ × α)) : List (κ × α) :=
  items.foldl (fun d item => touch d item.1 item.2) d

theorem touchAll_cons (d : List (κ × α)) (item : κ × α) (items : List (κ × α)) :
    touchAll d (item :: items) = touchAll (touch d item.1 item.2) items := rfl

theorem touchAll_concat (d items : List (κ × α)) (item : κ × α) :
    touchAll d (items ++ [item]) = touch (touchAll d items) item.1 item.2 := by
  rw [touchAll, List.foldl_append]
  rfl

theorem pop_append (d d' : List (κ × α)) (k : κ) : pop (d ++ d') k = pop d k ++ pop d' k :=
  List.filter_append d d'

theorem get_append (d d' : List (κ × α)) (k : κ) : get (d ++ d') k = (get d k).or (get d' k) := by
  induction d with
  | nil => rfl
  | cons pair d ih =>
      obtain ⟨k', a⟩ := pair
      rw [List.cons_append, get, get, ih]
      split <;> rfl

theorem pop_assign (d : List (κ × α)) (k : κ) (a : α) : pop (assign d k a) k = pop d k := by
  induction d with
  | nil => exact pop_cons_self [] k a
  | cons pair d ih =>
      obtain ⟨k', b⟩ := pair
      rw [assign]
      split
      · rename_i h
        subst h
        rw [pop_cons_self, pop_cons_self]
      · rename_i h
        rw [pop_cons_of_ne h, pop_cons_of_ne h, ih]

theorem moveToEnd_assign (d : List (κ × α)) (k : κ) (a : α) :
    moveToEnd (assign d k a) k = touch d k a := by
  rw [moveToEnd, get_assign, if_pos rfl]
  dsimp only
  rw [pop_assign, touch]

theorem assign_moveToEnd {d : List (κ × α)} {k : κ} (h : k ∈ keys d) (a : α) :
    assign (moveToEnd d k) k a = touch d k a := by
  have hnew : k ∉ keys (pop d k) := fun hmem => (mem_keys_pop.mp hmem).1 rfl
  have hskip : ∀ (front : List (κ × α)) (b : α), k ∉ keys front →
      assign (front ++ [(k, b)]) k a = front ++ [(k, a)] := by
    intro front b hfront
    induction front with
    | nil => exact if_pos rfl
    | cons pair front ih =>
        obtain ⟨k', c⟩ := pair
        obtain ⟨hne, hfront⟩ := not_or.mp (List.mem_cons.not.mp hfront)
        rw [List.cons_append, assign, if_neg (Ne.symm hne), ih hfront, List.cons_append]
  rw [moveToEnd]
  cases hget : get d k with
  | none => exact absurd h (get_eq_none.mp hget)
  | some b => exact hskip (pop d k) b hnew

theorem mem_keys_touch {d : List (κ × α)} {k k' : κ} {a : α} :
    k' ∈ keys (touch d k a) ↔ k' = k ∨ k' ∈ keys d := by
  rw [touch, keys, List.map_append, List.mem_append, List.map_singleton, List.mem_singleton]
  change k' ∈ keys (pop d k) ∨ k' = k ↔ _
  rw [mem_keys_pop]
  by_cases hk : k' = k
  · simp [hk]
  · simp [hk]

theorem nodup_touch {d : List (κ × α)} (hd : (keys d).Nodup) (k : κ) (a : α) :
    (keys (touch d k a)).Nodup := by
  rw [touch, keys, List.map_append, List.nodup_append]
  refine ⟨nodup_pop hd k, List.nodup_singleton k, fun k' hk' last hlast heq => ?_⟩
  obtain rfl := List.mem_singleton.mp hlast
  exact (mem_keys_pop.mp hk').1 heq

theorem nodup_touchAll {d : List (κ × α)} (hd : (keys d).Nodup) (items : List (κ × α)) :
    (keys (touchAll d items)).Nodup := by
  induction items generalizing d with
  | nil => exact hd
  | cons item items ih => exact ih (nodup_touch hd _ _)

theorem get_touch (d : List (κ × α)) (k : κ) (a : α) (k' : κ) :
    get (touch d k a) k' = if k = k' then some a else get d k' := by
  rw [touch, get_append, get_pop]
  split
  · rename_i h
    subst h
    exact if_pos rfl
  · rename_i h
    rw [get, if_neg h]
    cases get d k' <;> rfl

theorem get_newest {d : List (κ × α)} (hd : (keys d).Nodup) {n : Nat} {k : κ}
    (h : k ∈ keys (newest n d)) : get (newest n d) k = get d k := by
  cases hget : get (newest n d) k with
  | none => exact absurd h (get_eq_none.mp hget)
  | some a => exact (get_of_mem hd (List.mem_of_mem_drop (mem_of_get hget))).symm

theorem get_touchAll_of_not_mem {items : List (κ × α)} {k : κ} (h : k ∉ keys items)
    (d : List (κ × α)) : get (touchAll d items) k = get d k := by
  induction items generalizing d with
  | nil => rfl
  | cons item items ih =>
      obtain ⟨hne, hitems⟩ := not_or.mp (List.mem_cons.not.mp h)
      rw [touchAll_cons, ih hitems, get_touch, if_neg (Ne.symm hne)]

/-- The value of a key among the items is that of its last item. -/
theorem get_touchAll_of_mem {items : List (κ × α)} {k : κ} (h : k ∈ keys items)
    (d : List (κ × α)) : get (touchAll d items) k = get (touchAll [] items) k := by
  induction items generalizing d with
  | nil => cases h
  | cons item items ih =>
      rw [touchAll_cons, touchAll_cons]
      by_cases hlater : k ∈ keys items
      · rw [ih hlater, ih hlater (touch [] _ _)]
      · have hk : item.1 = k := ((List.mem_cons.mp h).resolve_right hlater).symm
        rw [get_touchAll_of_not_mem hlater, get_touchAll_of_not_mem hlater, get_touch, get_touch,
          if_pos hk, if_pos hk]

theorem mem_keys_touchAll {d items : List (κ × α)} {k : κ} :
    k ∈ keys (touchAll d items) ↔ k ∈ keys items ∨ k ∈ keys d := by
  induction items generalizing d with
  | nil => exact (or_iff_right List.not_mem_nil).symm
  | cons item items ih =>
      rw [touchAll_cons, ih, mem_keys_touch]
      simp only [keys, List.map_cons, List.mem_cons]
      tauto

theorem touchAll_append (d first rest : List (κ × α)) :
    touchAll d (first ++ rest) = touchAll (touchAll d first) rest := List.foldl_append

/-- An assigned value and a touched one are the same. -/
theorem get_ofPairs (pairs : List (κ × α)) (k : κ) :
    get (ofPairs pairs) k = get (touchAll [] pairs) k := by
  induction pairs using List.reverseRecOn with
  | nil => rfl
  | append_singleton pairs pair ih =>
      rw [ofPairs, List.foldl_append, touchAll_concat, get_touch, ← ih]
      exact get_assign _ _ _ _

theorem nodup_ofPairs (pairs : List (κ × α)) : (keys (ofPairs pairs)).Nodup := by
  induction pairs using List.reverseRecOn with
  | nil => exact List.nodup_nil
  | append_singleton pairs pair ih =>
      rw [ofPairs, List.foldl_append]
      exact nodup_assign ih _ _

theorem get_touchAll_map {β : Type v} (f : κ → α → β) (items : List (κ × α)) (k : κ) :
    get (touchAll [] (items.map fun item => (item.1, f item.1 item.2))) k =
      (get (touchAll [] items) k).map (f k) := by
  induction items using List.reverseRecOn with
  | nil => rfl
  | append_singleton items item ih =>
      rw [List.map_append, List.map_singleton, touchAll_concat, touchAll_concat, get_touch,
        get_touch, ih]
      split
      · rename_i h
        rw [← h]
        rfl
      · rfl

theorem length_pop_of_mem {d : List (κ × α)} (hd : (keys d).Nodup) {k : κ} (h : k ∈ keys d) :
    (pop d k).length + 1 = d.length := by
  induction d with
  | nil => cases h
  | cons pair d ih =>
      obtain ⟨k', a⟩ := pair
      obtain ⟨hk', hd⟩ := List.nodup_cons.mp hd
      by_cases heq : k' = k
      · subst heq
        rw [pop_cons_self, pop_of_not_mem hk', List.length_cons]
      · have hmem := (List.mem_cons.mp h).resolve_left (Ne.symm heq)
        rw [pop_cons_of_ne heq, List.length_cons, ih hd hmem, List.length_cons]

theorem length_touch_of_mem {d : List (κ × α)} (hd : (keys d).Nodup) {k : κ} (h : k ∈ keys d)
    (a : α) : (touch d k a).length = d.length := by
  rw [touch, List.length_append, List.length_singleton, length_pop_of_mem hd h]

theorem length_touch_of_not_mem {d : List (κ × α)} {k : κ} (h : k ∉ keys d) (a : α) :
    (touch d k a).length = d.length + 1 := by
  rw [touch, pop_of_not_mem h, List.length_append, List.length_singleton]

theorem length_le_touch {d : List (κ × α)} (hd : (keys d).Nodup) (k : κ) (a : α) :
    d.length ≤ (touch d k a).length := by
  by_cases h : k ∈ keys d
  · exact Nat.le_of_eq (length_touch_of_mem hd h a).symm
  · rw [length_touch_of_not_mem h]
    exact Nat.le_succ _

/-- What is not kept does not matter to what is kept after another use. -/
theorem newest_touch {d : List (κ × α)} (hd : (keys d).Nodup) (n : Nat) (k : κ) (a : α) :
    newest n (touch (newest n d) k a) = newest n (touch d k a) := by
  have hlength := length_newest n d
  have hgrows := length_le_touch (nodup_newest hd n) k a
  rcases Nat.le_total d.length n with hshort | hlong
  · rw [newest_of_length_le hshort]
  · have hsplit : touch d k a =
        pop (d.take (d.length - n)) k ++ touch (newest n d) k a := by
      conv_lhs => rw [touch, ← List.take_append_drop (d.length - n) d]
      rw [pop_append, List.append_assoc]
      rfl
    rw [hsplit, newest_append_of_le _ (by omega)]

/-- Dropping keys from the front is dropping their pairs. -/
theorem foldl_pop_take {d : List (κ × α)} (hd : (keys d).Nodup) (m : Nat) :
    ((d.take m).map Prod.fst).foldl pop d = d.drop m := by
  induction d generalizing m with
  | nil => simp
  | cons pair d ih =>
      obtain ⟨k, a⟩ := pair
      obtain ⟨hk, hd⟩ := List.nodup_cons.mp hd
      cases m with
      | zero => rfl
      | succ m =>
          rw [List.take_succ_cons, List.map_cons, List.foldl_cons, pop_cons_self,
            pop_of_not_mem hk, List.drop_succ_cons, ih hd]

end Library.Dict

import Mathlib.Data.List.Induction
import Mathlib.Data.List.Nodup
import Mathlib.Tactic.Tauto

/-!
Dictionaries as an interpreter keeps them: pairs in the order in which their keys were first
assigned. A later assignment to a key changes its value where it stands.
-/
namespace Library.Dict

universe u v

variable {κ : Type u} {α : Type v} [DecidableEq κ]

/-- `d[k] = a`. -/
def assign : List (κ × α) → κ → α → List (κ × α)
  | [], k, a => [(k, a)]
  | (k', b) :: rest, k, a =>
      if k' = k then (k', a) :: rest else (k', b) :: assign rest k a

/-- `d.get(k)`. -/
def get : List (κ × α) → κ → Option α
  | [], _ => none
  | (k', b) :: rest, k => if k' = k then some b else get rest k

/-- `dict(pairs)`. -/
def ofPairs (pairs : List (κ × α)) : List (κ × α) :=
  pairs.foldl (fun d pair => assign d pair.1 pair.2) []

def keys (d : List (κ × α)) : List κ := d.map Prod.fst

theorem get_eq_none {d : List (κ × α)} {k : κ} : get d k = none ↔ k ∉ keys d := by
  induction d with
  | nil => simp [get, keys]
  | cons pair d ih =>
      obtain ⟨k', b⟩ := pair
      by_cases h : k' = k
      · simp [get, keys, h]
      · rw [get, if_neg h, ih]
        simp [keys, Ne.symm h]

theorem mem_of_get {d : List (κ × α)} {k : κ} {a : α} (h : get d k = some a) : (k, a) ∈ d := by
  induction d with
  | nil => cases h
  | cons pair d ih =>
      obtain ⟨k', b⟩ := pair
      rw [get] at h
      split at h
      · rename_i hk
        cases h
        exact hk ▸ List.mem_cons_self
      · exact List.mem_cons_of_mem _ (ih h)

theorem get_of_mem {d : List (κ × α)} (hd : (keys d).Nodup) {k : κ} {a : α} (h : (k, a) ∈ d) :
    get d k = some a := by
  induction d with
  | nil => cases h
  | cons pair d ih =>
      obtain ⟨k', b⟩ := pair
      obtain ⟨hk, hd⟩ := List.nodup_cons.mp hd
      rw [get]
      rcases List.mem_cons.mp h with heq | hmem
      · obtain ⟨rfl, rfl⟩ := Prod.mk.inj heq
        exact if_pos rfl
      · rw [if_neg, ih hd hmem]
        rintro rfl
        have hkey := List.mem_map_of_mem (f := Prod.fst) hmem
        exact hk hkey

theorem assign_of_new {d : List (κ × α)} {k : κ} (h : k ∉ keys d) (a : α) :
    assign d k a = d ++ [(k, a)] := by
  induction d with
  | nil => rfl
  | cons pair d ih =>
      obtain ⟨k', b⟩ := pair
      have hne : k' ≠ k := fun heq => h (heq ▸ List.mem_cons_self)
      rw [assign, if_neg hne, ih fun hmem => h (List.mem_cons_of_mem _ hmem), List.cons_append]

theorem keys_assign_of_mem {d : List (κ × α)} {k : κ} (h : k ∈ keys d) (a : α) :
    keys (assign d k a) = keys d := by
  induction d with
  | nil => cases h
  | cons pair d ih =>
      obtain ⟨k', b⟩ := pair
      rw [assign]
      split
      · rfl
      · rename_i hne
        have hmem : k ∈ keys d := (List.mem_cons.mp h).resolve_left (Ne.symm hne)
        exact congrArg (k' :: ·) (ih hmem)

theorem mem_keys_assign {d : List (κ × α)} {k k' : κ} {a : α} :
    k' ∈ keys (assign d k a) ↔ k' = k ∨ k' ∈ keys d := by
  by_cases h : k ∈ keys d
  · rw [keys_assign_of_mem h]
    exact ⟨.inr, fun hor => hor.elim (fun heq => heq ▸ h) id⟩
  · rw [assign_of_new h, keys, List.map_append, List.mem_append]
    simp only [List.map_cons, List.map_nil, List.mem_singleton]
    exact or_comm

theorem nodup_assign {d : List (κ × α)} (hd : (keys d).Nodup) (k : κ) (a : α) :
    (keys (assign d k a)).Nodup := by
  by_cases h : k ∈ keys d
  · rwa [keys_assign_of_mem h]
  · rw [assign_of_new h, keys, List.map_append]
    refine List.nodup_append.mpr ⟨hd, List.nodup_singleton _, fun b hb c hc heq => h ?_⟩
    rw [heq, List.mem_singleton.mp hc] at hb
    exact hb

theorem get_assign (d : List (κ × α)) (k : κ) (a : α) (k' : κ) :
    get (assign d k a) k' = if k = k' then some a else get d k' := by
  induction d with
  | nil => rfl
  | cons pair d ih =>
      obtain ⟨k₀, b⟩ := pair
      rw [assign]
      split
      · rename_i h
        subst h
        rw [get, get]
        split <;> rfl
      · rename_i h
        rw [get, get, ih]
        split
        · rename_i h'
          rw [if_neg fun heq => h (h'.trans heq.symm)]
        · rfl

/-- Pairs with distinct keys are their own dictionary. -/
theorem ofPairs_of_nodup {pairs : List (κ × α)} (h : (keys pairs).Nodup) :
    ofPairs pairs = pairs := by
  suffices hfold : ∀ d, (keys (d ++ pairs)).Nodup →
      pairs.foldl (fun d pair => assign d pair.1 pair.2) d = d ++ pairs from hfold [] h
  induction pairs with
  | nil => intro d _; rw [List.foldl_nil, List.append_nil]
  | cons pair pairs ih =>
      intro d hd
      have hsplit : d ++ pair :: pairs = (d ++ [pair]) ++ pairs := by simp
      have hnew : pair.1 ∉ keys d := by
        rw [keys, List.map_append, List.nodup_append] at hd
        exact fun hmem => hd.2.2 _ hmem _ (List.mem_map_of_mem List.mem_cons_self) rfl
      rw [List.foldl_cons, assign_of_new hnew, hsplit]
      exact ih (List.nodup_cons.mp h).2 (d ++ [pair]) (hsplit ▸ hd)

theorem mem_of_mem_assign {d : List (κ × α)} {k : κ} {a : α} {pair : κ × α}
    (h : pair ∈ assign d k a) : pair = (k, a) ∨ pair ∈ d := by
  induction d with
  | nil => exact .inl (List.mem_singleton.mp h)
  | cons head d ih =>
      obtain ⟨k', b⟩ := head
      rw [assign] at h
      split at h
      · rename_i hk
        subst hk
        exact (List.mem_cons.mp h).imp id (List.mem_cons_of_mem _)
      · rcases List.mem_cons.mp h with rfl | hmem
        · exact .inr List.mem_cons_self
        · exact (ih hmem).imp id (List.mem_cons_of_mem _)

/-- A dictionary holds no pair it was not made of. -/
theorem mem_of_mem_ofPairs {pairs : List (κ × α)} {pair : κ × α} (h : pair ∈ ofPairs pairs) :
    pair ∈ pairs := by
  suffices hfold : ∀ d, pair ∈ pairs.foldl (fun d pair => assign d pair.1 pair.2) d →
      pair ∈ d ∨ pair ∈ pairs from (hfold [] h).resolve_left List.not_mem_nil
  clear h
  induction pairs with
  | nil => exact fun d hd => .inl hd
  | cons head pairs ih =>
      intro d hd
      rw [List.foldl_cons] at hd
      rcases ih _ hd with hassign | hmem
      · rcases mem_of_mem_assign hassign with rfl | hold
        · exact .inr List.mem_cons_self
        · exact .inl hold
      · exact .inr (List.mem_cons_of_mem _ hmem)

theorem mem_keys_ofPairs {pairs : List (κ × α)} {k : κ} :
    k ∈ keys (ofPairs pairs) ↔ k ∈ keys pairs := by
  suffices hfold : ∀ d, k ∈ keys (pairs.foldl (fun d pair => assign d pair.1 pair.2) d) ↔
      k ∈ keys d ∨ k ∈ keys pairs by
    rw [ofPairs, hfold []]
    exact or_iff_right List.not_mem_nil
  induction pairs with
  | nil => exact fun d => (or_iff_left List.not_mem_nil).symm
  | cons head pairs ih =>
      intro d
      rw [List.foldl_cons, ih, mem_keys_assign]
      simp only [keys, List.map_cons, List.mem_cons]
      tauto

/-- What `d.pop(k, None)` leaves. -/
def pop (d : List (κ × α)) (k : κ) : List (κ × α) := d.filter fun pair => pair.1 ≠ k

theorem pop_cons_self (d : List (κ × α)) (k : κ) (a : α) : pop ((k, a) :: d) k = pop d k :=
  List.filter_cons_of_neg (by simp)

theorem pop_cons_of_ne {k k' : κ} (h : k' ≠ k) (d : List (κ × α)) (a : α) :
    pop ((k', a) :: d) k = (k', a) :: pop d k :=
  List.filter_cons_of_pos (by simpa using h)

theorem pop_of_not_mem {d : List (κ × α)} {k : κ} (h : k ∉ keys d) : pop d k = d := by
  refine List.filter_eq_self.mpr fun pair hpair => decide_eq_true ?_
  rintro rfl
  exact h (List.mem_map_of_mem hpair)

theorem mem_keys_pop {d : List (κ × α)} {k k' : κ} :
    k' ∈ keys (pop d k) ↔ k' ≠ k ∧ k' ∈ keys d := by
  simp only [keys, pop, List.mem_map, List.mem_filter, decide_eq_true_eq]
  constructor
  · rintro ⟨pair, ⟨hpair, hne⟩, rfl⟩
    exact ⟨hne, pair, hpair, rfl⟩
  · rintro ⟨hne, pair, hpair, rfl⟩
    exact ⟨pair, ⟨hpair, hne⟩, rfl⟩

theorem nodup_pop {d : List (κ × α)} (hd : (keys d).Nodup) (k : κ) : (keys (pop d k)).Nodup :=
  (List.filter_sublist.map Prod.fst).nodup hd

theorem get_pop (d : List (κ × α)) (k k' : κ) :
    get (pop d k) k' = if k = k' then none else get d k' := by
  induction d with
  | nil => simp [pop, get]
  | cons pair d ih =>
      obtain ⟨k₀, a⟩ := pair
      by_cases h₀ : k₀ = k
      · subst h₀
        rw [pop_cons_self, ih]
        split
        · rfl
        · rename_i hne
          rw [get, if_neg hne]
      · rw [pop_cons_of_ne h₀, get, get, ih]
        by_cases hk : k₀ = k'
        · rw [if_pos hk, if_pos hk, if_neg fun heq => h₀ (hk.trans heq.symm)]
        · rw [if_neg hk, if_neg hk]

theorem perm_pop {d : List (κ × α)} (hd : (keys d).Nodup) {k : κ} {a : α} (h : get d k = some a) :
    d.Perm ((k, a) :: pop d k) := by
  induction d with
  | nil => cases h
  | cons pair d ih =>
      obtain ⟨k', b⟩ := pair
      obtain ⟨hnot, hd⟩ := List.nodup_cons.mp hd
      rw [get] at h
      split at h
      · rename_i heq
        cases h
        subst heq
        rw [pop_cons_self, pop_of_not_mem hnot]
      · rename_i hne
        rw [pop_cons_of_ne hne]
        exact ((ih hd h).cons _).trans (List.Perm.swap _ _ _)

/-- `d.setdefault(key(a), []).append(a)` for each `a`. -/
def groupBy (key : α → κ) (l : List α) : List (κ × List α) :=
  l.foldl (fun d a => assign d (key a) ((get d (key a)).getD [] ++ [a])) []

theorem groupBy_concat (key : α → κ) (l : List α) (a : α) :
    groupBy key (l ++ [a]) =
      assign (groupBy key l) (key a) ((get (groupBy key l) (key a)).getD [] ++ [a]) := by
  rw [groupBy, List.foldl_append, List.foldl_cons, List.foldl_nil, ← groupBy]

theorem nodup_groupBy (key : α → κ) (l : List α) : (keys (groupBy key l)).Nodup := by
  induction l using List.reverseRecOn with
  | nil => exact List.nodup_nil
  | append_singleton l a ih =>
      rw [groupBy_concat]
      exact nodup_assign ih _ _

theorem getD_groupBy (key : α → κ) (l : List α) (k : κ) :
    (get (groupBy key l) k).getD [] = l.filter fun a => decide (key a = k) := by
  induction l using List.reverseRecOn with
  | nil => rfl
  | append_singleton l a ih =>
      rw [groupBy_concat, get_assign, List.filter_append]
      by_cases h : key a = k
      · subst h
        simp [ih]
      · simp [h, ih]

/-- A group is the elements of its key, in their order. -/
theorem eq_filter_of_mem_groupBy {key : α → κ} {l : List α} {k : κ} {group : List α}
    (h : (k, group) ∈ groupBy key l) : group = l.filter fun a => decide (key a = k) := by
  rw [← getD_groupBy, get_of_mem (nodup_groupBy key l) h, Option.getD_some]

/-- No element stands in two groups, or twice in one. -/
theorem nodup_flatten_groupBy (key : α → κ) {l : List α} (hl : l.Nodup) :
    ((groupBy key l).map Prod.snd).flatten.Nodup := by
  rw [List.nodup_flatten]
  constructor
  · intro group hgroup
    obtain ⟨⟨k, group⟩, hmem, rfl⟩ := List.mem_map.mp hgroup
    rw [eq_filter_of_mem_groupBy hmem]
    exact hl.filter _
  · rw [List.pairwise_map]
    refine (List.pairwise_map.mp (nodup_groupBy key l)).imp_of_mem ?_
    intro g g' hg hg' hne a ha ha'
    rw [eq_filter_of_mem_groupBy (k := g.1) hg] at ha
    rw [eq_filter_of_mem_groupBy (k := g'.1) hg'] at ha'
    have hk := of_decide_eq_true (List.mem_filter.mp ha).2
    exact hne (hk.symm.trans (of_decide_eq_true (List.mem_filter.mp ha').2))

end Library.Dict

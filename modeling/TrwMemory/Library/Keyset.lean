import Mathlib.Data.List.Sort
import Mathlib.Order.Defs.LinearOrder

/-!
Keyset paging over a list sorted by a key. `sortOn` is stable, so filtering and
sorting commute even where keys repeat. `behind k` is what a query that resumes
strictly after `k` can still see; on a strictly sorted list it is the part after
the element with that key, which is what lets pages be put together again.

A feed is scanned round after round: a window takes what follows the cursor, and one that is
short sends the cursor back to the beginning. Whatever the sizes of the windows, what was
scanned is whole rounds and a part of the next.
-/
namespace Library.Keyset

universe u v

variable {α : Type u} {κ : Type v} [LinearOrder κ] (key : α → κ)

def sortOn (xs : List α) : List α := xs.insertionSort fun a b => key a ≤ key b

def behind (k : κ) (xs : List α) : List α := xs.filter fun a => k < key a

/-- Strictly increasing keys: sorted, and no key twice. -/
def StrictlySorted (xs : List α) : Prop := xs.Pairwise fun a b => key a < key b

theorem sortOn_perm (xs : List α) : (sortOn key xs).Perm xs := List.perm_insertionSort _ xs

theorem mem_sortOn {xs : List α} {a : α} : a ∈ sortOn key xs ↔ a ∈ xs :=
  (sortOn_perm key xs).mem_iff

theorem sortOn_sorted (xs : List α) : (sortOn key xs).Pairwise fun a b => key a ≤ key b := by
  have : Std.Total fun a b : α => key a ≤ key b := ⟨fun a b => le_total (key a) (key b)⟩
  have : IsTrans α fun a b => key a ≤ key b := ⟨fun _ _ _ => le_trans⟩
  exact List.pairwise_insertionSort _ xs

private theorem filter_orderedInsert (p : α → Bool) (a : α) (xs : List α)
    (hs : xs.Pairwise fun a b => key a ≤ key b) :
    (xs.orderedInsert (fun a b => key a ≤ key b) a).filter p =
      if p a then (xs.filter p).orderedInsert (fun a b => key a ≤ key b) a else xs.filter p := by
  induction xs with
  | nil => cases hp : p a <;> simp [hp]
  | cons b xs ih =>
      have ih := ih (List.pairwise_cons.mp hs).2
      by_cases hab : key a ≤ key b
      · -- `a` goes first; whatever of `b :: xs` the filter keeps is still above it.
        rw [List.orderedInsert_cons_of_le _ xs hab]
        have hall : ∀ c ∈ (b :: xs).filter p, key a ≤ key c := by
          intro c hc
          rcases List.mem_cons.mp (List.mem_of_mem_filter hc) with rfl | hc
          · exact hab
          · exact hab.trans ((List.pairwise_cons.mp hs).1 c hc)
        have hfirst : ((b :: xs).filter p).orderedInsert (fun a b => key a ≤ key b) a =
            a :: (b :: xs).filter p := by
          cases hf : (b :: xs).filter p with
          | nil => rfl
          | cons c cs =>
              exact List.orderedInsert_cons_of_le _ cs (hall c (hf ▸ List.mem_cons_self))
        cases hp : p a <;> simp [List.filter_cons, hp] at hfirst ⊢
        exact hfirst.symm
      · rw [List.orderedInsert_of_not_le _ xs hab]
        cases hb : p b <;> cases hp : p a <;> simp [hb, hp, ih, hab]

/-- The sort is stable: it does not matter when the filter is applied. -/
theorem filter_sortOn (p : α → Bool) (xs : List α) :
    (sortOn key xs).filter p = sortOn key (xs.filter p) := by
  induction xs with
  | nil => rfl
  | cons a xs ih =>
      have hstep := filter_orderedInsert key p a (sortOn key xs) (sortOn_sorted key xs)
      rw [ih] at hstep
      cases hp : p a
      · simpa [sortOn, hp] using hstep
      · simpa [sortOn, hp] using hstep

theorem map_sortOn {β : Type u} {key' : β → κ} (f : α → β) (hf : ∀ a, key' (f a) = key a)
    (xs : List α) : (sortOn key xs).map f = sortOn key' (xs.map f) :=
  List.map_insertionSort _ _ f xs fun a _ b _ => by rw [hf, hf]

theorem sortOn_strict {xs : List α} (h : (xs.map key).Nodup) :
    StrictlySorted key (sortOn key xs) := by
  have hnodup : ((sortOn key xs).map key).Nodup :=
    ((sortOn_perm key xs).map key).nodup_iff.mpr h
  have hne : (sortOn key xs).Pairwise fun a b => key a ≠ key b := List.pairwise_map.mp hnodup
  exact (sortOn_sorted key xs).imp₂ (fun _ _ hle hne => lt_of_le_of_ne hle hne) hne

/-- Distinct keys leave one sorted order. -/
theorem sortOn_eq_of_perm {xs ys : List α} (hperm : xs.Perm ys) (h : (xs.map key).Nodup) :
    sortOn key xs = sortOn key ys := by
  have hx := sortOn_strict key h
  have hy := sortOn_strict key (((hperm.map key).nodup_iff).mp h)
  have hp : (sortOn key xs).Perm (sortOn key ys) :=
    (sortOn_perm key xs).trans (hperm.trans (sortOn_perm key ys).symm)
  exact hp.eq_of_pairwise (fun a b _ _ hab hba => absurd hab (lt_asymm hba)) hx hy

theorem behind_strict {xs : List α} (k : κ) (h : StrictlySorted key xs) :
    StrictlySorted key (behind key k xs) :=
  h.sublist List.filter_sublist

theorem mem_behind {k : κ} {xs : List α} {a : α} : a ∈ behind key k xs ↔ a ∈ xs ∧ k < key a := by
  simp [behind]

/-- Resuming after an element that was still to be seen. -/
theorem behind_behind {k : κ} {a : α} (xs : List α) (h : k < key a) :
    behind key (key a) (behind key k xs) = behind key (key a) xs := by
  rw [behind, behind, List.filter_filter]
  apply List.filter_congr
  intro b _
  rw [← Bool.decide_and]
  exact decide_eq_decide.mpr ⟨fun hb => hb.1, fun hb => ⟨hb, h.trans hb⟩⟩

/-- Behind the last element of a page is what the page left. -/
theorem behind_take_last {xs : List α} (h : StrictlySorted key xs) {n : Nat} {a : α}
    (hlast : (xs.take n).getLast? = some a) : behind key (key a) xs = xs.drop n := by
  obtain ⟨front, hfront⟩ := List.getLast?_eq_some_iff.mp hlast
  have hsplit : xs = (front ++ [a]) ++ xs.drop n := by
    rw [← hfront, List.take_append_drop]
  have hparts :=
    List.pairwise_append.mp (hsplit ▸ h : StrictlySorted key ((front ++ [a]) ++ xs.drop n))
  have hpage : (front ++ [a]).filter (fun b => decide (key a < key b)) = [] := by
    rw [List.filter_eq_nil_iff]
    intro b hb
    rcases List.mem_append.mp hb with hb | hb
    · have hba : key b < key a :=
        (List.pairwise_append.mp hparts.1).2.2 b hb a (List.mem_singleton_self a)
      simpa using hba.le
    · simp [List.mem_singleton.mp hb]
  have hrest : (xs.drop n).filter (fun b => decide (key a < key b)) = xs.drop n := by
    rw [List.filter_eq_self]
    intro b hb
    simpa using hparts.2.2 a (by simp) b hb
  conv_lhs => rw [behind, hsplit]
  rw [List.filter_append, hpage, hrest, List.nil_append]

/-- Every page that shows an element leaves less to be seen. -/
theorem length_behind_lt {k : κ} {xs : List α} {a : α} (h : a ∈ behind key k xs) :
    (behind key (key a) xs).length < (behind key k xs).length := by
  rw [← behind_behind key xs ((mem_behind key).mp h).2]
  exact List.length_filter_lt_length_iff_exists.mpr ⟨a, h, by simp⟩

section Walk

variable {γ : Type*}

/-- The pages of a reader that passes each page's last element on, until a page is
empty. -/
inductive Walk (page : γ → Option (List α)) (cursorOf : α → γ) : γ → List (List α) → Prop
  | done {c : γ} : page c = some [] → Walk page cursorOf c []
  | more {c : γ} {xs : List α} {last : α} {pages : List (List α)} :
      page c = some xs → xs.getLast? = some last → Walk page cursorOf (cursorOf last) pages →
      Walk page cursorOf c (xs :: pages)

variable {page : γ → Option (List α)} {cursorOf : α → γ} {feed : List α} {n : Nat}

/-- What a page shows and what is behind its last element make up what was behind
the cursor. -/
theorem take_append_behind (hfeed : StrictlySorted key feed) {k : κ} {last : α}
    (hlast : ((behind key k feed).take n).getLast? = some last) :
    (behind key k feed).take n ++ behind key (key last) feed = behind key k feed := by
  have hmem : last ∈ behind key k feed := List.mem_of_mem_take (List.mem_of_getLast? hlast)
  have hdrop := behind_take_last key (behind_strict key k hfeed) hlast
  rw [behind_behind key feed ((mem_behind key).mp hmem).2] at hdrop
  rw [hdrop, List.take_append_drop]

theorem walk_flatten (hfeed : StrictlySorted key feed) (hn : 0 < n)
    (hpage : ∀ a ∈ feed, page (cursorOf a) = some ((behind key (key a) feed).take n))
    {c : γ} {pages : List (List α)} (hwalk : Walk page cursorOf c pages) {k : κ}
    (hstart : page c = some ((behind key k feed).take n)) :
    pages.flatten = behind key k feed := by
  induction hwalk generalizing k with
  | done hempty =>
      have hnone := Option.some.inj (hempty.symm.trans hstart)
      rcases List.take_eq_nil_iff.mp hnone.symm with hzero | hnil
      · omega
      · rw [hnil, List.flatten_nil]
  | more hshown hlast _ ih =>
      obtain rfl := Option.some.inj (hshown.symm.trans hstart)
      have hmem := (mem_behind key).mp (List.mem_of_mem_take (List.mem_of_getLast? hlast))
      rw [List.flatten_cons, ih (hpage _ hmem.1), take_append_behind key hfeed hlast]

theorem exists_walk
    (hpage : ∀ a ∈ feed, page (cursorOf a) = some ((behind key (key a) feed).take n))
    {c : γ} {k : κ} (hstart : page c = some ((behind key k feed).take n)) :
    ∃ pages, Walk page cursorOf c pages := by
  -- on what is left to be seen
  induction hlen : (behind key k feed).length using Nat.strong_induction_on generalizing c k with
  | _ len ih =>
      cases hlast : ((behind key k feed).take n).getLast? with
      | none =>
          rw [List.getLast?_eq_none_iff.mp hlast] at hstart
          exact ⟨[], .done hstart⟩
      | some last =>
          have hmem : last ∈ behind key k feed :=
            List.mem_of_mem_take (List.mem_of_getLast? hlast)
          obtain ⟨pages, hpages⟩ := ih _ (hlen ▸ length_behind_lt key hmem)
            (hpage last ((mem_behind key).mp hmem).1) rfl
          exact ⟨_, .more hstart hlast hpages⟩

end Walk

section Cycle

variable (feed : List α)

/-- What the round has left. -/
def remaining : Option κ → List α
  | none => feed
  | some k => behind key k feed

def window (n : Nat) (cursor : Option κ) : List α := (remaining key feed cursor).take n

/-- After the last element that was shown; a short window was the last of its round. -/
def nextCursor (n : Nat) (shown : List α) : Option κ :=
  if shown.length < n then none else shown.getLast?.map key

/-- Whole rounds, and the part of a round that `rest` is missing from. -/
def Rounds (scanned rest : List α) : Prop :=
  ∃ k done, scanned = (List.replicate k feed).flatten ++ done ∧ done ++ rest = feed

variable {key feed}

theorem rounds_nil : Rounds feed [] feed := ⟨0, [], rfl, rfl⟩

/-- Another window. -/
theorem rounds_window (hfeed : StrictlySorted key feed) {n : Nat} (hn : 0 < n)
    {cursor : Option κ} {scanned : List α}
    (h : Rounds feed scanned (remaining key feed cursor)) :
    Rounds feed (scanned ++ window key feed n cursor)
      (remaining key feed (nextCursor key n (window key feed n cursor))) := by
  obtain ⟨k, done, hscanned, hsplit⟩ := h
  rw [nextCursor, window]
  generalize remaining key feed cursor = rest at hsplit ⊢
  split
  · rename_i hshort
    have hall : rest.take n = rest := List.take_of_length_le (by
      rw [List.length_take] at hshort
      omega)
    refine ⟨k + 1, [], ?_, rfl⟩
    rw [hall, hscanned, List.append_assoc, hsplit, List.replicate_succ', List.flatten_append,
      List.flatten_singleton, List.append_nil]
  · rename_i hfull
    have hne : rest.take n ≠ [] := by
      intro hnil
      rw [hnil] at hfull
      exact hfull hn
    have htake : feed.take (done.length + n) = done ++ rest.take n := by
      rw [← hsplit, List.take_length_add_append]
    have hlast : (feed.take (done.length + n)).getLast? = some ((rest.take n).getLast hne) := by
      rw [htake, List.getLast?_append_of_ne_nil _ hne, List.getLast?_eq_some_getLast hne]
    refine ⟨k, done ++ rest.take n, ?_, ?_⟩
    · rw [hscanned, List.append_assoc]
    · rw [List.getLast?_eq_some_getLast hne, Option.map_some, remaining,
        behind_take_last key hfeed hlast, ← htake, List.take_append_drop]

end Cycle

end Library.Keyset

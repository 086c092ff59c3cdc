import Mathlib.Data.List.Basic
import Mathlib.Data.List.Chain
import Mathlib.Data.List.Flatten
import Mathlib.Data.List.Sort

/-!
Stable sorts by a key. A list sorted by a key is determined by its classes, the entries of one
key in the order in which they stand; a stable sort leaves every class as it is. So a filter
commutes with the sort, and two sorts of the same entries agree up to a cut exactly when each
class does, as far as it lies before the cut.

The runs of a list whose entries may have scores: an entry without a score stands alone, and a
scored entry takes in the scored entries after it as long as they are tied with it. The tie need
be no equivalence; a run is told by its first entry.
-/
namespace Library

universe u v

variable {α : Type u} {κ : Type v} [LinearOrder κ]

/-- Smaller keys come first, equal keys keep their order. -/
def sortBy (key : α → κ) (l : List α) : List α := l.insertionSort fun a b => key a ≤ key b

/-- Larger keys come first, equal keys keep their order. -/
def sortDesc (key : α → κ) (l : List α) : List α :=
  sortBy (fun a => OrderDual.toDual (key a)) l

/-- The entries of one key, in their order. -/
def classOf (key : α → κ) (s : κ) (l : List α) : List α := l.filter fun a => decide (key a = s)

section

variable {key : α → κ}

theorem classOf_cons_self (a : α) (l : List α) :
    classOf key (key a) (a :: l) = a :: classOf key (key a) l :=
  List.filter_cons_of_pos (decide_eq_true rfl)

theorem classOf_cons_ne {a : α} {s : κ} (h : key a ≠ s) (l : List α) :
    classOf key s (a :: l) = classOf key s l :=
  List.filter_cons_of_neg fun hkey => h (of_decide_eq_true hkey)

theorem mem_classOf {a : α} {s : κ} {l : List α} : a ∈ classOf key s l ↔ a ∈ l ∧ key a = s := by
  rw [classOf, List.mem_filter, decide_eq_true_eq]

theorem sortBy_perm (key : α → κ) (l : List α) : (sortBy key l).Perm l :=
  List.perm_insertionSort _ l

theorem mem_sortBy {a : α} {l : List α} : a ∈ sortBy key l ↔ a ∈ l := (sortBy_perm key l).mem_iff

theorem sortBy_sorted (key : α → κ) (l : List α) :
    (sortBy key l).Pairwise fun a b => key a ≤ key b := by
  have : Std.Total fun a b : α => key a ≤ key b := ⟨fun a b => le_total (key a) (key b)⟩
  have : IsTrans α fun a b => key a ≤ key b := ⟨fun _ _ _ => le_trans⟩
  exact List.pairwise_insertionSort _ l

/-- The sort is stable. -/
theorem classOf_sortBy (s : κ) (l : List α) : classOf key s (sortBy key l) = classOf key s l := by
  have : Std.Total fun a b : α => key a ≤ key b := ⟨fun a b => le_total (key a) (key b)⟩
  have : IsTrans α fun a b => key a ≤ key b := ⟨fun _ _ _ => le_trans⟩
  have hclass : (classOf key s l).Pairwise fun a b => key a ≤ key b :=
    List.Pairwise.imp_of_mem
      (fun ha hb _ => ((mem_classOf.mp ha).2.trans (mem_classOf.mp hb).2.symm).le)
      (List.pairwise_of_forall (R := fun _ _ => True) fun _ _ => trivial)
  have hsub : (classOf key s l).Sublist (sortBy key l) :=
    List.sublist_insertionSort hclass List.filter_sublist
  have hfilter : (classOf key s l).Sublist (classOf key s (sortBy key l)) := by
    simpa only [classOf, List.filter_filter, Bool.and_self] using
      hsub.filter fun a => decide (key a = s)
  exact (hfilter.eq_of_length ((sortBy_perm key l).filter _).length_eq.symm).symm

/-- A sorted list is determined by its classes. -/
theorem eq_of_classes {l l' : List α} (h : l.Pairwise fun a b => key a ≤ key b)
    (h' : l'.Pairwise fun a b => key a ≤ key b)
    (hclass : ∀ s, classOf key s l = classOf key s l') : l = l' := by
  induction l generalizing l' with
  | nil =>
      cases l' with
      | nil => rfl
      | cons b l' =>
          have hb := hclass (key b)
          rw [classOf_cons_self] at hb
          cases hb
  | cons a l ih =>
      cases l' with
      | nil =>
          have ha := hclass (key a)
          rw [classOf_cons_self] at ha
          cases ha
      | cons b l' =>
          obtain ⟨hle, hl⟩ := List.pairwise_cons.mp h
          obtain ⟨hle', hl'⟩ := List.pairwise_cons.mp h'
          have hkey : key a = key b := by
            have ha : a ∈ classOf key (key a) (b :: l') := by
              rw [← hclass, classOf_cons_self]
              exact List.mem_cons_self
            have hb : b ∈ classOf key (key b) (a :: l) := by
              rw [hclass, classOf_cons_self]
              exact List.mem_cons_self
            refine le_antisymm ?_ ?_
            · rcases List.mem_cons.mp (mem_classOf.mp hb).1 with rfl | hmem
              · exact le_rfl
              · exact hle b hmem
            · rcases List.mem_cons.mp (mem_classOf.mp ha).1 with rfl | hmem
              · exact le_rfl
              · exact hle' a hmem
          have hhead := hclass (key a)
          rw [classOf_cons_self, hkey, classOf_cons_self] at hhead
          obtain ⟨rfl, -⟩ := List.cons.inj hhead
          have htail : l = l' := by
            refine ih hl hl' fun s => ?_
            have hs := hclass s
            by_cases hsa : key a = s
            · subst hsa
              rw [classOf_cons_self, classOf_cons_self] at hs
              exact (List.cons.inj hs).2
            · rwa [classOf_cons_ne hsa, classOf_cons_ne hsa] at hs
          rw [htail]

/-- The stable sort is the one sorted list with the same classes. -/
theorem sortBy_unique {l l' : List α} (h : l'.Pairwise fun a b => key a ≤ key b)
    (hclass : ∀ s, classOf key s l' = classOf key s l) : sortBy key l = l' :=
  eq_of_classes (sortBy_sorted key l) h fun s => by rw [classOf_sortBy, hclass]

theorem sortBy_of_sorted {l : List α} (h : l.Pairwise fun a b => key a ≤ key b) :
    sortBy key l = l := sortBy_unique h fun _ => rfl

theorem classOf_filter (s : κ) (p : α → Bool) (l : List α) :
    classOf key s (l.filter p) = (classOf key s l).filter p := by
  rw [classOf, classOf, List.filter_filter, List.filter_filter]
  exact List.filter_congr fun a _ => Bool.and_comm _ _

theorem filter_sortBy (p : α → Bool) (l : List α) :
    (sortBy key l).filter p = sortBy key (l.filter p) := by
  refine (sortBy_unique ((sortBy_sorted key l).filter p) fun s => ?_).symm
  rw [classOf_filter, classOf_sortBy, classOf_filter]

/-- Of a sorted list, a class lies before a cut as far as the smaller keys leave room. -/
theorem classOf_take {l : List α} (h : l.Pairwise fun a b => key a ≤ key b) (s : κ) (n : Nat) :
    classOf key s (l.take n) =
      (classOf key s l).take (n - l.countP fun a => decide (key a < s)) := by
  induction l generalizing n with
  | nil => simp [classOf]
  | cons a l ih =>
      obtain ⟨hle, h⟩ := List.pairwise_cons.mp h
      cases n with
      | zero => simp [classOf]
      | succ n =>
          rw [List.take_succ_cons]
          rcases lt_trichotomy (key a) s with hlt | rfl | hgt
          · rw [classOf_cons_ne hlt.ne, classOf_cons_ne hlt.ne, ih h,
              List.countP_cons_of_pos (p := fun b => decide (key b < s)) (decide_eq_true hlt),
              Nat.add_sub_add_right]
          · have hzero : (l.countP fun b => decide (key b < key a)) = 0 :=
              List.countP_eq_zero.mpr fun b hb hb' =>
                absurd (of_decide_eq_true hb') (not_lt.mpr (hle b hb))
            rw [classOf_cons_self, classOf_cons_self, ih h,
              List.countP_cons_of_neg (p := fun b => decide (key b < key a))
                (fun hself => lt_irrefl _ (of_decide_eq_true hself)),
              hzero, Nat.sub_zero, Nat.sub_zero, List.take_succ_cons]
          · have hnil : ∀ l' : List α, (∀ b ∈ l', b ∈ a :: l) → classOf key s l' = [] := by
              refine fun l' hsub => List.filter_eq_nil_iff.mpr fun b hb hkey => ?_
              rcases List.mem_cons.mp (hsub b hb) with rfl | hmem
              · exact hgt.ne' (of_decide_eq_true hkey)
              · exact absurd (of_decide_eq_true hkey) (hgt.trans_le (hle b hmem)).ne'
            rw [hnil (a :: l.take n) fun b hb => ?_, hnil (a :: l) fun b hb => hb, List.take_nil]
            rcases List.mem_cons.mp hb with rfl | hmem
            · exact List.mem_cons_self
            · exact List.mem_cons_of_mem _ (List.mem_of_mem_take hmem)

/-- Two sorts of the same entries agree up to a cut when each class does, as far as it lies
before the cut. -/
theorem take_sortBy_eq_iff {l l' : List α} (h : l.Perm l') (n : Nat) :
    (sortBy key l).take n = (sortBy key l').take n ↔
      ∀ s, (classOf key s l).take (n - l.countP fun a => decide (key a < s)) =
        (classOf key s l').take (n - l.countP fun a => decide (key a < s)) := by
  have hclass : ∀ (m : List α) s, classOf key s ((sortBy key m).take n) =
      (classOf key s m).take (n - m.countP fun a => decide (key a < s)) := fun m s => by
    rw [classOf_take (sortBy_sorted key m), classOf_sortBy, (sortBy_perm key m).countP_eq]
  have hcount : ∀ s, (l'.countP fun a => decide (key a < s)) =
      l.countP fun a => decide (key a < s) := fun s => (h.countP_eq _).symm
  constructor
  · intro heq s
    rw [← hclass l s, heq, hclass l' s, hcount]
  · intro heq
    refine eq_of_classes ((sortBy_sorted key l).sublist (List.take_sublist _ _))
      ((sortBy_sorted key l').sublist (List.take_sublist _ _)) fun s => ?_
    rw [hclass, hclass, hcount, heq]

theorem tail_dropWhile_ne [DecidableEq α] {before after : List α} {a : α} (h : a ∉ before) :
    ((before ++ a :: after).dropWhile (· ≠ a)).tail = after := by
  induction before with
  | nil => rw [List.nil_append, List.dropWhile_cons_of_neg (by simp), List.tail_cons]
  | cons b before ih =>
      obtain ⟨hne, hmem⟩ := List.ne_and_not_mem_of_not_mem_cons h
      rw [List.cons_append, List.dropWhile_cons_of_pos (by simpa using Ne.symm hne), ih hmem]

/-- What a stable sort puts after an entry: the larger keys, and the later entries of its own. -/
theorem length_after_sortBy [DecidableEq α] {l before after : List α} {a : α} (hl : l.Nodup)
    (h : sortBy key l = before ++ a :: after) :
    after.length = l.countP (fun b => key a < key b) +
      ((l.dropWhile (· ≠ a)).tail).countP (fun b => key b = key a) := by
  have hperm : (before ++ a :: after).Perm l := h ▸ sortBy_perm key l
  have hsorted : (before ++ a :: after).Pairwise fun b c => key b ≤ key c :=
    h ▸ sortBy_sorted key l
  have hnodup := hperm.nodup_iff.mpr hl
  obtain ⟨first, last, hsplit⟩ :=
    List.append_of_mem (hperm.mem_iff.mp (by simp : a ∈ before ++ a :: after))
  obtain ⟨-, hrest, hapart⟩ := List.nodup_append.mp hnodup
  have hbefore : a ∉ before := fun hmem => hapart a hmem a List.mem_cons_self rfl
  have hafter : a ∉ after := (List.nodup_cons.mp hrest).1
  obtain ⟨-, hback, hfront⟩ := List.nodup_append.mp (hsplit ▸ hl)
  have hfirst : a ∉ first := fun hmem => hfront a hmem a List.mem_cons_self rfl
  have hlast : a ∉ last := (List.nodup_cons.mp hback).1
  have hlarger : l.countP (fun b => decide (key a < key b)) =
      after.countP fun b => decide (key a < key b) := by
    have hnone : before.countP (fun b => decide (key a < key b)) = 0 :=
      List.countP_eq_zero.mpr fun b hb => by
        simpa using (List.pairwise_append.mp hsorted).2.2 b hb a List.mem_cons_self
    rw [← hperm.countP_eq, List.countP_append, List.countP_cons_of_neg (by simp), hnone,
      Nat.zero_add]
  have hclass : classOf key (key a) last = classOf key (key a) after := by
    have hstable : classOf key (key a) (before ++ a :: after) =
        classOf key (key a) (first ++ a :: last) := by
      rw [← h, ← hsplit, classOf_sortBy]
    have hsplits : ∀ front back : List α, classOf key (key a) (front ++ a :: back) =
        classOf key (key a) front ++ a :: classOf key (key a) back := fun front back =>
      (List.filter_append _ _).trans (congrArg _ (classOf_cons_self a back))
    rw [hsplits, hsplits] at hstable
    have hmem : ∀ {rest : List α}, a ∉ rest → a ∉ classOf key (key a) rest :=
      fun hnot hmem => hnot (mem_classOf.mp hmem).1
    exact ((List.append_cons_inj_of_notMem (hmem hfirst) (hmem hlast)).mp hstable.symm).2.2
  have hlater : ((l.dropWhile (· ≠ a)).tail).countP (fun b => decide (key b = key a)) =
      after.countP fun b => decide (key b = key a) := by
    rw [hsplit, tail_dropWhile_ne hfirst, List.countP_eq_length_filter,
      List.countP_eq_length_filter]
    exact congrArg List.length hclass
  have hnot : after.countP (fun b => decide (key a < key b)) =
      after.countP fun b => !decide (key b = key a) := by
    refine List.countP_congr fun b hb => ?_
    have hle := (List.pairwise_cons.mp (List.pairwise_append.mp hsorted).2.1).1 b hb
    simp only [decide_eq_true_eq, Bool.not_eq_true', decide_eq_false_iff_not]
    exact ⟨fun hlt heq => hlt.ne' heq, fun hne => lt_of_le_of_ne hle (Ne.symm hne)⟩
  rw [hlarger, hlater, hnot, List.length_eq_countP_add_countP fun b => decide (key b = key a),
    Nat.add_comm]
  simp

end

section Desc

variable {key : α → κ}

theorem sortDesc_perm (key : α → κ) (l : List α) : (sortDesc key l).Perm l := sortBy_perm _ l

theorem filter_sortDesc (p : α → Bool) (l : List α) :
    (sortDesc key l).filter p = sortDesc key (l.filter p) := filter_sortBy p l

theorem sortDesc_of_sorted {l : List α} (h : l.Pairwise fun a b => key b ≤ key a) :
    sortDesc key l = l :=
  @sortBy_of_sorted _ _ _ (fun a => OrderDual.toDual (key a)) _ h

theorem take_sortDesc_eq_iff {l l' : List α} (h : l.Perm l') (n : Nat) :
    (sortDesc key l).take n = (sortDesc key l').take n ↔
      ∀ s, (classOf key s l).take (n - l.countP fun a => decide (s < key a)) =
        (classOf key s l').take (n - l.countP fun a => decide (s < key a)) :=
  @take_sortBy_eq_iff _ _ _ (fun a => OrderDual.toDual (key a)) _ _ h n

end Desc

variable {S : Type v}

def headScore (score : α → Option S) (run : List α) : Option S := run.head?.bind score

section

variable (tied : S → S → Prop) (score : α → Option S)

/-- An unscored entry, or scored entries that are tied with the first. -/
def IsRun (run : List α) : Prop :=
  (∃ e, run = [e] ∧ score e = none) ∨
    ∃ e rest s, run = e :: rest ∧ score e = some s ∧ ∀ a ∈ rest, ∃ s' ∈ score a, tied s' s

/-- Two runs in a row are not one. -/
def Apart (run next : List α) : Prop :=
  ∀ s ∈ headScore score run, ∀ s' ∈ headScore score next, ¬ tied s' s

structure TieRuns (l : List α) (runs : List (List α)) : Prop where
  covers : runs.flatten = l
  isRun : ∀ run ∈ runs, IsRun tied score run
  apart : runs.IsChain (Apart tied score)

end

variable {tied : S → S → Prop} {score : α → Option S} {l : List α} {runs : List (List α)}

theorem TieRuns.nil : TieRuns tied score [] [] where
  covers := rfl
  isRun := fun _ h => nomatch h
  apart := List.isChain_nil

theorem isRun_singleton (e : α) : IsRun tied score [e] := by
  cases h : score e with
  | none => exact .inl ⟨e, rfl, h⟩
  | some s => exact .inr ⟨e, [], s, rfl, h, fun _ ha => nomatch ha⟩

/-- An entry that is not tied with the last run begins one. -/
theorem TieRuns.begin (h : TieRuns tied score l runs) {e : α}
    (hapart : ∀ run ∈ runs.getLast?, Apart tied score run [e]) :
    TieRuns tied score (l ++ [e]) (runs ++ [[e]]) where
  covers := by rw [List.flatten_append, h.covers, List.flatten_singleton]
  isRun := fun run hrun => by
    rcases List.mem_append.mp hrun with hrun | hrun
    · exact h.isRun run hrun
    · rw [List.mem_singleton.mp hrun]
      exact isRun_singleton e
  apart := by
    refine List.isChain_append.mpr ⟨h.apart, List.isChain_singleton _,
      fun run hrun next hnext => ?_⟩
    obtain rfl : [e] = next := by simpa using hnext
    exact hapart run hrun

/-- An entry that is tied with the last run's first is taken in. -/
theorem TieRuns.extend {run : List α} (h : TieRuns tied score l (runs ++ [run])) {e : α} {s s' : S}
    (hhead : headScore score run = some s) (he : score e = some s') (htied : tied s' s) :
    TieRuns tied score (l ++ [e]) (runs ++ [run ++ [e]]) := by
  have hrun : IsRun tied score run := h.isRun run (by simp)
  have hlonger : IsRun tied score (run ++ [e]) := by
    rcases hrun with ⟨a, rfl, hnone⟩ | ⟨a, rest, s₀, rfl, ha, hrest⟩
    · rw [headScore, List.head?_cons, Option.bind_some, hnone] at hhead
      cases hhead
    · obtain rfl : s₀ = s := by simpa [headScore, ha] using hhead
      refine .inr ⟨a, rest ++ [e], s₀, rfl, ha, fun b hb => ?_⟩
      rcases List.mem_append.mp hb with hb | hb
      · exact hrest b hb
      · rw [List.mem_singleton.mp hb]
        exact ⟨s', he, htied⟩
  have hsame : headScore score (run ++ [e]) = headScore score run := by
    rcases hrun with ⟨a, rfl, -⟩ | ⟨a, rest, _, rfl, -⟩ <;> rfl
  refine ⟨?_, fun r hr => ?_, ?_⟩
  · rw [← h.covers]
    simp
  · rcases List.mem_append.mp hr with hr | hr
    · exact h.isRun r (List.mem_append_left _ hr)
    · rw [List.mem_singleton.mp hr]
      exact hlonger
  · obtain ⟨hleft, -, hlast⟩ := List.isChain_append.mp h.apart
    refine List.isChain_append.mpr ⟨hleft, List.isChain_singleton _, fun r hr next hnext => ?_⟩
    obtain rfl : run ++ [e] = next := by simpa using hnext
    rw [Apart, hsame]
    exact hlast r hr run (by simp)

end Library

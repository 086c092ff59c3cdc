import Mathlib.Data.List.Nodup
import TrwMemory.Library.Verdicts

/-!
A quota filled from groups in the order of their priority. Each group is asked for what is still
missing, and the filling stops once the quota is met; a group that gives less than it was asked
for has no more.
-/
namespace Library

variable {α γ ε : Type}

/-- The loop, from entries that were taken before. -/
def fill (fetch : γ → Nat → Except ε (List α)) (limit : Nat) :
    List γ → List α → Except ε (List α)
  | [], entries => .ok entries
  | g :: groups, entries => do
      let more ← fetch g (limit - entries.length)
      if limit ≤ (entries ++ more).length then .ok (entries ++ more)
      else fill fetch limit groups (entries ++ more)

/-- A fetch gives entries of the group it is asked for, and all of them if there are too few. -/
structure Fetches (candidates : List α) (admits : γ → α → Prop)
    (fetch : γ → Nat → Except ε (List α)) (groups : List γ) : Prop where
  nodup : ∀ g ∈ groups, ∀ k entries, fetch g k = .ok entries → entries.Nodup
  length_le : ∀ g ∈ groups, ∀ k entries, fetch g k = .ok entries → entries.length ≤ k
  sound : ∀ g ∈ groups, ∀ k entries, fetch g k = .ok entries →
    ∀ e ∈ entries, e ∈ candidates ∧ admits g e
  full : ∀ g ∈ groups, ∀ k entries, fetch g k = .ok entries → entries.length < k →
    ∀ e ∈ candidates, admits g e → e ∈ entries

/-- What a filled quota holds: of the groups before one that was taken from, everything. -/
structure Filled (candidates : List α) (admits : γ → α → Prop) (groups : List γ) (limit : Nat)
    (entries : List α) : Prop where
  length_le : entries.length ≤ limit
  nodup : entries.Nodup
  admitted : ∀ e ∈ entries, e ∈ candidates ∧ ∃ g ∈ groups, admits g e
  priority : ∀ g g', [g, g'].Sublist groups → ∀ e ∈ entries, admits g' e →
    ∀ e' ∈ candidates, admits g e' → e' ∈ entries
  complete : entries.length < limit → ∀ g ∈ groups, ∀ e ∈ candidates, admits g e → e ∈ entries

section

variable {candidates : List α} {admits : γ → α → Prop} {fetch : γ → Nat → Except ε (List α)}
  {groups : List γ} {limit : Nat}

/-- The entries after the groups of `done`, which are exhausted. -/
structure Exhausted (candidates : List α) (admits : γ → α → Prop) (limit : Nat) (done : List γ)
    (entries : List α) : Prop where
  length_lt : entries.length < limit
  nodup : entries.Nodup
  admitted : ∀ e ∈ entries, e ∈ candidates ∧ ∃ g ∈ done, admits g e
  complete : ∀ g ∈ done, ∀ e ∈ candidates, admits g e → e ∈ entries

theorem exhausted_nil (hlimit : 0 < limit) : Exhausted candidates admits limit [] [] :=
  ⟨hlimit, List.nodup_nil, fun _ he => (nomatch he), fun _ hg => (nomatch hg)⟩

theorem Exhausted.filled {entries : List α} (h : Exhausted candidates admits limit groups entries) :
    Filled candidates admits groups limit entries where
  length_le := Nat.le_of_lt h.length_lt
  nodup := h.nodup
  admitted := h.admitted
  priority := fun g _ hsub _ _ _ => h.complete g (hsub.subset List.mem_cons_self)
  complete := fun _ => h.complete

/-- What stands before one of the first groups is one of the groups before the last of them. -/
theorem mem_before {done later : List γ} {g g₁ g₂ : γ} (hgroups : (done ++ g :: later).Nodup)
    (hg₂ : g₂ ∈ done ++ [g]) (hsub : [g₁, g₂].Sublist (done ++ g :: later)) : g₁ ∈ done := by
  obtain ⟨l₁, l₂, heq, hl₁, hl₂⟩ := List.sublist_append_iff.mp hsub
  cases l₁ with
  | cons a l₁ =>
      obtain ⟨rfl, -⟩ := List.cons.inj heq
      exact hl₁.subset List.mem_cons_self
  | nil =>
      obtain rfl : [g₁, g₂] = l₂ := heq
      have hlater : g₂ ∈ later := by
        cases hl₂ with
        | cons _ h => exact h.subset (by simp)
        | cons_cons _ h => exact h.subset (by simp)
      obtain ⟨-, hcons, hapart⟩ := List.nodup_append.mp hgroups
      rcases List.mem_append.mp hg₂ with hmem | hmem
      · exact absurd rfl (hapart g₂ hmem g₂ (List.mem_cons_of_mem _ hlater))
      · rw [List.mem_singleton.mp hmem] at hlater
        exact absurd hlater (List.nodup_cons.mp hcons).1

section Step

variable {done later : List γ} {g : γ} {entries more : List α}
  (hfetch : Fetches candidates admits fetch (done ++ g :: later))
  (hgroups : (done ++ g :: later).Nodup)
  (hdisjoint : ∀ g₁ ∈ done ++ g :: later, ∀ g₂ ∈ done ++ g :: later, ∀ e,
    admits g₁ e → admits g₂ e → g₁ = g₂)
  (h : Exhausted candidates admits limit done entries)
  (hmore : fetch g (limit - entries.length) = .ok more)

include hfetch h hmore

theorem admitted_append (e : α) (he : e ∈ entries ++ more) :
    e ∈ candidates ∧ ∃ g' ∈ done ++ [g], admits g' e := by
  rcases List.mem_append.mp he with he | he
  · obtain ⟨hmem, g', hg', hadmits⟩ := h.admitted e he
    exact ⟨hmem, g', List.mem_append_left _ hg', hadmits⟩
  · obtain ⟨hmem, hadmits⟩ := hfetch.sound g (by simp) _ _ hmore e he
    exact ⟨hmem, g, by simp, hadmits⟩

theorem length_append_le : (entries ++ more).length ≤ limit := by
  have hle := hfetch.length_le g (by simp) _ _ hmore
  have hlt := h.length_lt
  rw [List.length_append]
  omega

include hgroups hdisjoint

theorem nodup_append : (entries ++ more).Nodup := by
  refine List.nodup_append.mpr ⟨h.nodup, hfetch.nodup g (by simp) _ _ hmore,
    fun a ha b hb heq => ?_⟩
  subst heq
  obtain ⟨-, g', hg', hadmits⟩ := h.admitted a ha
  obtain ⟨-, hadmits'⟩ := hfetch.sound g (by simp) _ _ hmore a hb
  obtain rfl : g' = g := hdisjoint g' (by simp [hg']) g (by simp) a hadmits hadmits'
  exact (List.nodup_append.mp hgroups).2.2 g' hg' g' List.mem_cons_self rfl

/-- A group that leaves the quota open has no more. -/
theorem exhausted_step (hopen : ¬ limit ≤ (entries ++ more).length) :
    Exhausted candidates admits limit (done ++ [g]) (entries ++ more) where
  length_lt := Nat.lt_of_not_le hopen
  nodup := nodup_append hfetch hgroups hdisjoint h hmore
  admitted := admitted_append hfetch h hmore
  complete := fun g' hg' e he hadmits => by
    rcases List.mem_append.mp hg' with hg' | hg'
    · exact List.mem_append_left _ (h.complete g' hg' e he hadmits)
    · obtain rfl : g' = g := List.mem_singleton.mp hg'
      have hshort : more.length < limit - entries.length := by
        rw [List.length_append] at hopen
        omega
      exact List.mem_append_right _ (hfetch.full g' (by simp) _ _ hmore hshort e he hadmits)

/-- The quota is met: the groups before this one are exhausted, and those after it untouched. -/
theorem filled_step (hfull : limit ≤ (entries ++ more).length) :
    Filled candidates admits (done ++ g :: later) limit (entries ++ more) where
  length_le := length_append_le hfetch h hmore
  nodup := nodup_append hfetch hgroups hdisjoint h hmore
  admitted := fun e he => by
    obtain ⟨hmem, g', hg', hadmits⟩ := admitted_append hfetch h hmore e he
    refine ⟨hmem, g', ?_, hadmits⟩
    rcases List.mem_append.mp hg' with hg' | hg'
    · exact List.mem_append_left _ hg'
    · simp [List.mem_singleton.mp hg']
  priority := fun g₁ g₂ hsub e he hadmits e' he' hadmits' => by
    obtain ⟨-, g', hg', hadmits''⟩ := admitted_append hfetch h hmore e he
    have hg'' : g' ∈ done ++ g :: later := by
      rcases List.mem_append.mp hg' with hg' | hg'
      · exact List.mem_append_left _ hg'
      · simp [List.mem_singleton.mp hg']
    obtain rfl : g₂ = g' :=
      hdisjoint g₂ (hsub.subset (by simp)) g' hg'' e hadmits hadmits''
    have hbefore : g₁ ∈ done := mem_before hgroups hg' hsub
    exact List.mem_append_left _ (h.complete g₁ hbefore e' he' hadmits')
  complete := fun hlt => absurd hfull (Nat.not_le_of_lt hlt)

end Step

theorem fill_filled {done later : List γ} {entries result : List α}
    (hfetch : Fetches candidates admits fetch (done ++ later)) (hgroups : (done ++ later).Nodup)
    (hdisjoint : ∀ g₁ ∈ done ++ later, ∀ g₂ ∈ done ++ later, ∀ e,
      admits g₁ e → admits g₂ e → g₁ = g₂)
    (h : Exhausted candidates admits limit done entries)
    (hrun : fill fetch limit later entries = .ok result) :
    Filled candidates admits (done ++ later) limit result := by
  induction later generalizing done entries with
  | nil =>
      cases hrun
      rw [List.append_nil]
      exact h.filled
  | cons g later ih =>
      obtain ⟨more, hmore, hrun⟩ := bind_eq_ok hrun
      split at hrun
      · rename_i hfull
        cases hrun
        exact filled_step hfetch hgroups hdisjoint h hmore hfull
      · rename_i hopen
        have hstep := exhausted_step hfetch hgroups hdisjoint h hmore hopen
        have happend : done ++ g :: later = (done ++ [g]) ++ later := by simp
        rw [happend] at hfetch hgroups hdisjoint ⊢
        exact ih hfetch hgroups hdisjoint hstep hrun

/-- No entry of a group is taken while one of a group before it is left. -/
theorem fill_spec {result : List α} (hlimit : 0 < limit)
    (hfetch : Fetches candidates admits fetch groups) (hgroups : groups.Nodup)
    (hdisjoint : ∀ g₁ ∈ groups, ∀ g₂ ∈ groups, ∀ e, admits g₁ e → admits g₂ e → g₁ = g₂)
    (hrun : fill fetch limit groups [] = .ok result) :
    Filled candidates admits groups limit result := by
  have h : Filled candidates admits ([] ++ groups) limit result :=
    fill_filled hfetch hgroups hdisjoint (exhausted_nil hlimit) hrun
  exact h

end

end Library

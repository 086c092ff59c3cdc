import Mathlib.Data.List.Induction

/-!
Records linked by digests: each names the digest of the record before it, the first one
names a digest given from outside. A linked list is determined by the digest it ends in,
as long as no two of the records at hand share a digest and none has the first one.

How a digest is computed is left to the user of the library.
-/
namespace Library.HashChain

universe u v w

variable {R : Type u} {H : Type v} {E : Type w}

section

variable (prev digest : R → H)

/-- Every record names the digest of the one before it, the first one names `h`. -/
def Linked (h : H) : List R → Prop
  | [] => True
  | r :: rs => prev r = h ∧ Linked (digest r) rs

/-- The digest that the next record names. -/
def head (h : H) : List R → H
  | [] => h
  | r :: rs => head (digest r) rs

/-- The records made of a list of contents, each under the digest of the one before. -/
def link (build : H → E → R) (h : H) : List E → List R
  | [] => []
  | e :: es => build h e :: link build (digest (build h e)) es

end

variable {prev digest : R → H}

theorem linked_append {h : H} {rs ts : List R} :
    Linked prev digest h (rs ++ ts) ↔
      Linked prev digest h rs ∧ Linked prev digest (head digest h rs) ts := by
  induction rs generalizing h with
  | nil => simp [Linked, head]
  | cons r rs ih => simp [Linked, head, ih, and_assoc]

theorem head_append {h : H} {rs ts : List R} :
    head digest h (rs ++ ts) = head digest (head digest h rs) ts := by
  induction rs generalizing h with
  | nil => rfl
  | cons r rs ih => exact ih

theorem head_concat {h : H} {rs : List R} {r : R} :
    head digest h (rs ++ [r]) = digest r := by
  rw [head_append]
  rfl

theorem linked_concat {h : H} {rs : List R} {r : R} :
    Linked prev digest h (rs ++ [r]) ↔
      Linked prev digest h rs ∧ prev r = head digest h rs := by
  rw [linked_append]
  simp [Linked]

/-- A record names the first digest or the digest of another record. -/
theorem linked_prev {h : H} {rs : List R} (hlinked : Linked prev digest h rs) :
    ∀ r ∈ rs, prev r = h ∨ ∃ t ∈ rs, prev r = digest t := by
  induction rs generalizing h with
  | nil => simp
  | cons r rs ih =>
      intro t ht
      rcases List.mem_cons.mp ht with rfl | ht
      · exact .inl hlinked.1
      · rcases ih hlinked.2 t ht with hfirst | ⟨s, hs, hlater⟩
        · exact .inr ⟨r, List.mem_cons_self, hfirst⟩
        · exact .inr ⟨s, List.mem_cons_of_mem r hs, hlater⟩

theorem linked_link {build : H → E → R} (hbuild : ∀ h e, prev (build h e) = h) (h : H)
    (es : List E) : Linked prev digest h (link digest build h es) := by
  induction es generalizing h with
  | nil => trivial
  | cons e es ih => exact ⟨hbuild h e, ih _⟩

theorem forall_mem_link {build : H → E → R} {P : R → Prop} {es : List E}
    (hbuild : ∀ e ∈ es, ∀ h, P (build h e)) (h : H) : ∀ r ∈ link digest build h es, P r := by
  induction es generalizing h with
  | nil => simp [link]
  | cons e es ih =>
      obtain ⟨he, hes⟩ := List.forall_mem_cons.mp hbuild
      exact List.forall_mem_cons.mpr ⟨he h, ih hes _⟩

/-- What a record keeps of its content is kept in order. -/
theorem map_link {X : Type*} {build : H → E → R} {kept : R → X} {content : E → X}
    (hbuild : ∀ h e, kept (build h e) = content e) (h : H) (es : List E) :
    (link digest build h es).map kept = es.map content := by
  induction es generalizing h with
  | nil => rfl
  | cons e es ih => rw [link, List.map_cons, List.map_cons, hbuild, ih]

/-- Two linked lists that end in one digest are equal: the last records are, so the ones
before them end in one digest as well. -/
theorem linked_determined {h : H} {rs ts : List R} (hrs : Linked prev digest h rs)
    (hts : Linked prev digest h ts) (hhead : head digest h rs = head digest h ts)
    (hinj : ∀ r ∈ rs, ∀ t ∈ ts, digest r = digest t → r = t)
    (hfresh : ∀ r, r ∈ rs ∨ r ∈ ts → digest r ≠ h) : rs = ts := by
  induction rs using List.reverseRecOn generalizing ts with
  | nil =>
      cases ts using List.reverseRecOn with
      | nil => rfl
      | append_singleton ts t =>
          rw [head_concat] at hhead
          exact absurd hhead.symm (hfresh t (.inr (by simp)))
  | append_singleton rs r ih =>
      cases ts using List.reverseRecOn with
      | nil =>
          rw [head_concat] at hhead
          exact absurd hhead (hfresh r (.inl (by simp)))
      | append_singleton ts t =>
          rw [head_concat, head_concat] at hhead
          obtain rfl := hinj r (by simp) t (by simp) hhead
          obtain ⟨hrs, hprev⟩ := linked_concat.mp hrs
          obtain ⟨hts, hprev'⟩ := linked_concat.mp hts
          rw [ih hrs hts (hprev.symm.trans hprev')]
          · intro a ha b hb
            exact hinj a (List.mem_append_left _ ha) b (List.mem_append_left _ hb)
          · intro a ha
            exact hfresh a (ha.imp (List.mem_append_left _) (List.mem_append_left _))

end Library.HashChain

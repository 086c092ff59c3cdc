import TrwMemory.Library.Keyset

/-!
Walks whose cursors do not have to be the keys of the feed: the cursor of an element
selects the part of the feed that the next page is taken from. A walk is lossless, for
every page size, exactly when each cursor selects what is behind its element.
-/
namespace Library.Keyset

universe u v

variable {α : Type u} {κ : Type v} [LinearOrder κ] {key : α → κ}

/-- A page of `n` after the element `cursor`; `below a b` says that the cursor of `a`
selects `b`. -/
def cursorPage (feed : List α) (below : α → α → Bool) (n : Nat) : Option α → Option (List α)
  | none => some (feed.take n)
  | some a => some ((feed.filter (below a)).take n)

/-- For every page size the walk ends, and shows each element once. -/
def Lossless (feed : List α) (below : α → α → Bool) : Prop :=
  ∀ n, 0 < n → ∃ pages, Walk (cursorPage feed below n) some none pages ∧ pages.flatten.Perm feed

/-- Selections that go on to the end of the feed. -/
def UpClosed (key : α → κ) (feed : List α) (selects : α → Bool) : Prop :=
  ∀ b ∈ feed, ∀ c ∈ feed, selects b = true → key b < key c → selects c = true

variable {feed : List α} {below : α → α → Bool}

theorem mem_of_walk {n : Nat} {cursor : Option α} {pages : List (List α)}
    (hwalk : Walk (cursorPage feed below n) some cursor pages) {a : α} (ha : a ∈ pages.flatten) :
    a ∈ feed := by
  induction hwalk with
  | done _ => simp at ha
  | @more cursor xs last pages hshown _ _ ih =>
      rw [List.flatten_cons, List.mem_append] at ha
      cases ha with
      | inr ha => exact ih ha
      | inl ha =>
          cases cursor with
          | none =>
              obtain rfl := Option.some.inj hshown
              exact List.mem_of_mem_take ha
          | some b =>
              obtain rfl := Option.some.inj hshown
              exact List.mem_of_mem_filter (List.mem_of_mem_take ha)

/-- Such a selection shows after one of its elements all that is behind it. -/
theorem behind_selection {a b : α} (hup : UpClosed key feed (below a))
    (hb : b ∈ feed.filter (below a)) :
    behind key (key b) (feed.filter (below a)) = behind key (key b) feed := by
  obtain ⟨hmem, hbelow⟩ := List.mem_filter.mp hb
  rw [behind, behind, List.filter_filter]
  apply List.filter_congr
  intro c hc
  cases hlt : decide (key b < key c) with
  | false => rfl
  | true => simpa using hup b hmem c hc hbelow (of_decide_eq_true hlt)

variable (key) in
theorem lossless_of_exact (hfeed : StrictlySorted key feed)
    (hexact : ∀ a ∈ feed, ∀ b ∈ feed, below a b = true ↔ key a < key b) :
    Lossless feed below := by
  intro n hn
  have hpage : ∀ a ∈ feed, cursorPage feed below n (some a) =
      some ((behind key (key a) feed).take n) := by
    intro a ha
    have hselect : feed.filter (below a) = behind key (key a) feed :=
      List.filter_congr fun b hb => Bool.eq_iff_iff.mpr <| by
        rw [hexact a ha b hb, decide_eq_true_eq]
    rw [cursorPage, hselect]
  cases hlast : (feed.take n).getLast? with
  | none =>
      have hempty := List.getLast?_eq_none_iff.mp hlast
      refine ⟨[], .done (congrArg some hempty), ?_⟩
      rcases List.take_eq_nil_iff.mp hempty with hzero | hnil
      · omega
      · rw [hnil, List.flatten_nil]
  | some last =>
      have hmem : last ∈ feed := List.mem_of_mem_take (List.mem_of_getLast? hlast)
      obtain ⟨pages, hpages⟩ := exists_walk key hpage (hpage last hmem)
      refine ⟨_, .more rfl hlast hpages, List.Perm.of_eq ?_⟩
      rw [List.flatten_cons, walk_flatten key hfeed hn hpage hpages (hpage last hmem),
        behind_take_last key hfeed hlast, List.take_append_drop]

/-- Where the cursors of all that a walk shows are exact, it shows what its first cursor
selects. -/
theorem walk_selection (hfeed : StrictlySorted key feed) {n : Nat} (hn : 0 < n) {a : α}
    {pages : List (List α)} (hup : UpClosed key feed (below a))
    (hwalk : Walk (cursorPage feed below n) some (some a) pages)
    (hexact : ∀ b ∈ pages.flatten, ∀ c ∈ feed, below b c = true ↔ key b < key c) :
    pages.flatten = feed.filter (below a) := by
  generalize hcursor : some a = cursor at hwalk
  induction hwalk generalizing a with
  | done hempty =>
      subst hcursor
      rcases List.take_eq_nil_iff.mp (Option.some.inj hempty) with hzero | hnil
      · omega
      · rw [hnil, List.flatten_nil]
  | @more _ xs last pages hshown hlast _ ih =>
      subst hcursor
      obtain rfl := Option.some.inj hshown
      have hlastExact := hexact last (by
        rw [List.flatten_cons]
        exact List.mem_append_left _ (List.mem_of_getLast? hlast))
      have hmem : last ∈ feed.filter (below a) :=
        List.mem_of_mem_take (List.mem_of_getLast? hlast)
      have hlastUp : UpClosed key feed (below last) := by
        intro b hb c hc hbelow hlt
        exact (hlastExact c hc).mpr (((hlastExact b hb).mp hbelow).trans hlt)
      have hrest := ih hlastUp (fun b hb => hexact b (by
        rw [List.flatten_cons]
        exact List.mem_append_right _ hb)) rfl
      have hselect : feed.filter (below last) = behind key (key last) feed :=
        List.filter_congr fun b hb => Bool.eq_iff_iff.mpr <| by
          rw [hlastExact b hb, decide_eq_true_eq]
      rw [List.flatten_cons, hrest, hselect, ← behind_selection hup hmem,
        behind_take_last key (hfeed.sublist List.filter_sublist) hlast, List.take_append_drop]

/-- With a page that ends at `a`, a walk that is not to come back shows next what `a`
selects. -/
theorem selection_perm {front back : List α} {a : α}
    (hfeed : StrictlySorted key (front ++ a :: back))
    (hup : UpClosed key (front ++ a :: back) (below a))
    (hback : ∀ b ∈ back, ∀ c ∈ front ++ a :: back, below b c = true ↔ key b < key c)
    (hlossless : Lossless (front ++ a :: back) below) :
    ((front ++ a :: back).filter (below a)).Perm back := by
  obtain ⟨pages, hwalk, hperm⟩ := hlossless (front.length + 1) (Nat.succ_pos _)
  have hfirst : (front ++ a :: back).take (front.length + 1) = front ++ [a] := by
    rw [List.take_length_add_append, List.take_succ_cons, List.take_zero]
  cases hwalk with
  | done hempty =>
      have hnil := Option.some.inj hempty
      rw [hfirst] at hnil
      simp at hnil
  | @more _ xs last rest hshown hlast hrest =>
      obtain rfl := (Option.some.inj hshown).symm.trans hfirst
      obtain rfl : a = last := by simpa using hlast
      have hshows : rest.flatten.Perm back := by
        rw [List.flatten_cons, List.append_cons front a back] at hperm
        exact (List.perm_append_left_iff _).mp hperm
      rw [← walk_selection hfeed (Nat.succ_pos _) hup hrest fun b hb =>
        hback b (hshows.subset hb)]
      exact hshows

/-- Every cursor of a lossless walk is exact: from the last element of the feed to the
first. -/
theorem lossless_iff (hfeed : StrictlySorted key feed)
    (hup : ∀ a ∈ feed, UpClosed key feed (below a)) :
    Lossless feed below ↔ ∀ a ∈ feed, ∀ b ∈ feed, below a b = true ↔ key a < key b := by
  refine ⟨fun hlossless => ?_, lossless_of_exact key hfeed⟩
  suffices h : ∀ back front, front ++ back = feed →
      ∀ a ∈ back, ∀ b ∈ feed, below a b = true ↔ key a < key b from h feed [] rfl
  intro back
  induction back with
  | nil =>
      intro _ _ a ha
      cases ha
  | cons a back ih =>
      intro front hsplit
      have hback := ih (front ++ [a]) (by simpa using hsplit)
      rw [List.forall_mem_cons]
      refine ⟨?_, hback⟩
      subst hsplit
      have hperm := selection_perm hfeed (hup a (by simp)) hback hlossless
      intro b hb
      have hselected : below a b = true ↔ b ∈ back := by
        rw [← hperm.mem_iff, List.mem_filter, and_iff_right hb]
      rw [hselected]
      obtain ⟨-, hcons, hfront⟩ := List.pairwise_append.mp hfeed
      rw [List.pairwise_cons] at hcons
      constructor
      · exact hcons.1 b
      · intro hlt
        rcases List.mem_append.mp hb with hb | hb
        · exact absurd (hfront b hb a (by simp)) (lt_asymm hlt)
        · rcases List.mem_cons.mp hb with rfl | hb
          · exact absurd hlt (lt_irrefl _)
          · exact hb

section Map

universe w

variable {β : Type w} {γ γ' : Type*} (page : γ → Option (List α)) (page' : γ' → Option (List β))
  (cursorOf : α → γ) (cursorOf' : β → γ')

/-- A walk over images, whose cursors are those of the elements, is one over the elements. -/
theorem walk_map_iff (f : α → β) (g : γ → γ') (hpage : ∀ c, page' (g c) = (page c).map (List.map f))
    (hcursor : ∀ a, cursorOf' (f a) = g (cursorOf a)) (c : γ) (shown : List (List β)) :
    Walk page' cursorOf' (g c) shown ↔
      ∃ pages, Walk page cursorOf c pages ∧ shown = pages.map (List.map f) := by
  constructor
  · intro hwalk
    generalize hc : g c = c' at hwalk
    induction hwalk generalizing c with
    | done hempty =>
        subst hc
        rw [hpage, Option.map_eq_some_iff] at hempty
        obtain ⟨xs, hxs, hnil⟩ := hempty
        rw [List.map_eq_nil_iff.mp hnil] at hxs
        exact ⟨[], .done hxs, rfl⟩
    | more hshown hlast _ ih =>
        subst hc
        rw [hpage, Option.map_eq_some_iff] at hshown
        obtain ⟨xs, hxs, rfl⟩ := hshown
        rw [List.getLast?_map, Option.map_eq_some_iff] at hlast
        obtain ⟨last, hlast, rfl⟩ := hlast
        obtain ⟨pages, hpages, rfl⟩ := ih _ (hcursor last).symm
        exact ⟨xs :: pages, .more hxs hlast hpages, rfl⟩
  · rintro ⟨pages, hwalk, rfl⟩
    induction hwalk with
    | done hempty => exact .done (by rw [hpage, hempty]; rfl)
    | more hshown hlast _ ih =>
        refine .more ?_ ?_ (hcursor _ ▸ ih)
        · rw [hpage, hshown]
          rfl
        · rw [List.getLast?_map, hlast]
          rfl

end Map

end Library.Keyset

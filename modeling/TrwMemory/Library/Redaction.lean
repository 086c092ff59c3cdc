import TrwMemory.Library.Markers

/-!
Redactions: a text some stretches of which are replaced by markers. The literals of the
redacted text stand in the source in their order; where a literal could stand in more than
one place, its first possible place and its last one have the true place between them.
-/
namespace Library.Redaction

universe u

variable {α : Type u}

/-- A stretch of a text and what it is replaced by. -/
structure Span (α : Type u) where
  start : Nat
  stop : Nat
  holder : List α
  deriving DecidableEq

/-- The stretches between literals that stand at given places. -/
def spans : Nat → List (List α) → List Nat → List (List α) → List (Span α)
  | stop, part :: parts, i :: places, holder :: holders =>
      ⟨stop, i, holder⟩ :: spans (i + part.length) parts places holders
  | _, _, _, _ => []

/-- The source with the spans replaced, from a position on; nothing where a span begins before
it. -/
def rebuildFrom (source : List α) : Nat → List (Span α) → Option (List α)
  | pos, [] => some (source.drop pos)
  | pos, s :: rest =>
      if s.start < pos then none
      else (rebuildFrom source s.stop rest).map fun text =>
        (source.drop pos).take (s.start - pos) ++ s.holder ++ text

def rebuild (source : List α) (ranges : List (Span α)) : List α :=
  (rebuildFrom source 0 ranges).getD []

/-- The literals stand in the source at these places, in order, the last one at its end. -/
def Placed (source : List α) : Nat → List (List α) → List Nat → Prop
  | pos, [], [] => pos = source.length
  | pos, part :: parts, i :: places =>
      pos ≤ i ∧ part <+: source.drop i ∧ Placed source (i + part.length) parts places
  | _, _, _ => False

theorem placed_le {source : List α} {parts : List (List α)} {pos : Nat} {places : List Nat}
    (h : Placed source pos parts places) : pos ≤ source.length := by
  induction parts generalizing pos places with
  | nil =>
      cases places with
      | nil => exact Nat.le_of_eq h
      | cons i places => cases h
  | cons part parts ih =>
      cases places with
      | nil => cases h
      | cons i places =>
          have hrest := ih h.2.2
          have hpos := h.1
          omega

/-- Rebuilding between placed literals gives the holders and the literals in turn. -/
theorem rebuildFrom_spans {source : List α} {part : List α} {parts : List (List α)} {i : Nat}
    {places : List Nat} {holders : List (List α)} (hpart : part <+: source.drop i)
    (h : Placed source (i + part.length) parts places) (hlength : holders.length = parts.length) :
    rebuildFrom source i (spans (i + part.length) parts places holders) =
      some (part ++ (holders.zip parts).flatMap fun piece => piece.1 ++ piece.2) := by
  induction parts generalizing part i places holders with
  | nil =>
      cases places with
      | cons j places => cases h
      | nil =>
          have hend : part = source.drop i := by
            apply hpart.eq_of_length
            rw [List.length_drop]
            have hstop : i + part.length = source.length := h
            omega
          simp [spans, rebuildFrom, ← hend]
  | cons next parts ih =>
      cases places with
      | nil => cases h
      | cons j places =>
          cases holders with
          | nil => cases hlength
          | cons holder holders =>
              obtain ⟨hle, hnext, hrest⟩ := h
              have htail := ih hnext hrest (by simpa using hlength)
              obtain ⟨text, htext⟩ := hpart
              rw [spans, rebuildFrom, if_neg (by dsimp only; omega)]
              dsimp only
              rw [htail, ← htext, Nat.add_sub_cancel_left, List.take_left]
              simp

section Search

variable [BEq α] [LawfulBEq α]

/-- `source.find(part, pos)`. -/
def find (source part : List α) (pos : Nat) : Option Nat :=
  (List.range (source.length + 1)).find? fun i =>
    decide (pos ≤ i) && part.isPrefixOf (source.drop i)

/-- `source.rfind(part, 0, stop)`. -/
def rfind (source part : List α) (stop : Nat) : Option Nat :=
  ((List.range (stop + 1)).find? fun back =>
    decide (stop - back + part.length ≤ stop) && part.isPrefixOf (source.drop (stop - back))).map
      (stop - ·)

theorem find_le {source part : List α} {pos i : Nat} (hpart : part <+: source.drop i)
    (hpos : pos ≤ i) (hi : i ≤ source.length) :
    ∃ first, find source part pos = some first ∧ pos ≤ first ∧ first ≤ i ∧
      part <+: source.drop first := by
  cases hfind : find source part pos with
  | none =>
      rw [find, List.find?_range_eq_none] at hfind
      have hnot := hfind i (by omega)
      rw [Bool.not_eq_true', Bool.and_eq_false_iff, decide_eq_false_iff_not,
        ← Bool.not_eq_true, List.isPrefixOf_iff_prefix] at hnot
      exact hnot.elim (absurd hpos) (absurd hpart)
  | some first =>
      rw [find, List.find?_range_eq_some] at hfind
      obtain ⟨hfirst, -, hbefore⟩ := hfind
      rw [Bool.and_eq_true, decide_eq_true_eq, List.isPrefixOf_iff_prefix] at hfirst
      refine ⟨first, rfl, hfirst.1, ?_, hfirst.2⟩
      by_contra hlater
      have hnot := hbefore i (by omega)
      rw [Bool.not_eq_true', Bool.and_eq_false_iff, decide_eq_false_iff_not,
        ← Bool.not_eq_true, List.isPrefixOf_iff_prefix] at hnot
      exact hnot.elim (absurd hpos) (absurd hpart)

theorem le_rfind {source part : List α} {stop i : Nat} (hpart : part <+: source.drop i)
    (hstop : i + part.length ≤ stop) :
    ∃ last, rfind source part stop = some last ∧ i ≤ last ∧ last + part.length ≤ stop ∧
      part <+: source.drop last := by
  have hback : stop - (stop - i) = i := by omega
  have hholds : (decide (stop - (stop - i) + part.length ≤ stop) &&
      part.isPrefixOf (source.drop (stop - (stop - i)))) = true := by
    rw [hback, Bool.and_eq_true, decide_eq_true_eq, List.isPrefixOf_iff_prefix]
    exact ⟨hstop, hpart⟩
  unfold rfind
  cases hfind : (List.range (stop + 1)).find? fun back =>
      decide (stop - back + part.length ≤ stop) && part.isPrefixOf (source.drop (stop - back)) with
  | none =>
      rw [List.find?_range_eq_none] at hfind
      have hnot := hfind (stop - i) (by omega)
      rw [hholds] at hnot
      cases hnot
  | some back =>
      rw [List.find?_range_eq_some] at hfind
      obtain ⟨hlast, -, hbefore⟩ := hfind
      rw [Bool.and_eq_true, decide_eq_true_eq, List.isPrefixOf_iff_prefix] at hlast
      refine ⟨stop - back, rfl, ?_, hlast.1, hlast.2⟩
      by_contra hlater
      have hnot := hbefore (stop - i) (by omega)
      rw [hholds] at hnot
      cases hnot

/-- The first place of each literal after the one before, the last literal at the end. -/
def earliest (source : List α) : Nat → List (List α) → Option (List Nat)
  | _, [] => some []
  | pos, [part] =>
      if source.length - part.length < pos then none else some [source.length - part.length]
  | pos, part :: next :: parts => do
      let i ← find source part pos
      let places ← earliest source (i + part.length) (next :: parts)
      return i :: places

/-- The last place of each literal before the one after it. -/
def latest (source : List α) : List (List α) → Option (List Nat)
  | [] => some []
  | [part] => some [source.length - part.length]
  | part :: next :: parts => do
      let places ← latest source (next :: parts)
      let i ← rfind source part (places.headD source.length)
      return i :: places

/-- The first places are before the true ones. -/
theorem earliest_placed {source : List α} {parts : List (List α)} {pos pos' : Nat}
    {places : List Nat} (h : Placed source pos' parts places) (hpos : pos ≤ pos')
    (hne : parts ≠ []) :
    ∃ firsts, earliest source pos parts = some firsts ∧ Placed source pos parts firsts ∧
      List.Forall₂ (· ≤ ·) firsts places := by
  induction parts generalizing pos pos' places with
  | nil => exact absurd rfl hne
  | cons part parts ih =>
      cases places with
      | nil => cases h
      | cons i places =>
          obtain ⟨hle, hpart, hrest⟩ := h
          cases parts with
          | nil =>
              cases places with
              | cons j places => cases hrest
              | nil =>
                  have hstop : i + part.length = source.length := hrest
                  have hi : source.length - part.length = i := by omega
                  rw [earliest, hi, if_neg (by omega)]
                  exact ⟨[i], rfl, ⟨by omega, hpart, hrest⟩, .cons (Nat.le_refl i) .nil⟩
          | cons next parts =>
              have hi : i ≤ source.length := by
                have := placed_le hrest
                omega
              obtain ⟨first, hfind, hfirst, hfirst', hprefix⟩ :=
                find_le hpart (Nat.le_trans hpos hle) hi
              obtain ⟨firsts, hfirsts, hplaced, hbelow⟩ :=
                ih hrest (Nat.add_le_add_right hfirst' part.length) (List.cons_ne_nil _ _)
              refine ⟨first :: firsts, ?_, ⟨hfirst, hprefix, hplaced⟩, .cons hfirst' hbelow⟩
              simp [earliest, hfind, hfirsts]

/-- The last places are behind the true ones. -/
theorem latest_placed {source : List α} {parts : List (List α)} {pos : Nat} {places : List Nat}
    (h : Placed source pos parts places) (hne : parts ≠ []) :
    ∃ lasts, latest source parts = some lasts ∧ Placed source pos parts lasts ∧
      List.Forall₂ (· ≤ ·) places lasts := by
  induction parts generalizing pos places with
  | nil => exact absurd rfl hne
  | cons part parts ih =>
      cases places with
      | nil => cases h
      | cons i places =>
          obtain ⟨hle, hpart, hrest⟩ := h
          cases parts with
          | nil =>
              cases places with
              | cons j places => cases hrest
              | nil =>
                  have hstop : i + part.length = source.length := hrest
                  have hi : source.length - part.length = i := by omega
                  rw [latest, hi]
                  exact ⟨[i], rfl, ⟨hle, hpart, hrest⟩, .cons (Nat.le_refl i) .nil⟩
          | cons next parts =>
              obtain ⟨lasts, hlasts, hplaced, habove⟩ := ih hrest (List.cons_ne_nil _ _)
              cases lasts with
              | nil => cases hplaced
              | cons last lasts =>
                  obtain ⟨hlast, hnext, hafter⟩ := hplaced
                  obtain ⟨mine, hrfind, hmine, hfits, hprefix⟩ := le_rfind hpart hlast
                  refine ⟨mine :: last :: lasts, ?_,
                    ⟨Nat.le_trans hle hmine, hprefix, hfits, hnext, hafter⟩, .cons hmine habove⟩
                  simp [latest, hlasts, hrfind]

theorem rfind_nil (source : List α) (stop : Nat) : rfind source [] stop = some stop := by
  obtain ⟨last, hlast, hle, hfits, -⟩ :=
    le_rfind (List.nil_prefix : [] <+: source.drop stop) (Nat.le_refl stop)
  rw [hlast]
  exact congrArg some (Nat.le_antisymm hfits hle)

/-- An empty literal has its last place where the next one has it. -/
theorem latest_nil {source next : List α} {parts : List (List α)} {last : Nat} {lasts : List Nat}
    (h : latest source ([] :: next :: parts) = some (last :: lasts)) :
    lasts.head? = some last ∧ latest source (next :: parts) = some lasts := by
  rw [latest] at h
  cases hrest : latest source (next :: parts) with
  | none =>
      rw [hrest] at h
      cases h
  | some places =>
      rw [hrest] at h
      simp only [Option.bind_eq_bind, Option.bind_some, rfind_nil, pure, Option.some.injEq,
        List.cons.injEq] at h
      obtain ⟨hlast, rfl⟩ := h
      cases hplaces : places with
      | cons place rest =>
          rw [hplaces] at hlast
          exact ⟨by simpa using hlast, rfl⟩
      | nil =>
          subst hplaces
          cases parts with
          | nil => cases hrest
          | cons part parts =>
              rw [latest] at hrest
              simp only [Option.bind_eq_bind, Option.bind_eq_some_iff, pure,
                Option.some.injEq] at hrest
              obtain ⟨_, -, _, -, h⟩ := hrest
              cases h

omit [LawfulBEq α] in
theorem latest_cons {source part next : List α} {parts : List (List α)} {last : Nat}
    {lasts : List Nat} (h : latest source (part :: next :: parts) = some (last :: lasts)) :
    latest source (next :: parts) = some lasts := by
  rw [latest] at h
  simp only [Option.bind_eq_bind, Option.bind_eq_some_iff, pure, Option.some.injEq,
    List.cons.injEq] at h
  obtain ⟨places, hplaces, _, -, -, rfl⟩ := h
  exact hplaces

end Search

/-- From where the stretches of the one list begin to where those of the other end. -/
def hull (earliest latest : List (Span α)) : List (Span α) :=
  List.zipWith (fun first last => ⟨first.start, last.stop, first.holder⟩) earliest latest

/-- A position in one of the stretches. -/
def Covers (ranges : List (Span α)) (p : Nat) : Prop := ∃ s ∈ ranges, s.start ≤ p ∧ p < s.stop

instance (ranges : List (Span α)) (p : Nat) : Decidable (Covers ranges p) :=
  inferInstanceAs (Decidable (∃ s ∈ ranges, s.start ≤ p ∧ p < s.stop))

theorem covers_cons {s : Span α} {ranges : List (Span α)} {p : Nat} :
    Covers (s :: ranges) p ↔ (s.start ≤ p ∧ p < s.stop) ∨ Covers ranges p := by
  simp [Covers]

theorem start_le_of_spans {source : List α} {parts : List (List α)} {stop : Nat}
    {places : List Nat} {holders : List (List α)} (h : Placed source stop parts places) :
    ∀ s ∈ spans stop parts places holders,
      stop ≤ s.start ∧ s.start ≤ s.stop ∧ s.stop ≤ source.length := by
  induction parts generalizing stop places holders with
  | nil => cases places <;> simp [spans]
  | cons part parts ih =>
      cases places with
      | nil => cases h
      | cons i places =>
          cases holders with
          | nil => simp [spans]
          | cons holder holders =>
              obtain ⟨hle, -, hrest⟩ := h
              have hi := placed_le hrest
              rw [spans]
              refine List.forall_mem_cons.mpr ⟨⟨Nat.le_refl _, hle, by dsimp only; omega⟩, ?_⟩
              intro s hs
              have hs' := ih hrest s hs
              omega

theorem covers_spans_cons {source part : List α} {parts : List (List α)} {stop i p : Nat}
    {places : List Nat} {holder : List α} {holders : List (List α)}
    (h : Placed source (i + part.length) parts places)
    (hcovers : Covers (spans stop (part :: parts) (i :: places) (holder :: holders)) p) :
    (stop ≤ p ∧ p < i) ∨
      (i + part.length ≤ p ∧ Covers (spans (i + part.length) parts places holders) p) := by
  rw [spans] at hcovers
  rcases covers_cons.mp hcovers with hfirst | ⟨s, hs, hstart, hstop⟩
  · exact .inl hfirst
  · have := (start_le_of_spans h s hs).1
    exact .inr ⟨by omega, s, hs, hstart, hstop⟩

theorem mem_hull {earliest latest : List (Span α)} {s : Span α} (h : s ∈ hull earliest latest) :
    ∃ first ∈ earliest, ∃ last ∈ latest, s = ⟨first.start, last.stop, first.holder⟩ := by
  have hzip : hull earliest latest =
      (earliest.zip latest).map fun pair => ⟨pair.1.start, pair.2.stop, pair.1.holder⟩ := by
    rw [List.map_zip_eq_zipWith]
    rfl
  rw [hzip] at h
  obtain ⟨⟨first, last⟩, hmem, rfl⟩ := List.mem_map.mp h
  obtain ⟨hfirst, hlast⟩ := List.of_mem_zip hmem
  exact ⟨first, hfirst, last, hlast, rfl⟩

theorem holder_mem_of_spans {parts : List (List α)} {stop : Nat} {places : List Nat}
    {holders : List (List α)} : ∀ s ∈ spans stop parts places holders, s.holder ∈ holders := by
  induction parts generalizing stop places holders with
  | nil => cases places <;> simp [spans]
  | cons part parts ih =>
      cases places with
      | nil => simp [spans]
      | cons i places =>
          cases holders with
          | nil => simp [spans]
          | cons holder holders =>
              refine List.forall_mem_cons.mpr ⟨List.mem_cons_self, fun s hs => ?_⟩
              exact List.mem_cons_of_mem _ (ih s hs)

section Hull

variable [BEq α] [LawfulBEq α] {source : List α}

/-- A run of covered positions from the first stretch on ends before that stretch's last end:
a literal in between is empty, and its last place is that of the next literal. -/
theorem run_lt_last {parts : List (List α)} {stop k : Nat} {places lasts : List Nat}
    {holders : List (List α)} (h : Placed source stop parts places)
    (hlasts : latest source parts = some lasts) (habove : List.Forall₂ (· ≤ ·) places lasts)
    (hstop : stop ≤ k)
    (hrun : ∀ j, stop ≤ j → j ≤ k → Covers (spans stop parts places holders) j) :
    ∃ last, lasts.head? = some last ∧ k < last := by
  induction parts generalizing stop places lasts holders with
  | nil =>
      obtain ⟨s, hs, -⟩ := hrun stop (Nat.le_refl _) hstop
      cases places <;> simp [spans] at hs
  | cons part parts ih =>
      cases habove with
      | nil => cases h
      | @cons i last places lasts hlast habove =>
          obtain ⟨hle, -, hrest⟩ := h
          refine ⟨last, rfl, ?_⟩
          cases holders with
          | nil =>
              obtain ⟨s, hs, -⟩ := hrun stop (Nat.le_refl _) hstop
              simp [spans] at hs
          | cons holder holders =>
              by_cases hk : k < i
              · omega
              · have hlater : ∀ j, i ≤ j → j ≤ k → i + part.length ≤ j ∧
                    Covers (spans (i + part.length) parts places holders) j := by
                  intro j hij hjk
                  rcases covers_spans_cons hrest (hrun j (by omega) hjk) with hfirst | hlater
                  · omega
                  · exact hlater
                have hempty : part = [] := by
                  have := (hlater i (Nat.le_refl i) (by omega)).1
                  exact List.length_eq_zero_iff.mp (by omega)
                subst hempty
                cases parts with
                | nil =>
                    obtain ⟨-, s, hs, -⟩ := hlater i (Nat.le_refl i) (by omega)
                    cases places <;> simp [spans] at hs
                | cons next parts =>
                    obtain ⟨hhead, hlatest⟩ := latest_nil hlasts
                    obtain ⟨last', hlast', hk'⟩ := ih hrest hlatest habove
                      (by rw [List.length_nil]; omega)
                      (fun j hij hjk => (hlater j (by rw [List.length_nil] at hij; omega) hjk).2)
                    rw [hhead] at hlast'
                    exact Option.some.inj hlast' ▸ hk'

/-- A run of covered positions lies in one stretch of the hull. -/
theorem run_in_hull {parts : List (List α)} {stop stop' stop'' i k : Nat}
    {places firsts lasts : List Nat} {holders : List (List α)} (h : Placed source stop parts places)
    (hlasts : latest source parts = some lasts) (hbelow : List.Forall₂ (· ≤ ·) firsts places)
    (habove : List.Forall₂ (· ≤ ·) places lasts) (hstop : stop' ≤ stop) (hik : i ≤ k)
    (hrun : ∀ j, i ≤ j → j ≤ k → Covers (spans stop parts places holders) j) :
    ∃ s ∈ hull (spans stop' parts firsts holders) (spans stop'' parts lasts holders),
      s.start ≤ i ∧ k < s.stop := by
  induction parts generalizing stop stop' stop'' places firsts lasts holders with
  | nil =>
      obtain ⟨s, hs, -⟩ := hrun i (Nat.le_refl _) hik
      cases places <;> simp [spans] at hs
  | cons part parts ih =>
      have hrun' := hrun
      have hplaced := h
      cases habove with
      | nil => cases h
      | @cons place last places lasts hlast habove =>
          cases hbelow with
          | @cons first _ firsts _ hfirst hbelow =>
              obtain ⟨hle, -, hrest⟩ := h
              cases holders with
              | nil =>
                  obtain ⟨s, hs, -⟩ := hrun i (Nat.le_refl _) hik
                  simp [spans] at hs
              | cons holder holders =>
                  by_cases hi : i < place
                  · have hfrom : stop ≤ i := by
                      rcases covers_spans_cons hrest (hrun i (Nat.le_refl i) hik) with hin | hin
                      · exact hin.1
                      · omega
                    obtain ⟨last', hlast', hk⟩ := run_lt_last hplaced hlasts (.cons hlast habove)
                      (Nat.le_trans hfrom hik) (fun j hsj hjk => by
                        by_cases hij : i ≤ j
                        · exact hrun' j hij hjk
                        · rw [spans]
                          exact covers_cons.mpr (.inl ⟨hsj, by dsimp only; omega⟩))
                    rw [List.head?_cons, Option.some.injEq] at hlast'
                    subst hlast'
                    refine ⟨⟨stop', last, holder⟩, ?_, by dsimp only; omega, hk⟩
                    simp [spans, hull]
                  · have hlater : ∀ j, i ≤ j → j ≤ k →
                        Covers (spans (place + part.length) parts places holders) j := by
                      intro j hij hjk
                      rcases covers_spans_cons hrest (hrun j hij hjk) with hin | hin
                      · omega
                      · exact hin.2
                    cases parts with
                    | nil =>
                        obtain ⟨s, hs, -⟩ := hlater i (Nat.le_refl i) hik
                        cases places <;> simp [spans] at hs
                    | cons next parts =>
                        obtain ⟨s, hs, hin⟩ := ih hrest (latest_cons hlasts) hbelow habove
                          (Nat.add_le_add_right hfirst part.length) hlater
                        refine ⟨s, ?_, hin⟩
                        rw [spans, spans, hull, List.zipWith_cons_cons]
                        exact List.mem_cons_of_mem _ hs

end Hull

end Library.Redaction

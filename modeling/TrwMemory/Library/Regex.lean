import Mathlib.Data.List.Basic

/-!
Regular expressions in their backtracking reading. `ends` lists where a match from a place of
a text may end, in the order in which a backtracking matcher tries the ways to match: the first
end is the match. Repetitions are greedy; an optional round of one has to move on. Captures,
lazy repetitions and flags are not part of the expressions.

Searches with a regular expression: the leftmost match from a place on, and the matches of a
text one behind the other. The next search begins where the last match ended; after an empty
match it may not be empty at the same place again.
-/
namespace Library

universe u

/-- A place in a text: what stands before it, the nearest character first, and what follows. -/
structure Cursor (α : Type u) where
  before : List α
  after : List α
  deriving DecidableEq

inductive Regex (α : Type u) where
  | empty
  /-- One character of a class. -/
  | one (p : α → Bool)
  /-- A condition on what stands before (the nearest character first) and behind. -/
  | look (p : List α → List α → Bool)
  | seq (r s : Regex α)
  | alt (r s : Regex α)
  | rep (r : Regex α) (least : Nat) (most : Option Nat)

namespace Cursor

variable {α : Type u}

/-- The cursor at the start of a text. -/
def atStart (text : List α) : Cursor α := ⟨[], text⟩

def pos (c : Cursor α) : Nat := c.before.length

def text (c : Cursor α) : List α := c.before.reverse ++ c.after

/-- The second place is the first one moved over some characters. -/
def Leads (c d : Cursor α) : Prop :=
  ∃ moved, c.after = moved ++ d.after ∧ d.before = moved.reverse ++ c.before

theorem Leads.refl (c : Cursor α) : c.Leads c := ⟨[], rfl, rfl⟩

theorem Leads.trans {c d e : Cursor α} (hcd : c.Leads d) (hde : d.Leads e) : c.Leads e := by
  obtain ⟨first, hafter, hbefore⟩ := hcd
  obtain ⟨second, hafter', hbefore'⟩ := hde
  refine ⟨first ++ second, ?_, ?_⟩
  · rw [hafter, hafter', List.append_assoc]
  · rw [hbefore', hbefore, List.reverse_append, List.append_assoc]

theorem Leads.text_eq {c d : Cursor α} (h : c.Leads d) : d.text = c.text := by
  obtain ⟨moved, hafter, hbefore⟩ := h
  rw [text, text, hbefore, hafter, List.reverse_append, List.reverse_reverse, List.append_assoc]

theorem Leads.length_le {c d : Cursor α} (h : c.Leads d) : d.after.length ≤ c.after.length := by
  obtain ⟨moved, hafter, -⟩ := h
  rw [hafter, List.length_append]
  exact Nat.le_add_left _ _

theorem Leads.pos_le {c d : Cursor α} (h : c.Leads d) : c.pos ≤ d.pos := by
  obtain ⟨moved, -, hbefore⟩ := h
  rw [pos, pos, hbefore, List.length_append]
  exact Nat.le_add_left _ _

theorem pos_le_text (c : Cursor α) : c.pos ≤ c.text.length := by
  rw [pos, text, List.length_append, List.length_reverse]
  exact Nat.le_add_right _ _

theorem leads_next (before : List α) (a : α) (after : List α) :
    (⟨before, a :: after⟩ : Cursor α).Leads ⟨a :: before, after⟩ := ⟨[a], rfl, rfl⟩

/-- The place behind a run of a class. -/
def skip (p : α → Bool) (c : Cursor α) : Cursor α :=
  ⟨(c.after.takeWhile p).reverse ++ c.before, c.after.dropWhile p⟩

theorem skip_of_pos {p : α → Bool} {a : α} (h : p a = true) (before after : List α) :
    skip p ⟨before, a :: after⟩ = skip p ⟨a :: before, after⟩ := by
  simp [skip, h]

theorem skip_of_neg {p : α → Bool} {a : α} (h : ¬ p a = true) (before after : List α) :
    skip p ⟨before, a :: after⟩ = ⟨before, a :: after⟩ := by
  simp [skip, h]

end Cursor

namespace Regex

variable {α : Type u}

/-- Up to `extra` rounds more, each of them moving on, the longest tries first. -/
def further (step : Cursor α → List (Cursor α)) : Nat → Cursor α → List (Cursor α)
  | 0, c => [c]
  | extra + 1, c =>
      ((step c).filter fun d => d.after.length < c.after.length).flatMap (further step extra) ++
        [c]

/-- `least` rounds and up to `extra` more. -/
def rounds (step : Cursor α → List (Cursor α)) (extra : Nat) : Nat → Cursor α → List (Cursor α)
  | 0, c => further step extra c
  | least + 1, c => (step c).flatMap (rounds step extra least)

/-- Where a match from a place may end, in the order in which the ways to match are tried. -/
def ends : Regex α → Cursor α → List (Cursor α)
  | .empty, c => [c]
  | .one p, c =>
      match c.after with
      | [] => []
      | a :: after => if p a then [⟨a :: c.before, after⟩] else []
  | .look p, c => if p c.before c.after then [c] else []
  | .seq r s, c => (ends r c).flatMap fun d => ends s d
  | .alt r s, c => ends r c ++ ends s c
  | .rep r least most, c =>
      let extra := match most with
        | some most => most - least
        | none => c.after.length
      rounds (fun d => ends r d) extra least c

theorem further_leads {step : Cursor α → List (Cursor α)}
    (hstep : ∀ c, ∀ d ∈ step c, c.Leads d) (extra : Nat) (c : Cursor α) :
    ∀ d ∈ further step extra c, c.Leads d := by
  induction extra generalizing c with
  | zero =>
      intro d hd
      rw [List.mem_singleton.mp hd]
      exact .refl c
  | succ extra ih =>
      intro d hd
      rcases List.mem_append.mp hd with hmore | hstop
      · obtain ⟨e, he, hd⟩ := List.mem_flatMap.mp hmore
        exact (hstep c e (List.mem_of_mem_filter he)).trans (ih e d hd)
      · rw [List.mem_singleton.mp hstop]
        exact .refl c

theorem rounds_leads {step : Cursor α → List (Cursor α)}
    (hstep : ∀ c, ∀ d ∈ step c, c.Leads d) (extra least : Nat) (c : Cursor α) :
    ∀ d ∈ rounds step extra least c, c.Leads d := by
  induction least generalizing c with
  | zero => exact further_leads hstep extra c
  | succ least ih =>
      intro d hd
      obtain ⟨e, he, hd⟩ := List.mem_flatMap.mp hd
      exact (hstep c e he).trans (ih e d hd)

/-- A match ends at a later place of the same text. -/
theorem ends_leads (r : Regex α) (c : Cursor α) : ∀ d ∈ r.ends c, c.Leads d := by
  induction r generalizing c with
  | empty =>
      intro d hd
      rw [List.mem_singleton.mp hd]
      exact .refl c
  | one p =>
      obtain ⟨before, after⟩ := c
      intro d hd
      cases after with
      | nil => cases hd
      | cons a after =>
          simp only [ends] at hd
          split at hd
          · rw [List.mem_singleton.mp hd]
            exact Cursor.leads_next before a after
          · cases hd
  | look p =>
      intro d hd
      simp only [ends] at hd
      split at hd
      · rw [List.mem_singleton.mp hd]
        exact .refl c
      · cases hd
  | seq r s ihr ihs =>
      intro d hd
      obtain ⟨e, he, hd⟩ := List.mem_flatMap.mp hd
      exact (ihr c e he).trans (ihs e d hd)
  | alt r s ihr ihs =>
      intro d hd
      exact (List.mem_append.mp hd).elim (ihr c d) (ihs c d)
  | rep r least most ih => exact rounds_leads ih _ least c

section Run

variable {p q : α → Bool}

theorem ends_one_pos {a : α} (h : p a = true) (before after : List α) :
    (one p).ends ⟨before, a :: after⟩ = [⟨a :: before, after⟩] := if_pos h

theorem ends_one_neg {a : α} (h : ¬ p a = true) (before after : List α) :
    (one p).ends ⟨before, a :: after⟩ = [] := if_neg h

/-- Only the whole run leaves the character in front that the rest begins with. -/
theorem further_one (hpq : ∀ a, p a = true → q a = false) (r : Regex α) {extra : Nat}
    {c : Cursor α} (hextra : c.after.length ≤ extra) :
    ((further (fun d => (one p).ends d) extra c).flatMap fun d => ((one q).seq r).ends d) =
      ((one q).seq r).ends (c.skip p) := by
  obtain ⟨before, after⟩ := c
  induction after generalizing before extra with
  | nil => cases extra <;> simp [further, ends, Cursor.skip]
  | cons a after ih =>
      obtain ⟨extra, rfl⟩ : ∃ n, extra = n + 1 :=
        ⟨extra - 1, by simp only [List.length_cons] at hextra; omega⟩
      cases ha : p a with
      | false =>
          have hneg : ¬ p a = true := by rw [ha]; exact Bool.false_ne_true
          rw [Cursor.skip_of_neg hneg, further, ends_one_neg hneg]
          exact List.append_nil _
      | true =>
          have hstop : ((one q).seq r).ends ⟨before, a :: after⟩ = [] := by
            have hneg : ¬ q a = true := by rw [hpq a ha]; exact Bool.false_ne_true
            rw [ends, ends_one_neg hneg]
            rfl
          have hrest : ((further (fun d => (one p).ends d) extra ⟨a :: before, after⟩).flatMap
              fun d => ((one q).seq r).ends d) = ((one q).seq r).ends (Cursor.skip p _) :=
            ih (a :: before) (Nat.le_of_succ_le_succ hextra)
          rw [Cursor.skip_of_pos ha, further, ends_one_pos ha, ← hrest]
          simp [hstop]

theorem ends_run (hpq : ∀ a, p a = true → q a = false) (r : Regex α) {a : α} (ha : p a = true)
    (before after : List α) :
    ((rep (one p) 1 none).seq ((one q).seq r)).ends ⟨before, a :: after⟩ =
      ((one q).seq r).ends (Cursor.skip p ⟨a :: before, after⟩) := by
  have hlength : (⟨a :: before, after⟩ : Cursor α).after.length ≤ (a :: after).length :=
    Nat.le_succ _
  rw [← further_one hpq r hlength]
  simp [ends, rounds, ha]

theorem ends_run_neg (s : Regex α) {a : α} (ha : ¬ p a = true) (before after : List α) :
    ((rep (one p) 1 none).seq s).ends ⟨before, a :: after⟩ = [] := by
  simp [ends, rounds, ha]

theorem ends_run_nil (s : Regex α) (before : List α) :
    ((rep (one p) 1 none).seq s).ends ⟨before, []⟩ = [] := by
  simp [ends, rounds]

end Run

end Regex

/-- A match: where it starts and where it stops. -/
structure Hit (α : Type u) where
  start : Cursor α
  stop : Cursor α
  deriving DecidableEq

namespace Hit

variable {α : Type u}

def span (hit : Hit α) : Nat × Nat := (hit.start.pos, hit.stop.pos)

/-- The matched text. -/
def group (hit : Hit α) : List α :=
  hit.start.after.take (hit.start.after.length - hit.stop.after.length)

def isEmpty (hit : Hit α) : Bool := hit.start.after.length == hit.stop.after.length

/-- The match lies behind a place, and not at it where it may not be empty there. -/
def Behind (hit : Hit α) (advance : Bool) (c : Cursor α) : Prop :=
  c.Leads hit.start ∧ hit.start.Leads hit.stop ∧
    (advance = true → hit.stop.after.length < c.after.length)

end Hit

namespace Regex

variable {α : Type u}

/-- The match at a place. -/
def hitAt (r : Regex α) (advance : Bool) (c : Cursor α) : Option (Cursor α) :=
  (r.ends c).find? fun d => !advance || decide (d.after.length < c.after.length)

/-- The leftmost match from a place on. -/
def search (r : Regex α) : Bool → List α → List α → Option (Hit α)
  | advance, before, [] => (r.hitAt advance ⟨before, []⟩).map fun stop => ⟨⟨before, []⟩, stop⟩
  | advance, before, a :: after =>
      match r.hitAt advance ⟨before, a :: after⟩ with
      | some stop => some ⟨⟨before, a :: after⟩, stop⟩
      | none => search r false (a :: before) after

/-- The matches that a search finds one behind the other. -/
def hits (next : Bool → Cursor α → Option (Hit α)) : Nat → Bool → Cursor α → List (Hit α)
  | 0, _, _ => []
  | fuel + 1, advance, c =>
      match next advance c with
      | none => []
      | some hit => hit :: hits next fuel hit.isEmpty hit.stop

/-- An empty match may follow another one at its end, so two searches for each character and
one at the end are enough (`hits_of_fuel`). -/
def hitsFuel (c : Cursor α) : Nat := 2 * c.after.length + 2

def finditer (r : Regex α) (text : List α) : List (Hit α) :=
  hits (fun advance c => r.search advance c.before c.after) (hitsFuel (.atStart text)) false
    (.atStart text)

/-- The text with each of the matches replaced, from a position on. -/
def replaceHits (marker text : List α) : Nat → List (Hit α) → List α
  | last, [] => text.drop last
  | last, hit :: rest =>
      (text.take hit.start.pos).drop last ++ marker ++
        replaceHits marker text hit.stop.pos rest

/-- `pattern.sub(marker, text)`. -/
def sub (r : Regex α) (marker text : List α) : List α :=
  replaceHits marker text 0 (r.finditer text)

theorem hitAt_false (r : Regex α) (c : Cursor α) : r.hitAt false c = (r.ends c).head? := by
  rw [hitAt]
  cases r.ends c <;> rfl

theorem hitAt_behind {r : Regex α} {advance : Bool} {c stop : Cursor α}
    (h : r.hitAt advance c = some stop) : (⟨c, stop⟩ : Hit α).Behind advance c := by
  have hpassed := List.find?_some h
  refine ⟨.refl c, ends_leads r c stop (List.mem_of_find?_eq_some h), fun hadvance => ?_⟩
  subst hadvance
  simpa using hpassed

theorem search_behind {r : Regex α} {advance : Bool} {before after : List α} {hit : Hit α}
    (h : r.search advance before after = some hit) : hit.Behind advance ⟨before, after⟩ := by
  induction after generalizing advance before with
  | nil =>
      obtain ⟨stop, hstop, rfl⟩ := Option.map_eq_some_iff.mp h
      exact hitAt_behind hstop
  | cons a after ih =>
      rw [search] at h
      cases hat : r.hitAt advance ⟨before, a :: after⟩ with
      | some stop =>
          rw [hat] at h
          obtain rfl := Option.some.inj h
          exact hitAt_behind hat
      | none =>
          rw [hat] at h
          obtain ⟨hstart, hstop, -⟩ := ih h
          refine ⟨(Cursor.leads_next before a after).trans hstart, hstop, fun _ => ?_⟩
          exact Nat.lt_succ_of_le (Nat.le_trans hstop.length_le hstart.length_le)

section Fuel

variable {next : Bool → Cursor α → Option (Hit α)}

/-- What is left to search. -/
def remaining (advance : Bool) (c : Cursor α) : Nat :=
  2 * c.after.length + if advance then 0 else 1

theorem remaining_lt {hit : Hit α} {advance : Bool} {c : Cursor α} (h : hit.Behind advance c) :
    remaining hit.isEmpty hit.stop < remaining advance c := by
  have hstart := h.1.length_le
  have hstop := h.2.1.length_le
  have hadvance := h.2.2
  unfold remaining
  cases hempty : hit.isEmpty with
  | true =>
      cases advance with
      | true =>
          have hlt := hadvance rfl
          simp only [↓reduceIte]
          omega
      | false =>
          simp only [↓reduceIte, Bool.false_eq_true]
          omega
  | false =>
      have hne : hit.start.after.length ≠ hit.stop.after.length := by
        simpa [Hit.isEmpty] using hempty
      simp only [↓reduceIte, Bool.false_eq_true]
      split <;> omega

/-- More fuel than there is left to search changes nothing. -/
theorem hits_of_fuel
    (hnext : ∀ advance c hit, next advance c = some hit → hit.Behind advance c)
    {fuel more : Nat} {advance : Bool} {c : Cursor α} (hfuel : remaining advance c < fuel)
    (hmore : remaining advance c < more) :
    hits next fuel advance c = hits next more advance c := by
  induction fuel generalizing more advance c with
  | zero => exact absurd hfuel (Nat.not_lt_zero _)
  | succ fuel ih =>
      cases more with
      | zero => exact absurd hmore (Nat.not_lt_zero _)
      | succ more =>
          rw [hits, hits]
          cases hhit : next advance c with
          | none => rfl
          | some hit =>
              have hlt := remaining_lt (hnext advance c hit hhit)
              have hrest : hits next fuel hit.isEmpty hit.stop =
                  hits next more hit.isEmpty hit.stop := ih (by omega) (by omega)
              dsimp only
              rw [hrest]

theorem hits_behind
    (hnext : ∀ advance c hit, next advance c = some hit → hit.Behind advance c)
    (fuel : Nat) (advance : Bool) (c : Cursor α) :
    ∀ hit ∈ hits next fuel advance c, c.Leads hit.start ∧ hit.start.Leads hit.stop := by
  induction fuel generalizing advance c with
  | zero => exact fun hit hhit => nomatch hhit
  | succ fuel ih =>
      intro hit hhit
      rw [hits] at hhit
      cases hfirst : next advance c with
      | none =>
          rw [hfirst] at hhit
          cases hhit
      | some first =>
          rw [hfirst] at hhit
          obtain ⟨hstart, hstop, -⟩ := hnext advance c first hfirst
          rcases List.mem_cons.mp hhit with rfl | hlater
          · exact ⟨hstart, hstop⟩
          · obtain ⟨hlate, hend⟩ := ih _ _ hit hlater
            exact ⟨(hstart.trans hstop).trans hlate, hend⟩

end Fuel

/-- The matches of a text are stretches of it. -/
theorem finditer_stretch (r : Regex α) (text : List α) :
    ∀ hit ∈ r.finditer text, hit.start.pos ≤ hit.stop.pos ∧ hit.stop.pos ≤ text.length := by
  intro hit hhit
  obtain ⟨hstart, hstop⟩ := hits_behind (fun _ _ _ h => search_behind h) _ _ _ hit hhit
  refine ⟨hstop.pos_le, ?_⟩
  have htext : hit.stop.text = text := (hstart.trans hstop).text_eq
  have hpos := hit.stop.pos_le_text
  rwa [htext] at hpos

end Regex

end Library

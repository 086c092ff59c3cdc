import Mathlib.Order.Monotone.Defs
import Mathlib.Order.Nat
import TrwMemory.Library.Glob
import TrwMemory.Library.Programs

/-!
The walk through a checkout (`lifecycle/_checkout_walk.py`): what a glob-style target matches
under a directory that is already open, without following a symlink. Each access (a listing, a
stat, an open, a read) succeeds or fails for good while a call runs; clock readings are whole
numbers of nanoseconds. The recursion limit of the interpreter is a parameter.

What a walk that returns has covered: every path that a component of the target names, and
that lies in the tree, is among the results, or the walk has recorded a refused or an
incomplete candidate. A state the walk has visited before is covered already, unless it is
still being expanded; the states being expanded lie above.
-/
namespace TrwMemory.Lifecycle.Verification

open Library Library.Glob

abbrev RelPath := List String

inductive Kind where
  | regular
  | directory
  | symlink
  /-- A socket, a FIFO or a device. -/
  | special
  deriving DecidableEq

/-- The files below the checkout root, and which accesses to them succeed. -/
structure Checkout where
  entries : RelPath → List String
  kind : RelPath → Kind
  content : RelPath → List UInt8
  /-- `os.scandir` on the open directory. -/
  scans : RelPath → Bool
  /-- `os.stat` of an entry. -/
  stats : RelPath → Bool
  /-- `open_component_fd` on a directory. -/
  opens : RelPath → Bool
  /-- `open_component_fd` on a file and the read from it. -/
  reads : RelPath → Bool

/-- `time.monotonic`, by the number of the call. -/
structure Clock where
  now : Nat → Nat
  mono : Monotone now

/-- `_Budget`, with the number of clock readings so far. -/
structure Budget where
  deadline : Nat
  work : Int
  readings : Nat

/-- What a call raises: a `TimeoutError`, which is an `OSError`, another one, or anything else. -/
inductive Fault where
  | timeout
  | os (text : String)
  | other (text : String)

/-- `_WalkResult`. -/
structure WalkResult where
  files : List RelPath
  globOnly : List RelPath
  refused : List RelPath
  incomplete : List RelPath

/-- What the walk has collected, the states it has visited, and the budget. -/
structure WalkState where
  seen : List (RelPath × List String)
  found : WalkResult
  budget : Budget

/-- A reading of the clock: `time.monotonic() >= budget.deadline`. -/
def isLate (clock : Clock) : Program Budget Fault Bool := fun budget =>
  (.ok (decide (budget.deadline ≤ clock.now budget.readings)),
    { budget with readings := budget.readings + 1 })

/-- `budget.work < 0 or time.monotonic() >= budget.deadline`. -/
def isSpent (clock : Clock) : Program Budget Fault Bool := do
  let budget ← Program.read
  if budget.work < 0 then pure true else isLate clock

/-- `itertools.takewhile(_in_time, …)`. -/
def listed (clock : Clock) : List String → Program Budget Fault (List String)
  | [] => pure []
  | name :: names => do
      if ← isLate clock then pure []
      else
        let rest ← listed clock names
        pure (name :: rest)

def onBudget {α : Type} : Program Budget Fault α → Program WalkState Fault α :=
  Program.within WalkState.budget fun s budget => { s with budget }

namespace WalkState

def visit (s : WalkState) (state : RelPath × List String) : WalkState :=
  { s with seen := state :: s.seen }

def addFile (s : WalkState) (path : RelPath) : WalkState :=
  { s with found := { s.found with files := s.found.files ++ [path] } }

def addGlobOnly (s : WalkState) (path : RelPath) : WalkState :=
  { s with found := { s.found with globOnly := s.found.globOnly ++ [path] } }

def addRefused (s : WalkState) (path : RelPath) : WalkState :=
  { s with found := { s.found with refused := s.found.refused ++ [path] } }

def addIncomplete (s : WalkState) (path : RelPath) : WalkState :=
  { s with found := { s.found with incomplete := s.found.incomplete ++ [path] } }

def charge (s : WalkState) (entries : Nat) : WalkState :=
  { s with budget := { s.budget with work := s.budget.work - (1 + entries) } }

end WalkState

/-- `e.name in excludes or e.name.endswith(".egg-info")`. -/
def isExcluded (excludes : List String) (name : String) : Bool :=
  excludes.contains name || ".egg-info".toList.isSuffixOf name.toList

/-- `target.endswith("/")`. -/
def directoriesOnly (target : String) : Bool := target.toList.getLast? == some '/'

section Walk

variable (clock : Clock) (c : Checkout) (excludes : List String) (slash : Bool)

def entriesOf (pre : RelPath) (strict : Bool) : Program WalkState Fault (List String) :=
  if c.scans pre then do
    let s ← Program.read
    let names ← onBudget (listed clock ((c.entries pre).take s.budget.work.toNat))
    Program.update fun s => s.charge names.length
    if ← onBudget (isSpent clock) then Program.fail .timeout
    else pure (names.filter fun name => !isExcluded excludes name)
  else if strict then Program.fail (.os "scandir")
  else do
    Program.update fun s => s.addIncomplete pre
    pure []

/-- The body of the loop for `**`: descend into every real directory. -/
def descend (go : RelPath → Program WalkState Fault Unit) (pre : RelPath) (name : String) :
    Program WalkState Fault Unit :=
  let path := pre ++ [name]
  if c.stats path = false then Program.update fun s => s.addIncomplete path
  else if c.kind path ≠ .directory then pure ()
  else if c.opens path = false then Program.update fun s => s.addIncomplete path
  else go path

/-- The body of the loop for any other component. -/
def candidate (go : RelPath → Program WalkState Fault Unit) (head : String)
    (tail : List String) (pre : RelPath) (name : String) : Program WalkState Fault Unit :=
  let path := pre ++ [name]
  if fnmatch name head = false then pure ()
  else if c.stats path = false then Program.update fun s => s.addIncomplete path
  else if c.kind path = .symlink then Program.update fun s => s.addRefused path
  else if tail ≠ [] then
    if c.kind path ≠ .directory then pure ()
    else if c.opens path = false then Program.update fun s => s.addRefused path
    else go path
  else if c.kind path = .regular ∧ slash = false then Program.update fun s => s.addFile path
  else if c.kind path = .directory ∨ ¬ (c.kind path = .regular ∨ slash = true) then
    Program.update fun s => s.addGlobOnly path
  else pure ()

/-- One state of the walk, that has not been visited before. -/
def expand (go : RelPath → List String → Bool → Program WalkState Fault Unit) (pre : RelPath)
    (strict : Bool) : List String → Program WalkState Fault Unit
  | [] => Program.fail (.other "tuple index out of range")
  | head :: tail =>
      if head = "**" then do
        go pre (if tail = [] then ["*"] else tail) strict
        let names ← entriesOf clock c excludes pre strict
        Program.each (descend c (fun path => go path (head :: tail) false) pre) names
      else do
        let names ← entriesOf clock c excludes pre strict
        Program.each (candidate c slash (fun path => go path tail false) head tail pre) names

/-- `walk`, as deep as the interpreter's stack allows. -/
def walk : Nat → RelPath → List String → Bool → Program WalkState Fault Unit
  | 0, _, _, _ => Program.fail (.other "maximum recursion depth exceeded")
  | depth + 1, pre, remaining, strict => do
      let s ← Program.read
      if (pre, remaining) ∈ s.seen then pure ()
      else
        Program.update fun s => s.visit (pre, remaining)
        expand clock c excludes slash (walk depth) pre strict remaining

end Walk

/-- The components of a target; `.` and empty ones are dropped. -/
def targetParts (target : String) : List String :=
  ((target.toList.splitOn '/').map String.ofList).filter fun part => part ≠ "" ∧ part ≠ "."

/-- `list(dict.fromkeys(…))` on the two lists that may repeat a path. -/
def WalkResult.distinct (found : WalkResult) : WalkResult :=
  { found with refused := found.refused.eraseDups, incomplete := found.incomplete.eraseDups }

section Checkout

variable (clock : Clock) (c : Checkout) (excludes : List String) (depth : Nat)

/-- The walk from the root and the last look at the clock. -/
def walkRoot (target : String) : Program WalkState Fault Unit := do
  walk clock c excludes (directoriesOnly target) depth [] (collapse (targetParts target)) true
  if ← onBudget (isLate clock) then Program.fail .timeout else pure ()

/-- `_walk_checkout`. -/
def walkCheckout (target : String) : Program Budget Fault (Option WalkResult) := fun budget =>
  if targetParts target = [] then (.ok none, budget)
  else
    match (walkRoot clock c excludes depth target).run ⟨[], ⟨[], [], [], []⟩, budget⟩ with
    | (.ok (), s) => (.ok (some s.found.distinct), s.budget)
    | (.error (.other text), s) => (.error (.other text), s.budget)
    | (.error _, s) => (.ok none, s.budget)

end Checkout

namespace Checkout

/-- `_read_bytes_through_checkout`. -/
def readBytes (c : Checkout) (maxBytes : Nat) (path : RelPath) : Option (List UInt8) :=
  let above := (List.range' 1 (path.length - 1)).map path.take
  if path = [] then none
  else if (above.all fun p => decide (c.kind p = .directory) && c.opens p) &&
      decide (c.kind path = .regular) && c.reads path then
    some ((c.content path).take (maxBytes + 1))
  else none

/-- The path lies in the tree below `pre`, through real directories, and no excluded name is
on it. -/
inductive Holds (c : Checkout) (excludes : List String) : RelPath → RelPath → Prop where
  | leaf {pre : RelPath} {name : String} (hentry : name ∈ c.entries pre)
      (hkept : isExcluded excludes name = false) : Holds c excludes pre [name]
  | inside {pre path : RelPath} {name : String} (hentry : name ∈ c.entries pre)
      (hkept : isExcluded excludes name = false) (hkind : c.kind (pre ++ [name]) = .directory)
      (hpath : Holds c excludes (pre ++ [name]) path) : Holds c excludes pre (name :: path)

end Checkout

open Library.Program

namespace WalkResult

/-- Something was refused or could not be enumerated. -/
def Gap (found : WalkResult) : Prop := found.refused ≠ [] ∨ found.incomplete ≠ []

/-- The results hold the path as what it is: the pattern ends at it if nothing is left over. -/
def Has (found : WalkResult) (c : Checkout) (slash : Bool) (path : RelPath)
    (rest : List String) : Prop :=
  match c.kind path, rest with
  | .symlink, _ => False
  | .regular, [] => slash = true ∨ path ∈ found.files
  | .special, [] => slash = true ∨ path ∈ found.globOnly
  | .directory, [] => path ∈ found.globOnly
  | _, _ :: _ => True

structure Within (found later : WalkResult) : Prop where
  files : found.files ⊆ later.files
  globOnly : found.globOnly ⊆ later.globOnly
  refused : found.refused ⊆ later.refused
  incomplete : found.incomplete ⊆ later.incomplete

theorem Within.refl (found : WalkResult) : found.Within found :=
  ⟨List.Subset.refl _, List.Subset.refl _, List.Subset.refl _, List.Subset.refl _⟩

theorem Within.trans {found later last : WalkResult} (h : found.Within later)
    (h' : later.Within last) : found.Within last :=
  ⟨List.Subset.trans h.files h'.files, List.Subset.trans h.globOnly h'.globOnly,
    List.Subset.trans h.refused h'.refused, List.Subset.trans h.incomplete h'.incomplete⟩

theorem Gap.mono {found later : WalkResult} (h : found.Gap) (hin : found.Within later) :
    later.Gap := by
  rcases h with h | h
  · exact .inl fun hnil => h (List.eq_nil_of_subset_nil (hnil ▸ hin.refused))
  · exact .inr fun hnil => h (List.eq_nil_of_subset_nil (hnil ▸ hin.incomplete))

theorem Has.mono {found later : WalkResult} {c : Checkout} {slash : Bool} {path : RelPath}
    {rest : List String} (h : found.Has c slash path rest) (hin : found.Within later) :
    later.Has c slash path rest := by
  unfold Has at h ⊢
  split at h
  · exact h
  · exact h.imp_right fun hfile => hin.files hfile
  · exact h.imp_right fun hglob => hin.globOnly hglob
  · exact hin.globOnly h
  · trivial

end WalkResult

section Covers

variable (c : Checkout) (excludes : List String) (slash : Bool)

/-- Nothing that the remaining pattern names below a directory is missing from the results. -/
def Covers (found : WalkResult) (state : RelPath × List String) : Prop :=
  ∀ path rest, Fits state.2 path rest → c.Holds excludes state.1 path →
    found.Gap ∨ found.Has c slash (state.1 ++ path) rest

/-- The same for the paths through one entry. -/
def CoversEntry (found : WalkResult) (state : RelPath × List String) (name : String) : Prop :=
  ∀ path rest, Fits state.2 (name :: path) rest → c.Holds excludes state.1 (name :: path) →
    found.Gap ∨ found.Has c slash (state.1 ++ name :: path) rest

/-- What the paths through one entry are covered for below a `**`, when they stay below it. -/
def CoversBelow (found : WalkResult) (state : RelPath × List String) (name : String) : Prop :=
  ∀ path rest, Fits state.2 path rest → c.Holds excludes state.1 (name :: path) →
    found.Gap ∨ found.Has c slash (state.1 ++ name :: path) rest

/-- Deeper directories come later, and in a directory `**` before what follows it. -/
def key (state : RelPath × List String) : Nat :=
  2 * state.1.length + if state.2.head? = some "**" then 0 else 1

/-- The visited states that the walk may meet again from here on are covered. -/
def Ready (s : WalkState) (state : RelPath × List String) : Prop :=
  ∀ other ∈ s.seen, key state ≤ key other → Covers c excludes slash s.found other

/-- The results have grown, and what was visited since is covered. -/
structure Advances (s t : WalkState) : Prop where
  found : s.found.Within t.found
  seen : ∀ other ∈ t.seen, other ∈ s.seen ∨ Covers c excludes slash t.found other

end Covers

section

variable {c : Checkout} {excludes : List String} {slash : Bool}

theorem Covers.mono {found later : WalkResult} {state : RelPath × List String}
    (h : Covers c excludes slash found state) (hin : found.Within later) :
    Covers c excludes slash later state := fun path rest hfits hholds =>
  (h path rest hfits hholds).imp (·.mono hin) (·.mono hin)

theorem CoversEntry.mono {found later : WalkResult} {state : RelPath × List String}
    {name : String} (h : CoversEntry c excludes slash found state name)
    (hin : found.Within later) : CoversEntry c excludes slash later state name :=
  fun path rest hfits hholds => (h path rest hfits hholds).imp (·.mono hin) (·.mono hin)

theorem CoversBelow.mono {found later : WalkResult} {state : RelPath × List String}
    {name : String} (h : CoversBelow c excludes slash found state name)
    (hin : found.Within later) : CoversBelow c excludes slash later state name :=
  fun path rest hfits hholds => (h path rest hfits hholds).imp (·.mono hin) (·.mono hin)

theorem Advances.refl (s : WalkState) : Advances c excludes slash s s :=
  ⟨.refl _, fun _ hother => .inl hother⟩

theorem Advances.trans {s t u : WalkState} (h : Advances c excludes slash s t)
    (h' : Advances c excludes slash t u) : Advances c excludes slash s u := by
  refine ⟨h.found.trans h'.found, fun other hother => ?_⟩
  rcases h'.seen other hother with ht | hcovers
  · exact (h.seen other ht).imp_right (·.mono h'.found)
  · exact .inr hcovers

/-- The budget is spent without a trace in the results. -/
theorem Advances.of_eq {s t : WalkState} (hfound : t.found = s.found) (hseen : t.seen = s.seen) :
    Advances c excludes slash s t :=
  ⟨hfound ▸ .refl _, fun _ hother => .inl (hseen ▸ hother)⟩

theorem within_addFile (s : WalkState) (path : RelPath) :
    s.found.Within (s.addFile path).found :=
  ⟨List.subset_append_left _ _, List.Subset.refl _, List.Subset.refl _, List.Subset.refl _⟩

theorem within_addGlobOnly (s : WalkState) (path : RelPath) :
    s.found.Within (s.addGlobOnly path).found :=
  ⟨List.Subset.refl _, List.subset_append_left _ _, List.Subset.refl _, List.Subset.refl _⟩

theorem within_addRefused (s : WalkState) (path : RelPath) :
    s.found.Within (s.addRefused path).found :=
  ⟨List.Subset.refl _, List.Subset.refl _, List.subset_append_left _ _, List.Subset.refl _⟩

theorem within_addIncomplete (s : WalkState) (path : RelPath) :
    s.found.Within (s.addIncomplete path).found :=
  ⟨List.Subset.refl _, List.Subset.refl _, List.Subset.refl _, List.subset_append_left _ _⟩

theorem gap_addRefused (s : WalkState) (path : RelPath) : (s.addRefused path).found.Gap :=
  .inl (List.append_ne_nil_of_right_ne_nil _ (List.cons_ne_nil _ _))

theorem gap_addIncomplete (s : WalkState) (path : RelPath) : (s.addIncomplete path).found.Gap :=
  .inr (List.append_ne_nil_of_right_ne_nil _ (List.cons_ne_nil _ _))

/-- A state that is expanded below another one may be visited. -/
theorem Ready.inner {s t : WalkState} {state inner : RelPath × List String}
    (h : Ready c excludes slash s state) (ht : Advances c excludes slash (s.visit state) t)
    (hkey : key state < key inner) : Ready c excludes slash t inner := by
  intro other hother hle
  rcases ht.seen other hother with hvisited | hcovers
  · rcases List.mem_cons.mp hvisited with rfl | hs
    · omega
    · exact (h other hs (by omega)).mono ht.found
  · exact hcovers

/-- The expanded state is covered at last. -/
theorem Advances.of_visit {s t : WalkState} {state : RelPath × List String}
    (ht : Advances c excludes slash (s.visit state) t)
    (hcovers : Covers c excludes slash t.found state) : Advances c excludes slash s t := by
  refine ⟨ht.found, fun other hother => ?_⟩
  rcases ht.seen other hother with hvisited | hother
  · rcases List.mem_cons.mp hvisited with rfl | hs
    · exact .inr hcovers
    · exact .inl hs
  · exact .inr hother

end

end TrwMemory.Lifecycle.Verification

import TrwMemory.Graph.SiblingCache
import TrwMemory.Library.Transition

/-!
Batches over sibling stores (`SiblingStoreView`): each takes the token of a store's files, looks
the store up or reads it, and adds candidates as it asks for them, while others do the same and
the stores are written. Every statement that touches what batches share is one step, the cache's
operations under their lock are one each.

A moment is the number of writes so far. Which view read a state, and when it took the token, is
kept beside the states. Reading fails or it reads the store as it is; opening is part of it.
-/
namespace TrwMemory.Graph.Sibling

open Library Library.Threads Library.Transition

/-- A store and what `stat` finds of its files. `wal` is `none` where `stat` fails, but for a file
that is not there. -/
structure StoreFiles (σ : Type) where
  content : σ
  db : Option StatKey
  wal : Option (Option StatKey)

/-- The cache's bounds, and how stores are read. -/
structure Setup (σ : Type) extends Matrices where
  maxBytes : Nat
  maxAge : Int
  limit : Nat
  listNamespaces : σ → List String
  recentVectorRecords : σ → String → Nat → List (String × StoredVector)

/-- A view as `__init__` leaves it, with the moment and the time of the token. -/
structure View where
  key : String
  token : Option FileToken
  takenAt : Nat
  takenTime : Nat
  deriving DecidableEq

inductive ViewTask where
  | statDb (key : String)
  | statWal (key : String) (db : StatKey)
  | enter (view : View)
  | listNamespaces (view : View)
  | load (view : View) (namespaces : List String)
  | install (view : View) (i : Nat)
  | batch (view : View) (i : Nat)
  | readRecords (view : View) (i : Nat) (ns : String)
  | addNamespace (view : View) (i : Nat) (ns : String) (candidates : BySpace)
  deriving DecidableEq

/-- What a batch does next, or that reading fails. -/
inductive Choice where
  | proceed | fail | leave
  | candidates (ns : String)

inductive Call (σ : Type) where
  | view (key : String)
  | write (key : String) (files : StoreFiles σ)
  | tick (time : Nat)
  | clear

/-- `views` tells which view read a state; `files` has the stores at every moment so far. -/
structure Shared (σ : Type) where
  clock : Nat
  moment : Nat
  files : Nat → String → StoreFiles σ
  cache : SiblingCandidateCache
  next : Nat
  views : Nat → View

variable {σ : Type}

def Shared.now (s : Shared σ) (key : String) : StoreFiles σ := s.files s.moment key

def Shared.withCache (s : Shared σ) (cache : SiblingCandidateCache) : Shared σ :=
  { s with cache := cache }

def Shared.view (s : Shared σ) (key : String) (token : Option FileToken) : View :=
  ⟨key, token, s.moment, s.clock⟩

variable (w : Setup σ)

def candidatesOf (content : σ) (ns : String) : BySpace :=
  groupBySpace w.toMatrices (w.recentVectorRecords content ns w.limit)

/-- What a view makes of the namespaces that it read. -/
def Shared.loaded (s : Shared σ) (view : View) (namespaces : List String) : StoreState :=
  .fresh (view.token.getD ((0, 0, 0, 0), none)) s.clock namespaces

def Shared.load (s : Shared σ) (view : View) (namespaces : List String) : Shared σ :=
  { s with
    cache.states := Function.update s.cache.states s.next (s.loaded view namespaces)
    next := s.next + 1
    views := Function.update s.views s.next view }

def perform : ViewTask → Choice → Shared σ → Shared σ × List ViewTask
  | .statDb key, _, s =>
      match (s.now key).db with
      | some db => (s, [.statWal key db])
      | none => (s, [.enter (s.view key none)])
  | .statWal key db, _, s => (s, [.enter (s.view key ((s.now key).wal.map fun wal => (db, wal)))])
  | .enter view, _, s =>
      match view.token with
      | none => (s, [.listNamespaces view])
      | some token =>
          let found := s.cache.lookup w.maxAge view.key token s.clock
          (s.withCache found.1, [match found.2 with
            | some i => .batch view i
            | none => .listNamespaces view])
  | .listNamespaces _, .fail, s => (s, [])
  | .listNamespaces view, _, s =>
      (s, [.load view (w.listNamespaces (s.now view.key).content)])
  | .load view namespaces, _, s =>
      (s.load view namespaces,
        [if view.token.isSome then .install view s.next else .batch view s.next])
  | .install view i, _, s =>
      (s.withCache (s.cache.install w.maxBytes view.key i), [.batch view i])
  | .batch view i, .candidates ns, s =>
      (s, [match Dict.get (s.cache.states i).byNamespace ns with
        | some _ => .batch view i
        | none => .readRecords view i ns])
  | .batch view i, .proceed, s => (s, [.batch view i])
  | .batch _ _, _, s => (s, [])
  | .readRecords _ _ _, .fail, s => (s, [])
  | .readRecords view i ns, _, s =>
      (s, [.addNamespace view i ns (candidatesOf w (s.now view.key).content ns)])
  | .addNamespace view i ns candidates, _, s =>
      (s.withCache (s.cache.addNamespace w.toMatrices w.maxBytes view.key i ns candidates),
        [.batch view i])

def call : Call σ → Shared σ → Option (Shared σ × List ViewTask)
  | .view key, s => some (s, [.statDb key])
  | .write key files, s => some
      ({ s with
        moment := s.moment + 1
        files := Function.update s.files (s.moment + 1)
          (Function.update (s.files s.moment) key files) }, [])
  | .tick time, s => some ({ s with clock := s.clock + time }, [])
  | .clear, s => some (s.withCache s.cache.clear, [])

def program : Program (Shared σ) ViewTask Choice (Call σ) := ⟨perform w, call⟩

/-- A process that has read nothing. -/
def start (files : String → StoreFiles σ) : Shared σ where
  clock := 0
  moment := 0
  files _ := files
  cache := ⟨fun _ => .fresh ((0, 0, 0, 0), none) 0 [], [], 0⟩
  next := 0
  views _ := ⟨"", none, 0, 0⟩

/-- What a store had at a moment since one. -/
def ReadSince (s : Shared σ) (key : String) (since : Nat) (P : σ → Prop) : Prop :=
  ∃ n, since ≤ n ∧ n ≤ s.moment ∧ P (s.files n key).content

/-- A state is of the store as it was when its view had the token or later. -/
structure Current (s : Shared σ) (i : Nat) : Prop where
  loaded : (s.views i).takenTime ≤ (s.cache.states i).loadedAt
  namespaces : ReadSince s (s.views i).key (s.views i).takenAt fun content =>
    (s.cache.states i).namespaces = w.listNamespaces content
  candidates : ∀ entry ∈ (s.cache.states i).byNamespace,
    ReadSince s (s.views i).key (s.views i).takenAt fun content =>
      entry.2 = candidatesOf w content entry.1

/-- What the views share. -/
structure Sound (s : Shared σ) : Prop where
  balanced : s.cache.Balanced w.toMatrices
  bounded : s.cache.nbytes ≤ w.maxBytes
  stores : ∀ entry ∈ s.cache.stores, entry.2 < s.next ∧ (s.views entry.2).key = entry.1
  current : ∀ i < s.next, Current w s i

/-- A view uses a state of its store with its token. -/
structure Uses (s : Shared σ) (view : View) (i : Nat) : Prop where
  known : i < s.next
  key : (s.views i).key = view.key
  token : ∀ token, view.token = some token → (s.cache.states i).token = token

structure Begun (s : Shared σ) (view : View) : Prop where
  taken : view.takenAt ≤ s.moment
  time : view.takenTime ≤ s.clock

def TaskSound (s : Shared σ) : ViewTask → Prop
  | .statDb _ | .statWal _ _ => True
  | .enter view | .listNamespaces view => Begun s view
  | .load view namespaces => Begun s view ∧
      ReadSince s view.key view.takenAt fun content => namespaces = w.listNamespaces content
  | .install view i | .batch view i | .readRecords view i _ => Uses s view i
  | .addNamespace view i ns candidates => Uses s view i ∧
      ReadSince s (s.views i).key (s.views i).takenAt fun content =>
        candidates = candidatesOf w content ns

/-- What steps leave as it is, and what only grows. -/
structure Extends (s s' : Shared σ) : Prop where
  clock : s.clock ≤ s'.clock
  moment : s.moment ≤ s'.moment
  files : ∀ n ≤ s.moment, s'.files n = s.files n
  next : s.next ≤ s'.next
  views : ∀ i < s.next, s'.views i = s.views i
  tokens : ∀ i < s.next, (s'.cache.states i).token = (s.cache.states i).token

variable {w} {s s' : Shared σ} {view : View} {i : Nat}

theorem Extends.readSince (h : Extends s s') {key : String} {since : Nat} {P : σ → Prop}
    (hread : ReadSince s key since P) : ReadSince s' key since P := by
  obtain ⟨n, hsince, hn, hP⟩ := hread
  exact ⟨n, hsince, hn.trans h.moment, by rwa [h.files n hn]⟩

theorem Extends.uses (h : Extends s s') (huses : Uses s view i) : Uses s' view i where
  known := huses.known.trans_le h.next
  key := by rw [h.views i huses.known, huses.key]
  token token htoken := by rw [h.tokens i huses.known, huses.token token htoken]

theorem Extends.begun (h : Extends s s') (hbegun : Begun s view) : Begun s' view :=
  ⟨hbegun.taken.trans h.moment, hbegun.time.trans h.clock⟩

theorem Extends.taskSound (h : Extends s s') {t : ViewTask} (ht : TaskSound w s t) :
    TaskSound w s' t := by
  cases t with
  | statDb key => trivial
  | statWal key db => trivial
  | enter view => exact h.begun ht
  | listNamespaces view => exact h.begun ht
  | load view namespaces => exact ⟨h.begun ht.1, h.readSince ht.2⟩
  | install view i => exact h.uses ht
  | batch view i => exact h.uses ht
  | readRecords view i ns => exact h.uses ht
  | addNamespace view i ns candidates =>
      refine ⟨h.uses ht.1, ?_⟩
      rw [h.views i ht.1.known]
      exact h.readSince ht.2

/-- A state that stays as it is stays current. -/
theorem Extends.current (h : Extends s s') {i : Nat} (hi : i < s.next)
    (hstate : s'.cache.states i = s.cache.states i) (hcurrent : Current w s i) :
    Current w s' i := by
  refine ⟨?_, ?_, ?_⟩
  · rw [h.views i hi, hstate]
    exact hcurrent.loaded
  · rw [h.views i hi, hstate]
    exact h.readSince hcurrent.namespaces
  · rw [h.views i hi, hstate]
    exact fun entry hentry => h.readSince (hcurrent.candidates entry hentry)

theorem Extends.refl (s : Shared σ) : Extends s s :=
  ⟨le_rfl, le_rfl, fun _ _ => rfl, le_rfl, fun _ _ => rfl, fun _ _ => rfl⟩

/-- A step that only moves states in the cache. -/
theorem sound_cache (h : Sound w s) {c : SiblingCandidateCache}
    (hstates : c.states = s.cache.states) (hbalanced : c.Balanced w.toMatrices)
    (hbounded : c.nbytes ≤ w.maxBytes)
    (hstores : ∀ entry ∈ c.stores, entry.2 < s.next ∧ (s.views entry.2).key = entry.1) :
    Sound w (s.withCache c) ∧ Extends s (s.withCache c) := by
  have hextends : Extends s (s.withCache c) :=
    ⟨le_rfl, le_rfl, fun _ _ => rfl, le_rfl, fun _ _ => rfl,
      fun i _ => congrArg StoreState.token (congrFun hstates i)⟩
  exact ⟨⟨hbalanced, hbounded, hstores, fun i hi =>
    hextends.current hi (congrFun hstates i) (h.current i hi)⟩, hextends⟩

theorem sound_lookup (h : Sound w s) (key : String) (token : FileToken) :
    Sound w (s.withCache (s.cache.lookup w.maxAge key token s.clock).1) ∧
      Extends s (s.withCache (s.cache.lookup w.maxAge key token s.clock).1) := by
  obtain ⟨hstates, hnbytes, hstores, -⟩ :=
    SiblingCandidateCache.lookup_spec h.balanced w.maxAge key token s.clock
  exact sound_cache h hstates
    (SiblingCandidateCache.balanced_lookup h.balanced w.maxAge key token s.clock)
    (hnbytes.trans h.bounded) fun entry hentry => h.stores entry (hstores entry hentry)

/-- A store stands in the cache under the path of its view only. -/
theorem Sound.only (h : Sound w s) (huses : Uses s view i) :
    ∀ entry ∈ s.cache.stores, entry.2 = i → entry.1 = view.key := by
  rintro entry hentry rfl
  rw [← (h.stores entry hentry).2, huses.key]

theorem sound_install (h : Sound w s) (huses : Uses s view i) :
    Sound w (s.withCache (s.cache.install w.maxBytes view.key i)) ∧
      Extends s (s.withCache (s.cache.install w.maxBytes view.key i)) := by
  obtain ⟨hbalanced, hbounded, hstores⟩ :=
    SiblingCandidateCache.balanced_install h.balanced (h.only huses) w.maxBytes
  refine sound_cache h (s.cache.install_states _ _ _) hbalanced hbounded fun entry hentry => ?_
  rcases hstores entry hentry with rfl | hentry
  · exact ⟨huses.known, huses.key⟩
  · exact h.stores entry hentry

theorem sound_addNamespace (h : Sound w s) (huses : Uses s view i) {ns : String}
    {candidates : BySpace} (hread : ReadSince s (s.views i).key (s.views i).takenAt fun content =>
      candidates = candidatesOf w content ns) :
    Sound w (s.withCache
        (s.cache.addNamespace w.toMatrices w.maxBytes view.key i ns candidates)) ∧
      Extends s (s.withCache
        (s.cache.addNamespace w.toMatrices w.maxBytes view.key i ns candidates)) := by
  have hstates :=
    s.cache.addNamespace_states (m := w.toMatrices) w.maxBytes view.key i ns candidates
  obtain ⟨hbalanced, hbounded, hsuffix⟩ := SiblingCandidateCache.balanced_addNamespace h.balanced
    (h.only huses) h.bounded ns candidates
  have hextends : Extends s (s.withCache
      (s.cache.addNamespace w.toMatrices w.maxBytes view.key i ns candidates)) := by
    refine ⟨le_rfl, le_rfl, fun _ _ => rfl, le_rfl, fun _ _ => rfl, fun j _ => ?_⟩
    simp only [Shared.withCache, hstates]
    by_cases hj : j = i
    · rw [hj, Function.update_self]
      rfl
    · rw [Function.update_of_ne hj]
  refine ⟨⟨hbalanced, hbounded, fun entry hentry => h.stores entry (hsuffix.subset hentry),
    fun j hj => ?_⟩, hextends⟩
  by_cases hji : j = i
  · subst hji
    obtain ⟨hloaded, hnamespaces, hcandidates⟩ := h.current j hj
    refine ⟨?_, ?_, ?_⟩
    · simp only [Shared.withCache, hstates, Function.update_self]
      exact hloaded
    · simp only [Shared.withCache, hstates, Function.update_self]
      exact hnamespaces
    · simp only [Shared.withCache, hstates, Function.update_self]
      intro entry hentry
      rcases Dict.mem_of_mem_assign hentry with rfl | hmem
      · exact hread
      · exact hcandidates entry hmem
  · refine hextends.current hj ?_ (h.current j hj)
    simp only [Shared.withCache, hstates, Function.update_of_ne hji]

theorem sound_load (h : Sound w s) (hbegun : Begun s view) {namespaces : List String}
    (hread : ReadSince s view.key view.takenAt fun content =>
      namespaces = w.listNamespaces content) :
    Sound w (s.load view namespaces) ∧ Extends s (s.load view namespaces) ∧
      Uses (s.load view namespaces) view s.next := by
  have hold : ∀ i < s.next, (s.load view namespaces).cache.states i = s.cache.states i :=
    fun i hi => Function.update_of_ne hi.ne _ _
  have hviews : ∀ i < s.next, (s.load view namespaces).views i = s.views i := fun i hi =>
    Function.update_of_ne hi.ne _ _
  have hnew : (s.load view namespaces).cache.states s.next = s.loaded view namespaces :=
    Function.update_self _ _ _
  have hview : (s.load view namespaces).views s.next = view := Function.update_self _ _ _
  have hextends : Extends s (s.load view namespaces) :=
    ⟨le_rfl, le_rfl, fun _ _ => rfl, Nat.le_succ _, hviews, fun i hi => by rw [hold i hi]⟩
  refine ⟨⟨⟨h.balanced.keys, h.balanced.once, ?_, fun i => ?_⟩, h.bounded, fun entry hentry => ?_,
    fun i hi => ?_⟩, hextends, ⟨Nat.lt_succ_self _, by rw [hview], fun token htoken => ?_⟩⟩
  · refine h.balanced.nbytes.trans (congrArg List.sum (List.map_congr_left fun entry hentry => ?_))
    exact congrArg StoreState.nbytes (hold _ (h.stores entry hentry).1).symm
  · by_cases hi : i = s.next
    · rw [hi, hnew]
      rfl
    · change (Function.update s.cache.states s.next _ i).nbytes =
        ((Function.update s.cache.states s.next _ i).byNamespace.map _).sum
      rw [Function.update_of_ne hi]
      exact h.balanced.states i
  · obtain ⟨hknown, hkey⟩ := h.stores entry hentry
    exact ⟨hknown.trans (Nat.lt_succ_self _), by rw [hviews _ hknown, hkey]⟩
  · by_cases hlast : i = s.next
    · subst hlast
      refine ⟨?_, ?_, ?_⟩
      · rw [hview, hnew]
        exact hbegun.time
      · rw [hview, hnew]
        exact hread
      · rw [hnew]
        exact nofun
    · have hi : i < s.next := Nat.lt_of_le_of_ne (Nat.lt_succ_iff.mp hi) hlast
      exact hextends.current hi (hold i hi) (h.current i hi)
  · rw [hnew, Shared.loaded, htoken]
    rfl

/-- Every step keeps the states sound and leads to sound steps. -/
theorem perform_sound (h : Sound w s) {t : ViewTask} (ht : TaskSound w s t) (choice : Choice) :
    Sound w (perform w t choice s).1 ∧ Extends s (perform w t choice s).1 ∧
      ∀ t' ∈ (perform w t choice s).2, TaskSound w (perform w t choice s).1 t' := by
  have hsame : ∀ {tasks : List ViewTask}, (∀ t' ∈ tasks, TaskSound w s t') →
      Sound w s ∧ Extends s s ∧ ∀ t' ∈ tasks, TaskSound w s t' :=
    fun htasks => ⟨h, Extends.refl s, htasks⟩
  have hnow : ∀ {P : σ → Prop} {key : String} {since : Nat}, since ≤ s.moment →
      P (s.now key).content → ReadSince s key since P :=
    fun hsince hP => ⟨s.moment, hsince, le_rfl, hP⟩
  have hview : ∀ key token, Begun s (s.view key token) := fun _ _ => ⟨le_rfl, le_rfl⟩
  cases t with
  | statDb key =>
      rw [perform]
      split
      · exact hsame (List.forall_mem_singleton.mpr trivial)
      · exact hsame (List.forall_mem_singleton.mpr (hview key none))
  | statWal key db => exact hsame (List.forall_mem_singleton.mpr (hview key _))
  | enter view =>
      rw [perform]
      split
      · exact hsame (List.forall_mem_singleton.mpr ht)
      · rename_i token htoken
        obtain ⟨hsound, hextends⟩ := sound_lookup h view.key token
        refine ⟨hsound, hextends, List.forall_mem_singleton.mpr ?_⟩
        split
        · rename_i i hi
          obtain ⟨-, -, -, hfound⟩ :=
            SiblingCandidateCache.lookup_spec h.balanced w.maxAge view.key token s.clock
          obtain ⟨hmem, hcarries⟩ := hfound i hi
          obtain ⟨hknown, hkey⟩ := h.stores _ hmem
          refine hextends.uses ⟨hknown, hkey, fun token' htoken' => hcarries.trans ?_⟩
          rw [htoken] at htoken'
          exact Option.some.inj htoken'
        · exact hextends.begun ht
  | listNamespaces view =>
      cases choice with
      | fail => exact hsame nofun
      | proceed | leave | candidates =>
          exact hsame (List.forall_mem_singleton.mpr ⟨ht, hnow ht.taken rfl⟩)
  | load view namespaces =>
      obtain ⟨hsound, hextends, huses⟩ := sound_load h ht.1 ht.2
      refine ⟨hsound, hextends, List.forall_mem_singleton.mpr ?_⟩
      split
      · exact huses
      · exact huses
  | install view i =>
      obtain ⟨hsound, hextends⟩ := sound_install h ht
      exact ⟨hsound, hextends, List.forall_mem_singleton.mpr (hextends.uses ht)⟩
  | batch view i =>
      cases choice with
      | candidates ns =>
          refine hsame (List.forall_mem_singleton.mpr ?_)
          split
          · exact ht
          · exact ht
      | proceed => exact hsame (List.forall_mem_singleton.mpr ht)
      | fail | leave => exact hsame nofun
  | readRecords view i ns =>
      cases choice with
      | fail => exact hsame nofun
      | proceed | leave | candidates =>
          obtain ⟨n, hsince, hn, -⟩ := (h.current i ht.known).namespaces
          refine hsame (List.forall_mem_singleton.mpr ⟨ht, hnow (hsince.trans hn) ?_⟩)
          rw [ht.key]
  | addNamespace view i ns candidates =>
      obtain ⟨hsound, hextends⟩ := sound_addNamespace h ht.1 ht.2
      exact ⟨hsound, hextends, List.forall_mem_singleton.mpr (hextends.uses ht.1)⟩

theorem call_sound (h : Sound w s) {e : Call σ} {r : Shared σ × List ViewTask}
    (hr : call e s = some r) :
    Sound w r.1 ∧ Extends s r.1 ∧ ∀ t ∈ r.2, TaskSound w r.1 t := by
  have hmoves : ∀ {s' : Shared σ}, s'.cache = s.cache → s'.next = s.next → s'.views = s.views →
      Extends s s' → Sound w s' := by
    intro s' hcache hnext hviews hextends
    refine ⟨by rw [hcache]; exact h.balanced, by rw [hcache]; exact h.bounded, ?_, fun i hi => ?_⟩
    · rw [hcache, hnext, hviews]
      exact h.stores
    · rw [hnext] at hi
      exact hextends.current hi (by rw [hcache]) (h.current i hi)
  cases e with
  | view key =>
      cases hr
      exact ⟨h, Extends.refl s, List.forall_mem_singleton.mpr trivial⟩
  | write key files =>
      cases hr
      have hextends : Extends s { s with
          moment := s.moment + 1
          files := Function.update s.files (s.moment + 1)
            (Function.update (s.files s.moment) key files) } :=
        ⟨le_rfl, Nat.le_succ _, fun n hn => Function.update_of_ne (by omega) _ _, le_rfl,
          fun _ _ => rfl, fun _ _ => rfl⟩
      exact ⟨hmoves rfl rfl rfl hextends, hextends, nofun⟩
  | tick time =>
      cases hr
      have hextends : Extends s { s with clock := s.clock + time } :=
        ⟨Nat.le_add_right _ _, le_rfl, fun _ _ => rfl, le_rfl, fun _ _ => rfl, fun _ _ => rfl⟩
      exact ⟨hmoves rfl rfl rfl hextends, hextends, nofun⟩
  | clear =>
      cases hr
      obtain ⟨hsound, hextends⟩ := sound_cache h (c := s.cache.clear) rfl
        (SiblingCandidateCache.balanced_clear h.balanced) (Int.natCast_nonneg w.maxBytes) nofun
      exact ⟨hsound, hextends, nofun⟩

theorem keeps : (program w).Keeps fun s pending =>
    Sound w s ∧ ∀ t ∈ pending, TaskSound w s t where
  perform t choice s rest h := by
    obtain ⟨hsound, hextends, htasks⟩ :=
      perform_sound h.1 (h.2 t (Multiset.mem_cons_self t rest)) choice
    refine ⟨hsound, fun t' ht' => ?_⟩
    rcases Multiset.mem_add.mp ht' with ht' | ht'
    · exact hextends.taskSound (h.2 t' (Multiset.mem_cons_of_mem ht'))
    · exact htasks t' (Multiset.mem_coe.mp ht')
  call e s pending r h hr := by
    obtain ⟨hsound, hextends, htasks⟩ := call_sound h.1 hr
    refine ⟨hsound, fun t' ht' => ?_⟩
    rcases Multiset.mem_add.mp ht' with ht' | ht'
    · exact hextends.taskSound (h.2 t' ht')
    · exact htasks t' (Multiset.mem_coe.mp ht')

theorem sound_start (files : String → StoreFiles σ) : Sound w (start files) :=
  ⟨⟨List.nodup_nil, List.nodup_nil, rfl, fun _ => rfl⟩, Int.natCast_nonneg w.maxBytes, nofun, nofun⟩

variable (w) in
/-- The bytes of the candidates of the states that are held. -/
def candidateBytes (s : Shared σ) : Int :=
  (s.cache.stores.map fun entry =>
    ((s.cache.states entry.2).byNamespace.map fun added => size w.toMatrices added.2).sum).sum

/-- A state of a store that carries a token and is of the store then or later. -/
structure Serves (w : Setup σ) (s : Shared σ) (key : String) (token : FileToken) (i : Nat) :
    Prop where
  key : (s.views i).key = key
  token : (s.cache.states i).token = token
  current : Current w s i

/-- In every interleaving: the cache counts the bytes of what it holds and keeps to its bound, a
state that is not held changes neither, and what a lookup finds, as what a batch has found or
loaded, carries the token asked for and is of the store as it was then or later. -/
theorem siblingCache_safe {files : String → StoreFiles σ}
    {events : List (Event ViewTask Choice (Call σ))} {s : State (Shared σ) ViewTask}
    (h : (program w).machine.run ⟨start files, 0⟩ events = some s) :
    s.shared.cache.nbytes = candidateBytes w s.shared ∧ s.shared.cache.nbytes ≤ w.maxBytes ∧
    (∀ view i ns candidates, .addNamespace view i ns candidates ∈ s.pending →
      i ∉ s.shared.cache.stores.map Prod.snd → ∀ choice,
      (perform w (.addNamespace view i ns candidates) choice s.shared).1.cache.nbytes =
          s.shared.cache.nbytes ∧
        (perform w (.addNamespace view i ns candidates) choice s.shared).1.cache.stores =
          s.shared.cache.stores) ∧
    (∀ key token i, (s.shared.cache.lookup w.maxAge key token s.shared.clock).2 = some i →
      Serves w s.shared key token i) ∧
    ∀ view i token, .batch view i ∈ s.pending → view.token = some token →
      Serves w s.shared view.key token i := by
  obtain ⟨hsound, htasks⟩ := keeps.run
    ⟨sound_start files, fun t ht => absurd ht (Multiset.notMem_zero t)⟩ h
  refine ⟨hsound.balanced.nbytes.trans ?_, hsound.bounded, ?_, ?_, ?_⟩
  · exact congrArg List.sum (List.map_congr_left fun entry _ => hsound.balanced.states entry.2)
  · intro view i ns candidates _ hgone choice
    exact SiblingCandidateCache.addNamespace_not_held (fun hget =>
      hgone (List.mem_map.mpr ⟨_, Dict.mem_of_get hget, rfl⟩)) w.maxBytes ns candidates
  · intro key token i hfound
    obtain ⟨-, -, -, hlookup⟩ := SiblingCandidateCache.lookup_spec hsound.balanced w.maxAge key
      token s.shared.clock
    obtain ⟨hmem, htoken⟩ := hlookup i hfound
    obtain ⟨hknown, hkey⟩ := hsound.stores _ hmem
    exact ⟨hkey, htoken, hsound.current i hknown⟩
  · intro view i token hbatch htoken
    have huses : Uses s.shared view i := htasks _ hbatch
    exact ⟨huses.key, huses.token token htoken, hsound.current i huses.known⟩

/-- A store of one vector in each of two namespaces, which take four bytes each. -/
def oneVector : Setup Nat where
  unit := some
  itemsize := 4
  maxBytes := 6
  maxAge := 30
  limit := 500
  listNamespaces _ := ["a", "b"]
  recentVectorRecords content ns _ :=
    [(ns, ⟨[content], some ⟨⟨"", "", 1⟩, "", "", "document", none⟩, ""⟩)]

def aStore (n : Nat) : StoreFiles Nat := ⟨n, some (0, 0, 0, n), some none⟩

def aView : View := ⟨"x", some ((0, 0, 0, 0), none), 0, 0⟩

/-- Two batches add the same candidates, then the store is written, and the first asks for more
than fits. -/
def racing : List (Event ViewTask Choice (Call Nat)) :=
  let step t := Event.step t Choice.proceed
  [.call (.view "x"), step (.statDb "x"), step (.statWal "x" (0, 0, 0, 0)), step (.enter aView),
    step (.listNamespaces aView), step (.load aView ["a", "b"]), step (.install aView 0),
    .call (.view "x"), step (.statDb "x"), step (.statWal "x" (0, 0, 0, 0)), step (.enter aView),
    .step (.batch aView 0) (.candidates "a"), .step (.batch aView 0) (.candidates "a"),
    step (.readRecords aView 0 "a"), step (.readRecords aView 0 "a"),
    step (.addNamespace aView 0 "a" (candidatesOf oneVector 0 "a")),
    step (.addNamespace aView 0 "a" (candidatesOf oneVector 0 "a")),
    .call (.write "x" (aStore 1)), .step (.batch aView 0) (.candidates "b"),
    step (.readRecords aView 0 "b"),
    step (.addNamespace aView 0 "b" (candidatesOf oneVector 1 "b"))]

theorem siblingCache_safe_racing : ∃ s : State (Shared Nat) ViewTask,
    (program oneVector).machine.run ⟨start fun _ => aStore 0, 0⟩ racing = some s ∧
      s.shared.cache.stores = [] ∧ s.shared.cache.nbytes = 0 ∧
      s.shared.cache.nbytes = candidateBytes oneVector s.shared ∧
      Serves oneVector s.shared "x" ((0, 0, 0, 0), none) 0 := by
  have hrun := (program oneVector).machine.run_endState ⟨start fun _ => aStore 0, 0⟩ racing
    (by decide)
  exact ⟨_, hrun, by decide, by decide, (siblingCache_safe hrun).1,
    (siblingCache_safe hrun).2.2.2.2 aView 0 _ (by decide) rfl⟩

end TrwMemory.Graph.Sibling

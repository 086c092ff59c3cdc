import TrwMemory.Library.Records
import TrwMemory.Library.Transition
import TrwMemory.Models.Entry

/-!
The append-only quarantine ledger (`security/quarantine_ledger.py`): its rows, the
index of the latest row of each key, and the reads that check entries against it.

What a verdict of the ledger blocks. Derived ids are joined by line breaks, so an
identity is read back exactly when no derived id contains one; over such identities a
quarantine or rejection blocks every entry that shares one of its keys, for as long as
no later row approves that key, whatever index a read finds in the cache.

`digest` is the SHA-256 of content and detail. Every commit to the file adds one row
and moves the file's change counter, so the counter is the number of rows; its
wrapping is not modelled. Failed appends roll back and leave no row.
-/
namespace TrwMemory.Security

open Library.Transition

inductive LedgerDecision where
  | quarantined | approved | rejected
  deriving DecidableEq, Repr

/-- `BLOCKING_DECISIONS`. -/
def LedgerDecision.blocks : LedgerDecision → Bool
  | .quarantined | .rejected => true
  | .approved => false

inductive LedgerKey where
  | id (ns id : String)
  | src (source : String)
  | hash (contentHash : String)
  deriving DecidableEq, Repr

structure LedgerIdentity where
  ns : String
  entryId : String
  sourceLearningId : String
  derivedIds : List String
  contentHash : String
  deriving DecidableEq, Repr

def LedgerIdentity.identityKeys (identity : LedgerIdentity) : List LedgerKey :=
  [.id identity.ns identity.entryId] ++
    (identity.derivedIds.filter fun derived => derived != "").map (.id identity.ns) ++
    (if identity.sourceLearningId != "" then [.src identity.sourceLearningId] else []) ++
    (if identity.contentHash != "" then [.hash identity.contentHash] else [])

/-- `entry_content_hash`. -/
def entryContentHash (digest : String → String) (e : MemoryEntry) : String :=
  digest (e.content ++ e.detail)

def SOURCE_LEARNING_ID : String := "source_learning_id"

/-- `entry.metadata.get("source_learning_id", "")`. -/
def entrySource (e : MemoryEntry) : String := (e.metadata.lookup SOURCE_LEARNING_ID).getD ""

/-- `LedgerIdentity.of`. -/
def LedgerIdentity.of (digest : String → String) (e : MemoryEntry) (sourceLearningId : String)
    (derivedIds : List String) : LedgerIdentity where
  ns := e.ns
  entryId := e.id
  sourceLearningId := if sourceLearningId != "" then sourceLearningId else entrySource e
  derivedIds
  contentHash := entryContentHash digest e

def entryIdentityKeys (digest : String → String) (e : MemoryEntry) : List LedgerKey :=
  [.id e.ns e.id] ++
    (if entrySource e != "" then [.src (entrySource e)] else []) ++
    (e.remoteId.filter fun remote => remote != "").toList.map .src ++
    [.hash (entryContentHash digest e)]

/-- A row of the file. -/
structure StoredRow where
  seq : Nat
  ns : String
  entryId : String
  sourceLearningId : String
  derivedIds : String
  contentHash : String
  episode : Nat
  decision : LedgerDecision
  reason : String
  actor : String
  recordedAt : Datetime
  deriving DecidableEq, Repr

structure LedgerRow where
  seq : Nat
  identity : LedgerIdentity
  episode : Nat
  decision : LedgerDecision
  reason : String
  actor : String
  recordedAt : Datetime
  deriving DecidableEq, Repr

/-- `"\n".join`. -/
def joinLines (values : List String) : String :=
  String.ofList (['\n'].intercalate (values.map String.toList))

/-- The parts of `text.split("\n")` that are not empty. -/
def splitLines (text : String) : List String :=
  (Library.Lines.parts '\n' text.toList).map String.ofList

/-- `_row`. -/
def readRow (row : StoredRow) : LedgerRow where
  seq := row.seq
  identity :=
    ⟨row.ns, row.entryId, row.sourceLearningId, splitLines row.derivedIds, row.contentHash⟩
  episode := row.episode
  decision := row.decision
  reason := row.reason
  actor := row.actor
  recordedAt := row.recordedAt

/-- `_latest_in`. -/
def latestIn (rows : List StoredRow) (keys : List LedgerKey) : Option LedgerRow :=
  (rows.map readRow).foldl
    (fun latest row =>
      if latest.all (fun l => l.seq < row.seq) && row.identity.identityKeys.any keys.contains then
        some row
      else latest)
    none

/-- One decision to append. -/
structure Append where
  identity : LedgerIdentity
  decision : LedgerDecision
  reason : String
  actor : String
  recordedAt : Datetime

/-- The episode of a new row: a quarantine after a decision that closed one opens the
next. -/
def nextEpisode (latest : Option LedgerRow) (decision : LedgerDecision) : Nat :=
  match latest with
  | none => 1
  | some row =>
      if decision == .quarantined && row.decision != .quarantined then row.episode + 1
      else row.episode

/-- The row `append` inserts; the sequence number is the next one of the file. -/
def appendedRow (rows : List StoredRow) (a : Append) : StoredRow where
  seq := rows.length + 1
  ns := a.identity.ns
  entryId := a.identity.entryId
  sourceLearningId := a.identity.sourceLearningId
  derivedIds := joinLines a.identity.derivedIds
  contentHash := a.identity.contentHash
  episode := nextEpisode (latestIn rows a.identity.identityKeys) a.decision
  decision := a.decision
  reason := a.reason
  actor := a.actor
  recordedAt := a.recordedAt

/-- The latest row of each key. -/
abbrev LedgerIndex := LedgerKey → Option LedgerRow

/-- `_build_index`. -/
def buildIndex (rows : List StoredRow) : LedgerIndex :=
  Library.LatestIndex.build (fun row => row.identity.identityKeys) (rows.map readRow)

/-- `LedgerView.blocks`. -/
def viewBlocks (digest : String → String) (index : LedgerIndex) (e : MemoryEntry) : Bool :=
  (entryIdentityKeys digest e).any fun key => (index key).any fun row => row.decision.blocks

/-- The file and the index that the process has cached, with the change counter it was
cached under and the rows it was built from. -/
structure LedgerState where
  rows : List StoredRow
  cached : Option (Nat × List StoredRow)

/-- An append of this process drops the cached index, one of another process does not.
A read that finds nothing cached took the change counter first and built the index from
the first `built` rows; more rows may be there when it caches the index. A read while
this process has the file open is not cached. -/
inductive LedgerEvent where
  | append (a : Append) (here : Bool)
  | build (counter built : Nat)

/-- The rows whose index a read returns that took the change counter `counter`; `isOpen`
says that this process has the file open. -/
def readRows (s : LedgerState) (isOpen : Bool) (counter built : Nat) : List StoredRow :=
  match if isOpen then none else s.cached with
  | some (cachedCounter, rows) => if cachedCounter = counter then rows else s.rows.take built
  | none => s.rows.take built

/-- `index`. -/
def readIndex (s : LedgerState) (isOpen : Bool) (counter built : Nat) : LedgerIndex :=
  buildIndex (readRows s isOpen counter built)

def ledgerMachine : Machine LedgerState LedgerEvent where
  step s event :=
    match event with
    | .append a here =>
        some ⟨s.rows ++ [appendedRow s.rows a], if here then none else s.cached⟩
    | .build counter built =>
        if counter ≤ built ∧ built ≤ s.rows.length then
          some ⟨s.rows, some (counter, s.rows.take built)⟩
        else none

/-- The ids can be told apart once they are joined. -/
def LedgerIdentity.Plain (identity : LedgerIdentity) : Prop :=
  ∀ id ∈ identity.derivedIds, '\n' ∉ id.toList

instance (identity : LedgerIdentity) : Decidable identity.Plain :=
  inferInstanceAs (Decidable (∀ id ∈ identity.derivedIds, _))

theorem ofList_comp_toList : String.ofList ∘ String.toList = id :=
  funext fun _ => String.ofList_toList

theorem toList_comp_ofList : String.toList ∘ String.ofList = id :=
  funext fun _ => String.toList_ofList

theorem splitLines_joinLines_iff {values : List String} (hne : ∀ v ∈ values, v ≠ "") :
    splitLines (joinLines values) = values ↔ ∀ v ∈ values, '\n' ∉ v.toList := by
  have hchars : ∀ v ∈ values.map String.toList, v ≠ [] := by
    intro v hv
    obtain ⟨value, hvalue, rfl⟩ := List.mem_map.mp hv
    exact fun hnil => hne value hvalue (String.toList_inj.mp hnil)
  have hiff := Library.Lines.parts_intercalate_iff '\n' hchars
  rw [List.forall_mem_map] at hiff
  rw [← hiff, splitLines, joinLines, String.toList_ofList]
  constructor
  · intro h
    have hparts := congrArg (List.map String.toList) h
    rwa [List.map_map, toList_comp_ofList, List.map_id] at hparts
  · intro h
    rw [h, List.map_map, ofList_comp_toList, List.map_id]

theorem splitLines_joinLines {values : List String} (h : ∀ v ∈ values, '\n' ∉ v.toList) :
    splitLines (joinLines values) = values.filter fun v => v != "" := by
  have hchars : ∀ v ∈ values.map String.toList, '\n' ∉ v := List.forall_mem_map.mpr h
  rw [splitLines, joinLines, String.toList_ofList, Library.Lines.parts_intercalate hchars,
    List.filter_map, List.map_map, ofList_comp_toList, List.map_id]
  apply List.filter_congr
  intro v _
  rw [Bool.eq_iff_iff]
  simp only [Function.comp_apply, decide_eq_true_eq, bne_iff_ne, ne_eq, String.toList_eq_nil_iff]

/-- An identity with one id or more that the model accepts is read back from the row
written for it exactly when its derived ids contain no line break. -/
theorem identity_readRow_iff {a : Append} (rows : List StoredRow)
    (hne : ∀ id ∈ a.identity.derivedIds, id ≠ "") :
    (readRow (appendedRow rows a)).identity = a.identity ↔ a.identity.Plain := by
  rw [LedgerIdentity.Plain, ← splitLines_joinLines_iff hne]
  constructor
  · exact fun h => congrArg LedgerIdentity.derivedIds h
  · intro h
    simp only [readRow, appendedRow, h]

/-- A plain identity keeps its keys, whatever ids are empty. -/
theorem identityKeys_readRow {a : Append} (rows : List StoredRow) (h : a.identity.Plain) :
    (readRow (appendedRow rows a)).identity.identityKeys = a.identity.identityKeys := by
  simp only [readRow, appendedRow, LedgerIdentity.identityKeys, splitLines_joinLines h,
    List.filter_filter, Bool.and_self]

/-- The file after decisions are appended one by one. -/
def appendAll (rows : List StoredRow) (appends : List Append) : List StoredRow :=
  appends.foldl (fun rows a => rows ++ [appendedRow rows a]) rows

theorem appendAll_append (rows : List StoredRow) (xs ys : List Append) :
    appendAll rows (xs ++ ys) = appendAll (appendAll rows xs) ys := List.foldl_append

theorem appendAll_concat (rows : List StoredRow) (xs : List Append) (a : Append) :
    appendAll rows (xs ++ [a]) = appendAll rows xs ++ [appendedRow (appendAll rows xs) a] :=
  appendAll_append rows xs [a]

/-- The new rows come after those that were there, one for each decision. -/
theorem appendAll_eq (rows : List StoredRow) (appends : List Append) :
    ∃ added, appendAll rows appends = rows ++ added ∧ added.length = appends.length ∧
      ∀ row ∈ added, ∃ a ∈ appends, ∃ earlier, row = appendedRow earlier a := by
  induction appends generalizing rows with
  | nil =>
      refine ⟨[], (List.append_nil rows).symm, rfl, ?_⟩
      intro row hrow
      cases hrow
  | cons a appends ih =>
      obtain ⟨added, hadded, hlength, hrows⟩ := ih (rows ++ [appendedRow rows a])
      refine ⟨appendedRow rows a :: added, hadded.trans (List.append_assoc ..), ?_, ?_⟩
      · simp [hlength]
      · intro row hrow
        rcases List.mem_cons.mp hrow with rfl | hrow
        · exact ⟨a, List.mem_cons_self, rows, rfl⟩
        · obtain ⟨b, hb, hrow⟩ := hrows row hrow
          exact ⟨b, List.mem_cons_of_mem a hb, hrow⟩

theorem length_appendAll (rows : List StoredRow) (appends : List Append) :
    (appendAll rows appends).length = rows.length + appends.length := by
  obtain ⟨added, hadded, hlength, -⟩ := appendAll_eq rows appends
  rw [hadded, List.length_append, hlength]

/-- An index that was built earlier is one over fewer decisions. -/
theorem take_appendAll (rows : List StoredRow) (appends : List Append) (n : Nat) :
    (appendAll rows appends).take (rows.length + n) = appendAll rows (appends.take n) := by
  by_cases hn : n ≤ appends.length
  · have hlength : rows.length + n = (appendAll rows (appends.take n)).length := by
      rw [length_appendAll, List.length_take_of_le hn]
    obtain ⟨added, hadded, -⟩ := appendAll_eq (appendAll rows (appends.take n)) (appends.drop n)
    rw [← appendAll_append, List.take_append_drop] at hadded
    rw [hadded, hlength, List.take_left']
    rfl
  · rw [List.take_of_length_le, List.take_of_length_le (by omega)]
    rw [length_appendAll]
    omega

def LedgerEvent.appends : LedgerEvent → List Append
  | .append a _ => [a]
  | .build _ _ => []

/-- A cached index was built from rows that include those its change counter tells. -/
def LedgerState.Fresh (s : LedgerState) : Prop :=
  ∀ counter rows, s.cached = some (counter, rows) →
    ∃ built, counter ≤ built ∧ built ≤ s.rows.length ∧ rows = s.rows.take built

theorem fresh_step (s : LedgerState) (event : LedgerEvent) (t : LedgerState) (hs : s.Fresh)
    (h : ledgerMachine.step s event = some t) :
    t.Fresh ∧ t.rows = appendAll s.rows event.appends := by
  cases event with
  | append a here =>
      obtain rfl := Option.some.inj h
      refine ⟨?_, rfl⟩
      intro counter rows hcached
      cases here with
      | true => cases hcached
      | false =>
          obtain ⟨built, hcounter, hbuilt, rfl⟩ := hs counter rows hcached
          refine ⟨built, hcounter, ?_, (List.take_append_of_le_length hbuilt).symm⟩
          rw [List.length_append]
          omega
  | build counter built =>
      obtain ⟨⟨hcounter, hbuilt⟩, hend⟩ := Option.ite_none_right_eq_some.mp h
      obtain rfl := Option.some.inj hend
      refine ⟨?_, rfl⟩
      intro counter' rows hcached
      cases hcached
      exact ⟨built, hcounter, hbuilt, rfl⟩

theorem fresh_run {events : List LedgerEvent} {s t : LedgerState} (hs : s.Fresh)
    (h : ledgerMachine.run s events = some t) :
    t.Fresh ∧ t.rows = appendAll s.rows (events.flatMap LedgerEvent.appends) := by
  induction events generalizing s with
  | nil =>
      obtain rfl := Option.some.inj h
      exact ⟨hs, rfl⟩
  | cons event events ih =>
      obtain ⟨mid, hmid, hrun⟩ := (ledgerMachine.run_cons _ _ _ _).mp h
      obtain ⟨hfresh, hrows⟩ := fresh_step s event mid hs hmid
      obtain ⟨htfresh, htrows⟩ := ih hfresh hrun
      refine ⟨htfresh, ?_⟩
      rw [htrows, hrows, List.flatMap_cons, appendAll_append]

theorem readRows_fresh {s : LedgerState} {counter built : Nat} (isOpen : Bool) (hs : s.Fresh)
    (hcounter : counter ≤ built) (hbuilt : built ≤ s.rows.length) :
    ∃ m, counter ≤ m ∧ m ≤ s.rows.length ∧ readRows s isOpen counter built = s.rows.take m := by
  unfold readRows
  split
  · rename_i cachedCounter rows hcached
    cases isOpen with
    | true => cases hcached
    | false =>
        split
        · rename_i hcounter'
          exact hcounter' ▸ hs cachedCounter rows hcached
        · exact ⟨built, hcounter, hbuilt, rfl⟩
  · exact ⟨built, hcounter, hbuilt, rfl⟩

theorem blocks_appendAll {digest : String → String} {rows : List StoredRow}
    {before after : List Append} {a : Append} {key : LedgerKey} {e : MemoryEntry}
    (hplain : ∀ b ∈ a :: after, b.identity.Plain) (hblocks : a.decision.blocks = true)
    (hkey : key ∈ a.identity.identityKeys)
    (hlater : ∀ b ∈ after, key ∈ b.identity.identityKeys → b.decision.blocks = true)
    (he : key ∈ entryIdentityKeys digest e) :
    viewBlocks digest (buildIndex (appendAll rows (before ++ a :: after))) e = true := by
  obtain ⟨added, hadded, -, hrows⟩ := appendAll_eq (appendAll rows (before ++ [a])) after
  rw [List.append_cons, appendAll_append, hadded, appendAll_concat, buildIndex, viewBlocks,
    List.any_eq_true]
  refine ⟨key, he, ?_⟩
  rw [List.append_assoc, List.singleton_append, List.map_append, List.map_cons]
  apply Library.LatestIndex.build_any
  · rwa [identityKeys_readRow _ (hplain a List.mem_cons_self)]
  · exact hblocks
  · intro later hmem hnames
    obtain ⟨row, hrow, rfl⟩ := List.mem_map.mp hmem
    obtain ⟨b, hb, earlier, rfl⟩ := hrows row hrow
    rw [identityKeys_readRow _ (hplain b (List.mem_cons_of_mem a hb))] at hnames
    exact hlater b hb hnames

/-- Every read that starts after a verdict was appended blocks what shares a key with it,
until a later decision approves that key; and the ids are read back as they were given. -/
structure VerdictsStick (digest : String → String) (rows : List StoredRow)
    (appends : List Append) (s : LedgerState) : Prop where
  blocked : ∀ before a after, appends = before ++ a :: after → a.decision.blocks = true →
    ∀ key ∈ a.identity.identityKeys,
      (∀ b ∈ after, b.decision = .approved → key ∉ b.identity.identityKeys) →
    ∀ e, key ∈ entryIdentityKeys digest e →
    ∀ isOpen counter built, rows.length + before.length < counter → counter ≤ built →
      built ≤ s.rows.length → viewBlocks digest (readIndex s isOpen counter built) e = true
  decoded : ∀ a ∈ appends, (∀ id ∈ a.identity.derivedIds, id ≠ "") →
    ∀ earlier, (readRow (appendedRow earlier a)).identity = a.identity

/-- A decision whose derived ids can be told apart is appended. -/
def LedgerEvent.Plain (event : LedgerEvent) : Prop := ∀ a ∈ event.appends, a.identity.Plain

instance (event : LedgerEvent) : Decidable event.Plain :=
  inferInstanceAs (Decidable (∀ a ∈ event.appends, _))

theorem plain_of_guarded {events : List LedgerEvent} {s t : LedgerState}
    (hg : ledgerMachine.Guarded (fun _ event => event.Plain) s events)
    (h : ledgerMachine.run s events = some t) :
    ∀ a ∈ events.flatMap LedgerEvent.appends, a.identity.Plain := by
  induction events generalizing s with
  | nil =>
      intro a ha
      cases ha
  | cons event events ih =>
      obtain ⟨mid, hmid, hrun⟩ := (ledgerMachine.run_cons _ _ _ _).mp h
      intro a ha
      rw [List.flatMap_cons, List.mem_append] at ha
      cases ha with
      | inl ha => exact hg.1 a ha
      | inr ha => exact ih (hg.2 mid hmid) hrun a ha

/-- A process starts with nothing cached, over a file of any rows. Of the ids that the
model accepts, exactly those without a line break are read back as they were given. -/
theorem verdicts_stick (digest : String → String) (rows : List StoredRow)
    (events : List LedgerEvent) (s : LedgerState)
    (hplain : ledgerMachine.Guarded (fun _ event => event.Plain) ⟨rows, none⟩ events)
    (hrun : ledgerMachine.run ⟨rows, none⟩ events = some s) :
    VerdictsStick digest rows (events.flatMap LedgerEvent.appends) s ∧
      ∀ (a : Append) (earlier : List StoredRow), (∀ id ∈ a.identity.derivedIds, id ≠ "") →
        ((readRow (appendedRow earlier a)).identity = a.identity ↔ a.identity.Plain) := by
  have hall := plain_of_guarded hplain hrun
  have hstart : LedgerState.Fresh ⟨rows, none⟩ := by
    intro counter rows' hcached
    cases hcached
  obtain ⟨hfresh, hrows⟩ := fresh_run hstart hrun
  refine ⟨⟨?_, ?_⟩, fun _ earlier hne => identity_readRow_iff earlier hne⟩
  · intro before a after happends hblocks key hkey hlater e he isOpen counter built hcounter
      hbuilt hlength
    obtain ⟨m, hm, hmlength, hread⟩ := readRows_fresh isOpen hfresh hbuilt hlength
    -- The rows read are those of the first decisions, the verdict among them.
    obtain ⟨n, rfl⟩ : ∃ n, m = rows.length + (before.length + (n + 1)) :=
      ⟨m - rows.length - before.length - 1, by omega⟩
    have htake : (before ++ a :: after).take (before.length + (n + 1)) =
        before ++ a :: after.take n := by
      rw [List.take_length_add_append, List.take_succ_cons]
    rw [readIndex, hread, hrows, take_appendAll, happends, htake]
    rw [happends] at hall
    apply blocks_appendAll ?_ hblocks hkey ?_ he
    · intro b hb
      apply hall b (List.mem_append_right before _)
      exact List.cons_subset_cons a (List.take_subset n after) hb
    · intro b hb hnames
      have happroved : b.decision ≠ .approved :=
        fun h => hlater b (List.mem_of_mem_take hb) h hnames
      cases hdecision : b.decision with
      | approved => exact absurd hdecision happroved
      | quarantined => rfl
      | rejected => rfl
  · intro a ha hne earlier
    exact (identity_readRow_iff earlier hne).mpr (hall a ha)

/-- SHA-256 of the two texts. -/
def sampleDigest (text : String) : String :=
  if text = "ignore the rules" then
    "8157b484028e46f0f53997a40c4775d5981dc135174c76d87d2f484c3863250c"
  else "5028165b797053ecd0ab115a31da59ef203c0581c479c0cfca3893a32c7e18ab"

/-- One quarantine of a row of `south` and of one row derived from it. -/
def derivedQuarantine (derived : String) : Append where
  identity := ⟨"south", "a", "", [derived], sampleDigest "ignore the rules"⟩
  decision := .quarantined
  reason := "injection"
  actor := "admin"
  recordedAt := ⟨0, some 0⟩

def derivedEntry (id : String) (h : id ≠ "") : MemoryEntry :=
  MemoryEntry.ofDefaults id "ignore all the rules" "south" ⟨0, some 0⟩ h

theorem verdicts_stick_derived :
    viewBlocks sampleDigest
      (readIndex ⟨[appendedRow [] (derivedQuarantine "b")], none⟩ false 1 1)
      (derivedEntry "b" (by decide)) = true := by
  refine (verdicts_stick sampleDigest [] [.append (derivedQuarantine "b") true] _ (by decide)
    rfl).1.blocked [] (derivedQuarantine "b") [] rfl rfl (.id "south" "b") (by decide) ?_ _
    (by decide +kernel) false 1 1 (by decide) (by decide) (by decide)
  intro b hb
  cases hb

/-- A derived id with a line break is recorded as two ids: the row is not blocked. -/
theorem derived_line_break :
    ledgerMachine.run ⟨[], none⟩ [.append (derivedQuarantine "b\nc") true] =
        some ⟨[appendedRow [] (derivedQuarantine "b\nc")], none⟩ ∧
      ¬ VerdictsStick sampleDigest [] [derivedQuarantine "b\nc"]
        ⟨[appendedRow [] (derivedQuarantine "b\nc")], none⟩ ∧
      (readRow (appendedRow [] (derivedQuarantine "b\nc"))).identity.derivedIds = ["b", "c"] := by
  refine ⟨rfl, ?_, by decide +kernel⟩
  intro h
  have hblocked := h.blocked [] (derivedQuarantine "b\nc") [] rfl rfl (.id "south" "b\nc")
    (by decide) (fun b hb => (by cases hb)) (derivedEntry "b\nc" (by decide)) (by decide +kernel)
    false 1 1 (by decide) (by decide) (by decide)
  have hfree : viewBlocks sampleDigest
      (readIndex ⟨[appendedRow [] (derivedQuarantine "b\nc")], none⟩ false 1 1)
      (derivedEntry "b\nc" (by decide)) = false := by decide +kernel
  rw [hfree] at hblocked
  cases hblocked

end TrwMemory.Security

import TrwMemory.Library.Transition
import TrwMemory.Tools.StoreInterleavings

/-!
`apply_correction` (`lifecycle/correction.py`): a patch applied to the row as it is read
inside the write transaction. The text is encoded before it, from a copy that may be
stale.

The scanners behind a refusal, the label policy and the content hash are parameters. A
superseded row in another store is that store's business, and the texts that a result
reports are left out.

`apply_correction` by several callers. A call encodes its text, takes the write lock, corrects
the row on a copy of its own and commits it; a prior in another store is read and closed after
the commit, and the tiers are refreshed last. Anything may be raised at any point; before the
commit that drops the copy.

A caller makes one call. The transaction of the other store, its lock and the tiers themselves
are left out.
-/
namespace TrwMemory.Lifecycle

open Library.Keyed Storage Sync Tools

/-- The stored names of `_PLAIN_FIELDS`. -/
def PLAIN_FIELDS : List Column :=
  [.status, .detail, .content, .importance, .type, .nudgeLine, .expires, .confidence,
    .evidenceLevel, .taskType, .domain, .phaseOrigin, .phaseAffinity, .teamOrigin, .protectionTier,
    .anchorValidity, .anchors, .evidence, .recurrence, .mergedFrom]

/-- `LearningPatch`: the plain fields under their stored names, `summary` as `content`. -/
structure LearningPatch (τ : Type) where
  plain : Patch
  tags : Option (List String)
  tagsAdd : Option (List String)
  assertions : Option (List Assertion)
  metadataAdd : Metadata
  supersedes : Option String
  ifRevision : Option τ

namespace LearningPatch

variable {τ : Type}

def plainFields (patch : LearningPatch τ) : Patch := fun c =>
  if c ∈ PLAIN_FIELDS then patch.plain c else none

/-- A summary or a detail is named. -/
def textChanged (patch : LearningPatch τ) : Bool :=
  patch.plain.names .content || patch.plain.names .detail

/-- Something is reported as changed, a closed prior apart. -/
def hasChanges (patch : LearningPatch τ) : Bool :=
  !patch.plainFields.fields.isEmpty || patch.tags.isSome || patch.tagsAdd.isSome ||
    patch.assertions.isSome || patch.metadataAdd ≠ ∅

/-- The text that the patch gives a row. -/
def textOf (patch : LearningPatch τ) (entry : MemoryEntry) : String :=
  (patch.plain .content).getD entry.content ++ " " ++ (patch.plain .detail).getD entry.detail

end LearningPatch

structure CorrectionRules where
  joined : Metadata → Metadata → Metadata
  contentHash : String → String
  refuses : MemoryEntry → Patch → Bool

/-- A text change refreshes the provenance hash of a row that has one. -/
def refreshesHash {τ : Type} (entry : MemoryEntry) (patch : LearningPatch τ) : Bool :=
  patch.textChanged &&
    ((entry.metadata.lookup "provenance_content_hash").any (· != "") ||
      (entry.metadata.lookup "content_hash").any (· != ""))

def collectMetadata {τ : Type} (rules : CorrectionRules) (entry : MemoryEntry)
    (patch : LearningPatch τ) : Metadata :=
  let added := if patch.metadataAdd = ∅ then entry.metadata
    else rules.joined (patch.metadataAdd ∪ entry.metadata) entry.metadata
  if refreshesHash entry patch then
    added.insert "provenance_content_hash" (rules.contentHash
      ((patch.plain .content).getD entry.content ++ (patch.plain .detail).getD entry.detail))
  else added

/-- The tags of a patch that names some. -/
def collectTags {τ : Type} (entry : MemoryEntry) (patch : LearningPatch τ) : List String :=
  let tags := patch.tags.getD entry.tags
  tags ++ ((patch.tagsAdd.getD []).eraseDups.filter fun tag => !tags.contains tag)

/-- `_collect`: the fields of the update. -/
def collect {τ : Type} (rules : CorrectionRules) (entry : MemoryEntry) (patch : LearningPatch τ) :
    Patch :=
  let fields := patch.plainFields
  let fields :=
    if patch.tags.isSome || patch.tagsAdd.isSome then fields.set .tags (collectTags entry patch)
    else fields
  let fields := patch.assertions.elim fields (fields.set .assertions)
  if collectMetadata rules entry patch = entry.metadata then fields
  else fields.set .metadata (collectMetadata rules entry patch)

inductive CorrectionOutcome where
  | updated | noChanges | invalid | notFound | conflict | failed
  deriving DecidableEq, Repr

section Transaction

variable {τ : Type} [DecidableEq τ] (digest : SyncContent → String) (d : Digests)
  (token : MemoryEntry → τ) (rules : CorrectionRules) (w : Writer) (blocks : MemoryEntry → Bool)

/-- `SQLiteBackend.update`: what it leaves, and whether it has served the row. -/
def backendUpdate (k : RowKey) (fields : Patch) (now : Datetime) (db : Db) :
    Except WriteError (Db × Bool) := do
  let statements ← updateScript digest w.backend db k blocks fields now
  let served ← backendGet blocks (execute statements db) k
  return (execute statements db, served.isSome)

/-- `_close_prior` of a row in the same store. -/
def closePrior (entry : MemoryEntry) (patch : LearningPatch τ) (prior : Option RowKey)
    (now : Datetime) (db : Db) : Except WriteError (Db × Bool) :=
  match prior with
  | none => .ok (db, false)
  | some k =>
      if patch.supersedes = none ∨ patch.supersedes = some entry.id then .ok (db, false)
      else do
        match ← backendGet blocks db k with
        | none => return (db, false)
        | some existing =>
            if existing.invalidFrom.isSome then return (db, false)
            else
              let fields := (Patch.none.set .invalidFrom (some now)).set .invalidatedBy
                (some entry.id)
              let (closed, _) ← backendUpdate digest w blocks k fields now db
              return (closed, true)

/-- The vector of a row whose text has changed is encoded again or dropped. -/
def replaceVector (current : MemoryEntry) (fields : Patch) (encodedText : String)
    (vector : Option StoredVector) (k : RowKey) (db : Db) : Option Db :=
  if !vectorExists w.backend db k then some db
  else
    let dropped := { db with vectors := db.vectors.discard (· == k) }
    let committed := (fields .content).getD current.content ++ " " ++
      (fields .detail).getD current.detail
    match vector with
    | some vector => if committed = encodedText then upsertVector d w k vector dropped
        else some dropped
    | none => some dropped

/-- After the update of the row. -/
def finishCorrection (entry current : MemoryEntry) (patch : LearningPatch τ) (fields : Patch)
    (prior : Option RowKey) (result : EmbedResult) (now : Datetime) (updated : Db) :
    Option (Db × CorrectionOutcome) :=
  let k := rowKey entry
  let text := patch.textOf entry
  let vectored :=
    if patch.textChanged then
      replaceVector d w current fields text (result.encoded d text) k updated
    else some updated
  vectored.bind fun vectored =>
    match closePrior digest w blocks entry patch prior now vectored with
    | .error _ => none
    | .ok (db, closed) =>
        some (db, if patch.hasChanges || closed then .updated else .noChanges)

/-- `apply_correction`; what is raised inside the transaction rolls it back. -/
def applyCorrection (entry : MemoryEntry) (patch : LearningPatch τ) (prior : Option RowKey)
    (result : EmbedResult) (now : Datetime) (db : Db) : Db × CorrectionOutcome :=
  if patch.textChanged && result = .failed then (db, .failed)
  else
    match backendGet blocks db (rowKey entry) with
    | .error _ => (db, .failed)
    | .ok none => (db, .notFound)
    | .ok (some current) =>
        let fields := collect rules current patch
        if patch.ifRevision.any (· ≠ revisionOf token current) then (db, .conflict)
        else if rules.refuses current fields then (db, .invalid)
        else if fields.fields.isEmpty then
          (finishCorrection digest d w blocks entry current patch fields prior result now db).getD
            (db, .failed)
        else
          match backendUpdate digest w blocks (rowKey entry) fields now db with
          | .error (.schema _) => (db, .invalid)
          | .error (.unreadable _) => (db, .failed)
          | .ok (updated, false) => (updated, .notFound)
          | .ok (updated, true) =>
              (finishCorrection digest d w blocks entry current patch fields prior result now
                updated).getD (db, .failed)

end Transaction

open Library.Transition

/-- The outcomes that report a write. -/
def CorrectionOutcome.isSuccess : CorrectionOutcome → Bool
  | .updated | .noChanges => true
  | .invalid | .notFound | .conflict | .failed => false

/-- The owning store and row of `patch.supersedes`, as the caller has resolved it. -/
inductive Prior where
  | none
  | sameStore (k : RowKey)
  | otherStore (k : RowKey)
  deriving DecidableEq, Repr

/-- The prior that is closed inside the transaction. -/
def Prior.inStore : Prior → Option RowKey
  | .sameStore k => some k
  | .none | .otherStore _ => Option.none

/-- The arguments of a call, the backends of its stores and what its encoder answers. -/
structure CorrectionCall (τ : Type) where
  w : Writer
  blocks : MemoryEntry → Bool
  otherWriter : Writer
  otherBlocks : MemoryEntry → Bool
  rules : CorrectionRules
  entry : MemoryEntry
  patch : LearningPatch τ
  prior : Prior
  result : EmbedResult

inductive CallPhase where
  | called
  | encoded
  | writing
  | written (working : Db) (outcome : CorrectionOutcome) (now : Datetime)
  /-- Committed, with a prior of another store to be read. -/
  | readingPrior (k : RowKey) (outcome : CorrectionOutcome)
  /-- The prior was read with an open window. -/
  | closing (k : RowKey) (outcome : CorrectionOutcome)
  | refreshing (outcome : CorrectionOutcome)
  | done (committed : Bool) (outcome : CorrectionOutcome)

namespace CallPhase

/-- Inside the write transaction. -/
def holdsLock : CallPhase → Bool
  | writing | written _ _ _ => true
  | called | encoded | readingPrior _ _ | closing _ _ | refreshing _ | done _ _ => false

/-- Past the commit of a correction. -/
def hasCommitted : CallPhase → Bool
  | readingPrior _ _ | closing _ _ | refreshing _ => true
  | done committed _ => committed
  | called | encoded | writing | written _ _ _ => false

/-- What a call that has ended reports. -/
def outcome : CallPhase → Option CorrectionOutcome
  | done _ outcome => some outcome
  | called | encoded | writing | written _ _ _ | readingPrior _ _ | closing _ _ | refreshing _ =>
      none

end CallPhase

/-- `commits` is the history of the corrections that were committed, not stored. -/
structure CorrectionState where
  store : Db
  other : Db
  lock : Option Nat
  phase : Nat → CallPhase
  commits : List (Nat × Datetime)

namespace CorrectionState

/-- No call has got further than its arguments. -/
def start (store other : Db) : CorrectionState := ⟨store, other, none, fun _ => .called, []⟩

variable (s : CorrectionState)

def enter (c : Nat) (phase : CallPhase) : CorrectionState :=
  { s with phase := Function.update s.phase c phase }

/-- The lock is free again. -/
def release : CorrectionState := { s with lock := none }

end CorrectionState

inductive CorrectionEvent where
  | encode (c : Nat)
  | begin (c : Nat)
  | correct (c : Nat) (now : Datetime)
  | commit (c : Nat)
  | readPrior (c : Nat)
  | closePrior (c : Nat) (now : Datetime)
  | refresh (c : Nat)
  | raise (c : Nat)
  deriving DecidableEq, Repr

section Calls

variable {τ : Type} [DecidableEq τ] (digest : SyncContent → String) (d : Digests)
  (token : MemoryEntry → τ)
  -- `refuse_overlong_text_fields`
  (overlong : LearningPatch τ → Bool)
  (calls : Nat → CorrectionCall τ)

/-- The body of the transaction. -/
def transact (c : Nat) (now : Datetime) (db : Db) : Db × CorrectionOutcome :=
  let call := calls c
  applyCorrection digest d token call.rules call.w call.blocks call.entry call.patch
    call.prior.inStore call.result now db

/-- The prior of another store that a call has to close. -/
def priorElsewhere (call : CorrectionCall τ) : Option RowKey :=
  match call.prior with
  | .otherStore k =>
      if call.patch.supersedes = none ∨ call.patch.supersedes = some call.entry.id then none
      else some k
  | .none | .sameStore _ => none

/-- What a call does next once its correction is committed. -/
def afterCommit (call : CorrectionCall τ) (outcome : CorrectionOutcome) : CallPhase :=
  match priorElsewhere call with
  | some k => .readingPrior k outcome
  | none => .refreshing outcome

def encodeStep (c : Nat) (s : CorrectionState) : Option CorrectionState :=
  let call := calls c
  match s.phase c with
  | .called =>
      if overlong call.patch then some (s.enter c (.done false .invalid))
      else if call.patch.textChanged && call.result = .failed then
        some (s.enter c (.done false .failed))
      else some (s.enter c .encoded)
  | _ => none

/-- `BEGIN IMMEDIATE` waits for the lock. -/
def beginStep (c : Nat) (s : CorrectionState) : Option CorrectionState :=
  match s.phase c, s.lock with
  | .encoded, none => some { s.enter c .writing with lock := some c }
  | _, _ => none

def correctStep (c : Nat) (now : Datetime) (s : CorrectionState) : Option CorrectionState :=
  match s.phase c with
  | .writing =>
      match transact digest d token calls c now s.store with
      | (_, .failed) => some (s.enter c (.done false .failed)).release
      | (working, outcome) => some (s.enter c (.written working outcome now))
  | _ => none

/-- A result that is returned inside the transaction commits it too. -/
def commitStep (c : Nat) (s : CorrectionState) : Option CorrectionState :=
  match s.phase c with
  | .written working outcome now =>
      if outcome.isSuccess then
        some
          { (s.enter c (afterCommit (calls c) outcome)).release with
            store := working
            commits := s.commits ++ [(c, now)] }
      else some { (s.enter c (.done false outcome)).release with store := working }
  | _ => none

def readPriorStep (c : Nat) (s : CorrectionState) : Option CorrectionState :=
  match s.phase c with
  | .readingPrior k outcome =>
      match backendGet (calls c).otherBlocks s.other k with
      | .error _ => some (s.enter c (.done true .failed))
      | .ok none => some (s.enter c (.refreshing outcome))
      | .ok (some existing) =>
          if existing.invalidFrom.isSome then some (s.enter c (.refreshing outcome))
          else some (s.enter c (.closing k outcome))
  | _ => none

def closePriorStep (c : Nat) (now : Datetime) (s : CorrectionState) : Option CorrectionState :=
  let call := calls c
  match s.phase c with
  | .closing k _ =>
      let fields := (Patch.none.set .invalidFrom (some now)).set .invalidatedBy (some call.entry.id)
      match backendUpdate digest call.otherWriter call.otherBlocks k fields now s.other with
      | .error _ => some (s.enter c (.done true .failed))
      | .ok (other, _) => some { s.enter c (.refreshing .updated) with other := other }
  | _ => none

/-- `_refresh_tiers`, and the result is returned. -/
def refreshStep (c : Nat) (s : CorrectionState) : Option CorrectionState :=
  match s.phase c with
  | .refreshing outcome => some (s.enter c (.done true outcome))
  | _ => none

/-- Anything is raised; inside the transaction that rolls it back. -/
def raiseStep (c : Nat) (s : CorrectionState) : Option CorrectionState :=
  match s.phase c with
  | .called | .encoded => some (s.enter c (.done false .failed))
  | .writing | .written _ _ _ => some (s.enter c (.done false .failed)).release
  | .readingPrior _ _ | .closing _ _ | .refreshing _ => some (s.enter c (.done true .failed))
  | .done _ _ => none

def correctionMachine : Machine CorrectionState CorrectionEvent where
  step s
    | .encode c => encodeStep overlong calls c s
    | .begin c => beginStep c s
    | .correct c now => correctStep digest d token calls c now s
    | .commit c => commitStep calls c s
    | .readPrior c => readPriorStep calls c s
    | .closePrior c now => closePriorStep digest calls c now s
    | .refresh c => refreshStep c s
    | .raise c => raiseStep c s

end Calls

end TrwMemory.Lifecycle

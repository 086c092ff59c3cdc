import TrwMemory.Models.Columns
import TrwMemory.Storage.Database
import TrwMemory.Storage.RowWrites

/-!
The entry that a store writes: built from the request and the row that was read
(`tools/store.py`, `_client_store.py`, `models/entry_factory.py`), then taken in by the
write gate (`security/_runtime_pipeline.py`).

The scanners, the rate limit and the signing key of the gate are parameters: they see an
entry, and refuse it or say what they make of its texts.
-/
namespace TrwMemory.Tools

open Storage

/-- `increment_clock`. -/
def incrementClock (clock : VectorClock) (node : String) : VectorClock :=
  clock.insert node ((clock.lookup node).getD 0 + 1)

/-- `init_clock`. -/
def initClock (node : String) : VectorClock := Finmap.singleton node 1

inductive StorePath where
  | memoryStore | clientStore | bulkStore
  deriving DecidableEq, Repr

/-- The optional fields that a path accepts; one that is not named keeps its value. -/
def StorePath.facets : StorePath → List Column
  | memoryStore =>
      [.clientProfile, .modelId, .type, .nudgeLine, .confidence, .evidenceLevel, .taskType,
        .domain, .phaseOrigin, .phaseAffinity, .teamOrigin, .protectionTier, .anchors,
        .anchorValidity]
  | clientStore => [.anchors]
  | bulkStore => []

/-- The arguments of a store, and who makes it. `installationId` is the client's. -/
structure StoreRequest where
  key : RowKey
  key_ne : key.id ≠ ""
  content : String
  detail : String
  tags : List String
  importance : Rat
  metadata : Metadata
  expires : String
  evidence : Option (List String)
  assertions : Option (List Assertion)
  source : Source
  sourceIdentity : String
  facets : Patch
  installationId : String
  localNodeId : String
  now : Datetime

namespace StoreRequest

variable (path : StorePath) (r : StoreRequest) (existing : Option MemoryEntry)

/-- The metadata of the row that was read under that of the request. -/
def entryMetadata : Metadata :=
  let metadata := r.metadata ∪ (existing.map MemoryEntry.metadata).getD ∅
  if path = .memoryStore ∨ "installation_id" ∈ metadata then metadata
  else metadata.insert "installation_id" r.installationId

def entryExpires : String :=
  if r.expires = "" then (existing.map MemoryEntry.expires).getD "" else r.expires

def entrySourceIdentity : String :=
  if r.sourceIdentity = "" then (existing.map MemoryEntry.sourceIdentity).getD ""
  else r.sourceIdentity

def fields : Patch :=
  let p : Patch := fun c => if c ∈ path.facets then r.facets c else none
  let p := r.evidence.elim p (p.set .evidence)
  let p := r.assertions.elim p (p.set .assertions)
  (((((((p.set .content (pyStrip r.content)).set .detail r.detail).set .tags r.tags).set
    .importance r.importance).set .metadata (r.entryMetadata path existing)).set .expires
      (r.entryExpires existing)).set .source r.source).set .sourceIdentity
        (r.entrySourceIdentity existing)

end StoreRequest

/-- `new_entry`; `none` is the model's `ValidationError`. -/
def newEntry (key : RowKey) (hkey : key.id ≠ "") (localNodeId : String) (now : Datetime)
    (fields : Patch) : Option MemoryEntry :=
  let entry :=
    { (MemoryEntry.ofDefaults key.id "" key.ns now hkey).patched fields with
      createdAt := now
      updatedAt := now
      vectorClock := initClock localNodeId }
  if validEntry entry then some entry else none

/-- `revise_entry`, which validates nothing. -/
def reviseEntry (existing : MemoryEntry) (localNodeId : String) (now : Datetime) (fields : Patch) :
    MemoryEntry :=
  { existing.patched fields with
    updatedAt := now
    vectorClock := incrementClock existing.vectorClock localNodeId }

/-- `_build_store_entry`, and what `memory_store` builds in its place. -/
def buildStoreEntry (path : StorePath) (r : StoreRequest) (existing : Option MemoryEntry) :
    Option MemoryEntry :=
  match existing with
  | none => newEntry r.key r.key_ne r.localNodeId r.now (r.fields path none)
  | some e => some (reviseEntry e r.localNodeId r.now (r.fields path (some e)))

def RESERVED_SYSTEM_METADATA_KEYS : List String :=
  ["quarantined", "quarantined_at", "reviewed_by", "review_decision", "security_status",
    "system_canary"]

def SYSTEM_CODE_FLAG_KEY : String := "_sys_code_flagged"

def stripReservedMetadata (e : MemoryEntry) : MemoryEntry :=
  { e with
    metadata := RESERVED_SYSTEM_METADATA_KEYS.foldl (fun metadata key => metadata.erase key)
      e.metadata }

/-- `flag_code_snippet`: the flag is the system's, whatever the entry carries. -/
def flagCodeSnippet (isCode : String → Bool) (e : MemoryEntry) : MemoryEntry :=
  if isCode (e.content ++ "\n" ++ e.detail) then
    { e with
      metadata := (e.metadata.erase SYSTEM_CODE_FLAG_KEY).insert SYSTEM_CODE_FLAG_KEY "true"
      tags := if e.tags.contains "code_snippet_flagged" then e.tags
        else e.tags ++ ["code_snippet_flagged"] }
  else { e with metadata := e.metadata.erase SYSTEM_CODE_FLAG_KEY }

/-- What the PII policy makes of the texts of an entry, and what it has found. -/
structure Screened where
  content : String
  detail : String
  nudgeLine : String
  tags : List String
  evidence : List String
  assertions : List Assertion
  piiTypes : Option String
  highEntropy : Bool

/-- The write gate: `admits` fails for the rate limit and the payload checks, `screen` for
a credential, `sign` for a missing key. -/
structure Intake where
  isCode : String → Bool
  admits : MemoryEntry → Bool
  screen : MemoryEntry → Option Screened
  sign : MemoryEntry → Option Metadata

/-- `apply_runtime_pii_policy`. -/
def applyPiiPolicy (i : Intake) (e : MemoryEntry) : Option MemoryEntry :=
  (i.screen e).map fun screened =>
    let typed := screened.piiTypes.elim e.metadata (e.metadata.insert "pii_types")
    { e with
      content := screened.content
      detail := screened.detail
      nudgeLine := screened.nudgeLine
      tags := screened.tags
      evidence := screened.evidence
      assertions := screened.assertions
      metadata :=
        if screened.highEntropy then typed.insert "contains_high_entropy_token" "true"
        else typed }

/-- `prepare_entry_for_store`; `none` is a refusal. -/
def prepareEntryForStore (i : Intake) (e : MemoryEntry) : Option MemoryEntry :=
  let flagged := flagCodeSnippet i.isCode (stripReservedMetadata e)
  if !i.admits flagged then none
  else
    (applyPiiPolicy i flagged).bind fun screened =>
      (i.sign screened).map fun provenance =>
        { screened with metadata := provenance ∪ screened.metadata }

/-- Metadata that a store may not carry over. -/
def reservedKey (key : String) : Prop :=
  key ∈ RESERVED_SYSTEM_METADATA_KEYS ∨ key = SYSTEM_CODE_FLAG_KEY

instance (key : String) : Decidable (reservedKey key) := inferInstanceAs (Decidable (_ ∨ _))

/-- The entry is a later revision of `old` by `node`: its clock has advanced there, and no
metadata key is lost but the reserved ones. -/
structure Advances (node : String) (old new : MemoryEntry) : Prop where
  clock : (old.vectorClock.lookup node).getD 0 < (new.vectorClock.lookup node).getD 0
  metadata : ∀ key ∈ old.metadata, ¬reservedKey key → key ∈ new.metadata

theorem mem_eraseAll {key : String} (reserved : List String) {metadata : Metadata}
    (hkey : key ∉ reserved) (h : key ∈ metadata) :
    key ∈ reserved.foldl (fun metadata k => metadata.erase k) metadata := by
  induction reserved generalizing metadata with
  | nil => exact h
  | cons k reserved ih =>
      obtain ⟨hne, hrest⟩ := not_or.mp (List.mem_cons.not.mp hkey)
      exact ih hrest (Finmap.mem_erase.mpr ⟨hne, h⟩)

theorem flagCodeSnippet_keeps (isCode : String → Bool) (e : MemoryEntry) :
    (flagCodeSnippet isCode e).vectorClock = e.vectorClock ∧
      ∀ key ∈ e.metadata, key ≠ SYSTEM_CODE_FLAG_KEY →
        key ∈ (flagCodeSnippet isCode e).metadata := by
  unfold flagCodeSnippet
  split
  · refine ⟨rfl, fun key hkey hne => ?_⟩
    exact Finmap.mem_insert.mpr (.inr (Finmap.mem_erase.mpr ⟨hne, hkey⟩))
  · exact ⟨rfl, fun key hkey hne => Finmap.mem_erase.mpr ⟨hne, hkey⟩⟩

theorem applyPiiPolicy_keeps {i : Intake} {e screened : MemoryEntry}
    (h : applyPiiPolicy i e = some screened) :
    screened.vectorClock = e.vectorClock ∧ ∀ key ∈ e.metadata, key ∈ screened.metadata := by
  obtain ⟨found, -, rfl⟩ := Option.map_eq_some_iff.mp h
  refine ⟨rfl, fun key hkey => ?_⟩
  have htyped : key ∈ found.piiTypes.elim e.metadata (e.metadata.insert "pii_types") := by
    cases found.piiTypes with
    | none => exact hkey
    | some types => exact Finmap.mem_insert.mpr (.inr hkey)
  dsimp only
  split
  · exact Finmap.mem_insert.mpr (.inr htyped)
  · exact htyped

/-- Intake keeps the clock, and every metadata key that is not reserved. -/
theorem prepareEntryForStore_keeps {i : Intake} {e prepared : MemoryEntry}
    (h : prepareEntryForStore i e = some prepared) :
    prepared.vectorClock = e.vectorClock ∧
      ∀ key ∈ e.metadata, ¬reservedKey key → key ∈ prepared.metadata := by
  unfold prepareEntryForStore at h
  dsimp only at h
  split at h
  · cases h
  · obtain ⟨screened, hscreened, hsigned⟩ := Option.bind_eq_some_iff.mp h
    obtain ⟨provenance, -, rfl⟩ := Option.map_eq_some_iff.mp hsigned
    obtain ⟨hclock, hkeys⟩ := applyPiiPolicy_keeps hscreened
    obtain ⟨hflagClock, hflagKeys⟩ := flagCodeSnippet_keeps i.isCode (stripReservedMetadata e)
    refine ⟨hclock.trans hflagClock, fun key hkey hfree => ?_⟩
    obtain ⟨hreserved, hflag⟩ := not_or.mp hfree
    exact Finmap.mem_union.mpr
      (.inr (hkeys key (hflagKeys key (mem_eraseAll _ hreserved hkey) hflag)))

theorem mem_entryMetadata {path : StorePath} {r : StoreRequest} {existing : MemoryEntry}
    {key : String} (h : key ∈ existing.metadata) :
    key ∈ r.entryMetadata path (some existing) := by
  have hunion : key ∈ r.metadata ∪ ((some existing).map MemoryEntry.metadata).getD ∅ :=
    Finmap.mem_union.mpr (.inr h)
  unfold StoreRequest.entryMetadata
  dsimp only
  split
  · exact hunion
  · exact Finmap.mem_insert.mpr (.inr hunion)

/-- The metadata of an entry is that of its request. -/
theorem fields_metadata (path : StorePath) (r : StoreRequest) (existing : Option MemoryEntry) :
    r.fields path existing .metadata = some (r.entryMetadata path existing) := by
  unfold StoreRequest.fields
  rw [Patch.set_other _ _ (by decide), Patch.set_other _ _ (by decide),
    Patch.set_other _ _ (by decide), Patch.set_self]

/-- A prepared revision has advanced from the row that it was built from. -/
theorem advances_of_prepared {path : StorePath} {r : StoreRequest} {i : Intake}
    {existing built prepared : MemoryEntry}
    (hbuilt : buildStoreEntry path r (some existing) = some built)
    (hprepared : prepareEntryForStore i built = some prepared) :
    Advances r.localNodeId existing prepared := by
  obtain rfl := Option.some.inj hbuilt
  obtain ⟨hclock, hkeys⟩ := prepareEntryForStore_keeps hprepared
  constructor
  · rw [hclock]
    change _ < ((incrementClock existing.vectorClock r.localNodeId).lookup _).getD 0
    rw [incrementClock, Finmap.lookup_insert, Option.getD_some]
    exact Int.lt_succ _
  · intro key hkey hfree
    refine hkeys key ?_ hfree
    change key ∈ (r.fields path (some existing) .metadata).getD existing.metadata
    rw [fields_metadata, Option.getD_some]
    exact mem_entryMetadata hkey

end TrwMemory.Tools

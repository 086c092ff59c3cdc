import TrwMemory.Models.Entry

/-!
The evidence-level invariant (`security/_evidence_invariant.py`): `verified`
confidence needs observed or verified evidence. A write may not introduce a
violation, and a row that already violates is served demoted.

Storage is never rewritten here. That the evidence itself is true is not claimed.
-/
namespace TrwMemory

structure SchemaValidationError where
  message : String
  failedFields : List String
  reason : String
  deriving DecidableEq, Repr

def EvidenceLevel.value : EvidenceLevel → String
  | .observed => "observed"
  | .verified => "verified"
  | .inferred => "inferred"
  | .unknown => "unknown"

def SERVED_CONFIDENCE_DEMOTED_KEY : String := "served_confidence_demoted"

def violatesEvidenceInvariant (entry : MemoryEntry) : Bool :=
  entry.confidence == .verified &&
    !(entry.evidenceLevel == .observed || entry.evidenceLevel == .verified)

/-- A change of content or detail authors a new claim. -/
def sameClaim (existing entry : MemoryEntry) : Bool :=
  existing.content == entry.content && existing.detail == entry.detail

def storedNote : String :=
  "; the stored row already has confidence='verified' with unsubstantiated evidence, and a " ++
  "change to its content or detail is a new claim -- in the same request also give " ++
  "evidence_level as 'observed' or 'verified', or lower confidence"

def refuseNewViolation (existing : Option MemoryEntry) (entry : MemoryEntry) :
    Except SchemaValidationError Unit :=
  if !violatesEvidenceInvariant entry then .ok ()
  else if existing.any fun e => violatesEvidenceInvariant e && sameClaim e entry then .ok ()
  else
    .error
      { message :=
          "confidence='verified' requires evidence_level in \x7b'observed', 'verified'\x7d, got " ++
          "evidence_level='" ++ entry.evidenceLevel.value ++ "'" ++
          if existing.any violatesEvidenceInvariant then storedNote else ""
        failedFields := ["confidence", "evidence_level"]
        reason := "verified_requires_observed_or_verified_evidence" }

/-- A violating entry is admitted over an entry that carries the same claim. -/
theorem refuseNewViolation_ok {existing : Option MemoryEntry} {entry : MemoryEntry} :
    refuseNewViolation existing entry = .ok () ↔
      (violatesEvidenceInvariant entry = true →
        (existing.any fun e => violatesEvidenceInvariant e && sameClaim e entry) = true) := by
  unfold refuseNewViolation
  cases hv : violatesEvidenceInvariant entry with
  | false => exact ⟨fun _ h => (by cases h), fun _ => rfl⟩
  | true =>
      cases hc : existing.any fun e => violatesEvidenceInvariant e && sameClaim e entry with
      | true => exact ⟨fun _ _ => rfl, fun _ => rfl⟩
      | false => exact ⟨fun h => (by cases h), fun h => (by cases h rfl)⟩

/-- The entry as a caller sees it. -/
def servedView (entry : MemoryEntry) : MemoryEntry :=
  if !violatesEvidenceInvariant entry then entry
  else
    { entry with
      confidence := .unverified
      metadata := entry.metadata.insert SERVED_CONFIDENCE_DEMOTED_KEY "true" }

theorem servedView_of_conforms {entry : MemoryEntry}
    (h : violatesEvidenceInvariant entry = false) : servedView entry = entry := by
  rw [servedView, h]
  rfl

theorem servedView_of_violates {entry : MemoryEntry}
    (h : violatesEvidenceInvariant entry = true) :
    servedView entry =
      { entry with
        confidence := .unverified
        metadata := entry.metadata.insert SERVED_CONFIDENCE_DEMOTED_KEY "true" } := by
  rw [servedView, h]
  rfl

theorem servedView_fields (entry : MemoryEntry) :
    ∃ confidence metadata, servedView entry = { entry with confidence, metadata } := by
  cases h : violatesEvidenceInvariant entry with
  | false => exact ⟨entry.confidence, entry.metadata, servedView_of_conforms h⟩
  | true => exact ⟨_, _, servedView_of_violates h⟩

/-- What a caller sees is never a violation. -/
theorem servedView_conforms (entry : MemoryEntry) :
    violatesEvidenceInvariant (servedView entry) = false := by
  cases h : violatesEvidenceInvariant entry with
  | false => rwa [servedView_of_conforms h]
  | true =>
      rw [servedView_of_violates h]
      rfl

@[simp]
theorem servedView_servedView (entry : MemoryEntry) :
    servedView (servedView entry) = servedView entry :=
  servedView_of_conforms (servedView_conforms entry)

section Fields

variable (entry : MemoryEntry)

@[simp]
theorem servedView_id : (servedView entry).id = entry.id := by
  obtain ⟨_, _, h⟩ := servedView_fields entry
  rw [h]

@[simp]
theorem servedView_ns : (servedView entry).ns = entry.ns := by
  obtain ⟨_, _, h⟩ := servedView_fields entry
  rw [h]

@[simp]
theorem servedView_syncSeq : (servedView entry).syncSeq = entry.syncSeq := by
  obtain ⟨_, _, h⟩ := servedView_fields entry
  rw [h]

@[simp]
theorem servedView_syncHash : (servedView entry).syncHash = entry.syncHash := by
  obtain ⟨_, _, h⟩ := servedView_fields entry
  rw [h]

@[simp]
theorem servedView_lastSyncedAt : (servedView entry).lastSyncedAt = entry.lastSyncedAt := by
  obtain ⟨_, _, h⟩ := servedView_fields entry
  rw [h]

end Fields

end TrwMemory

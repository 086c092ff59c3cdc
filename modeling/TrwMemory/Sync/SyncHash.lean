import TrwMemory.Models.Entry
import Mathlib.Data.Rat.Floor

/-!
What `compute_sync_hash` covers (`sync/delta.py`). `SyncContent` is the canonical
form of `_HASH_FIELDS`, whose serialisation is injective; `digest` stands for that
serialisation followed by SHA-256. That it is collision free is never built in.
-/
namespace TrwMemory.Sync

/-- The nearest integer, ties to even. -/
def roundHalfEven (value : Rat) : Int :=
  let low := value.floor
  let rest := value - low
  if rest < 1 / 2 then low
  else if 1 / 2 < rest then low + 1
  else if low % 2 = 0 then low
  else low + 1

/-- The value of `float(f"{value:.6f}")`, in millionths. -/
def millionths (value : Rat) : Int := roundHalfEven (value * 1000000)

/-- `_HASH_FIELDS`, normalised. -/
structure SyncContent where
  content : String
  detail : String
  tags : List String
  evidence : List String
  importance : Int
  status : MemoryStatus
  type : MemoryType
  confidence : Confidence
  domain : List String
  phaseAffinity : List String
  metadata : Metadata
  invalidFrom : Option Datetime
  invalidatedBy : Option String
  deriving DecidableEq

def syncContent (e : MemoryEntry) : SyncContent where
  content := e.content
  detail := e.detail
  tags := e.tags
  evidence := e.evidence
  importance := millionths e.importance
  status := e.status
  type := e.type
  confidence := e.confidence
  domain := e.domain
  phaseAffinity := e.phaseAffinity
  metadata := e.metadata
  invalidFrom := e.invalidFrom
  invalidatedBy := e.invalidatedBy

def computeSyncHash (digest : SyncContent → String) (e : MemoryEntry) : String :=
  digest (syncContent e)

end TrwMemory.Sync

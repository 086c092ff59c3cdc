import Mathlib.Data.Rat.Defs

/-!
Generation identity of stored vectors (`embeddings/provenance.py`). The two SHA-256
digests are parameters; `vectorDigest` is `none` where the source raises.

A vector is the list of its float32 values.
-/
namespace TrwMemory

structure EmbeddingSpace where
  artifactSha256 : String
  encoding : String
  dimensions : Nat
  deriving DecidableEq, Repr

structure VectorProvenance where
  space : EmbeddingSpace
  inputSha256 : String
  vectorSha256 : String
  inputRole : String
  parentInputSha256 : Option String
  deriving DecidableEq, Repr

/-- A stored vector. `source` is not stored: it is the text of the row that the
vector was computed from, for a derived vector the text of its parent. -/
structure StoredVector where
  embedding : List Rat
  provenance : Option VectorProvenance
  source : String
  deriving DecidableEq, Repr

structure Digests where
  inputDigest : String → String
  vectorDigest : List Rat → Option String

namespace Digests

variable (d : Digests)

/-- `VectorProvenance.for_vector` of a document. -/
def forVector (space : EmbeddingSpace) (text : String) (embedding : List Rat) :
    Option VectorProvenance :=
  if embedding.length ≠ space.dimensions then none
  else
    (d.vectorDigest embedding).map fun digest =>
      { space
        inputSha256 := d.inputDigest text
        vectorSha256 := digest
        inputRole := "document"
        parentInputSha256 := none }

/-- `generation_provenance_kwargs`: no space or no proof leaves the vector unqualified. -/
def generationProvenance (space : Option EmbeddingSpace) (text : String) (embedding : List Rat) :
    Option VectorProvenance :=
  space.bind fun space => d.forVector space text embedding

def matchesVector (p : VectorProvenance) (embedding : List Rat) : Bool :=
  embedding.length == p.space.dimensions && d.vectorDigest embedding == some p.vectorSha256

theorem forVector_eq {space : EmbeddingSpace} {text : String} {embedding : List Rat}
    {p : VectorProvenance} (h : d.forVector space text embedding = some p) :
    p.inputSha256 = d.inputDigest text ∧ d.matchesVector p embedding = true := by
  unfold forVector at h
  split at h
  · cases h
  · rename_i hdims
    obtain ⟨digest, hdigest, rfl⟩ := Option.map_eq_some_iff.mp h
    refine ⟨rfl, ?_⟩
    simp [matchesVector, hdigest, Decidable.not_not.mp hdims]

/-- A generated proof names its input, and passes its own check. -/
theorem generationProvenance_eq {space : Option EmbeddingSpace} {text : String}
    {embedding : List Rat} {p : VectorProvenance}
    (h : d.generationProvenance space text embedding = some p) :
    p.inputSha256 = d.inputDigest text ∧ d.matchesVector p embedding = true := by
  obtain ⟨space, rfl, hproof⟩ := Option.bind_eq_some_iff.mp h
  exact d.forVector_eq hproof

end Digests

end TrwMemory

import Mathlib.Data.Prod.Lex
import Mathlib.Data.String.Basic
import Mathlib.Order.Lattice.Nat
import TrwMemory.Library.StableSort
import TrwMemory.Library.Table
import TrwMemory.Models.Timestamps

/-!
Tag neighbours, derived from the `memory_tags` index (`retrieval/tag_derivation.py`): the
entries of the root's namespace that share enough of its tags, the most shared first. A tag with
too many postings counts for no relation.
-/
namespace TrwMemory.Retrieval

open Library Library.Keyed

/-- A row of `memory_tags`. -/
structure TagRow where
  ns : String
  tag : String
  entryId : String
  deriving DecidableEq, Repr

structure TagConfig where
  graphTagMinSharedTags : Nat
  graphTagMaxTagPostings : Nat
  graphTagDeriveTopK : Nat

structure DerivedTagNeighbour where
  entryId : String
  sharedTags : Nat
  weight : Rat
  deriving DecidableEq, Repr

section

variable (tags : List TagRow) (config : TagConfig) (ns rootId : String)

/-- The root's tags, without those whose posting list is too long. -/
def rootTags : List String :=
  ((tags.filter fun t => t.ns == ns && t.entryId == rootId).map TagRow.tag).filter fun tag =>
    decide ((tags.countP fun t => t.ns == ns && t.tag == tag) ≤ config.graphTagMaxTagPostings)

def sharedCount (entryId : String) : Nat :=
  tags.countP fun t =>
    t.ns == ns && t.entryId == entryId && (rootTags tags config ns rootId).contains t.tag

def tagCount (entryId : String) : Nat := tags.countP fun t => t.ns == ns && t.entryId == entryId

def tagWeight (entryId : String) : Rat :=
  let shared := sharedCount tags config ns rootId entryId
  let union : Int := tagCount tags ns rootId + tagCount tags ns entryId - shared
  if 0 < union then min (round4 (shared / union)) 1 else 0

/-- The entries that share a tag with the root, and enough of them. -/
def sharingIds : List String :=
  ((tags.filter fun t => t.ns == ns && (rootTags tags config ns rootId).contains t.tag &&
    t.entryId != rootId).map TagRow.entryId).eraseDups.filter fun entryId =>
      decide (config.graphTagMinSharedTags ≤ sharedCount tags config ns rootId entryId)

def deriveTagNeighbours : List DerivedTagNeighbour :=
  if (rootTags tags config ns rootId).length < config.graphTagMinSharedTags then []
  else
    ((sortBy (fun entryId => toLex
        (OrderDual.toDual (sharedCount tags config ns rootId entryId), entryId))
      (sharingIds tags config ns rootId)).take config.graphTagDeriveTopK).map fun entryId =>
        ⟨entryId, sharedCount tags config ns rootId entryId,
          tagWeight tags config ns rootId entryId⟩

end

end TrwMemory.Retrieval

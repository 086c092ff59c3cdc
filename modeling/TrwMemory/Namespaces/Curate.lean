import TrwMemory.Library.Transition
import TrwMemory.Storage.BatchObjects
import TrwMemory.Storage.ListPaging

/-!
Moving the rows of one namespace onto another, batch by batch
(`namespaces/curate.py`). The rows of a namespace are a table by id, whether both are in
one store or in two. A batch is one transaction: one that raises changes nothing. Between
batches tenants write rows of either namespace.

Vectors and graph edges travel with the rows and are left out, and so are stores without
transactions and the texts of errors.
-/
namespace TrwMemory.Namespaces

open Library.Keyed Library.Keyset Library.Transition Storage Sync

structure NamespaceRows where
  table : Table String MemoryEntry
  keyed : ∀ id row, table.find id = some row → row.id = id

namespace NamespaceRows

def find (t : NamespaceRows) (id : String) : Option MemoryEntry := t.table.find id

/-- `count`. -/
def count (t : NamespaceRows) : Nat := t.table.rows.length

def entries (t : NamespaceRows) : List MemoryEntry := t.table.rows.map Prod.snd

def put (t : NamespaceRows) (row : MemoryEntry) : NamespaceRows where
  table := t.table.put row.id row
  keyed := by
    intro id row' h
    rw [Table.find_put] at h
    split at h
    · rename_i hid
      obtain rfl := Option.some.inj h
      exact hid.symm
    · exact t.keyed id row' h

def discard (t : NamespaceRows) (p : String → Bool) : NamespaceRows where
  table := t.table.discard p
  keyed := by
    intro id row h
    rw [Table.find_discard] at h
    split at h
    · cases h
    · exact t.keyed id row h

theorem find_put (t : NamespaceRows) (row : MemoryEntry) (id : String) :
    (t.put row).find id = if id = row.id then some row else t.find id :=
  Table.find_put _ _ _ _

theorem find_discard (t : NamespaceRows) (p : String → Bool) (id : String) :
    (t.discard p).find id = if p id then none else t.find id :=
  Table.find_discard _ _ _

theorem mem_entries (t : NamespaceRows) {row : MemoryEntry} :
    row ∈ t.entries ↔ t.find row.id = some row := by
  rw [entries, List.mem_map, find, ← Table.mem_rows]
  constructor
  · rintro ⟨⟨id, row'⟩, hmem, rfl⟩
    have hid := t.keyed id row' ((Table.mem_rows _ _ _).mp hmem)
    exact hid ▸ hmem
  · exact fun h => ⟨_, h, rfl⟩

end NamespaceRows

/-- The rows that the predicate path of a read keeps (`storage/_temporal_fetch.py`): 256
are mapped at a time, until there are enough. -/
def fetchKept (blocks : MemoryEntry → Bool) :
    Nat → Nat → List MemoryEntry → Except MapError (List MemoryEntry)
  | 0, _, _ => .ok []
  | _ + 1, _, [] => .ok []
  | fuel + 1, limit, row :: rows =>
      match fetchRows ((row :: rows).take 256) with
      | .error error => .error error
      | .ok served =>
          let kept := served.filter fun e => !blocks e
          if limit ≤ kept.length then .ok (kept.take limit)
          else
            (fetchKept blocks fuel (limit - kept.length) ((row :: rows).drop 256)).map (kept ++ ·)

/-- The rows that a cursor leaves to be read, in the order of the listing. -/
def ahead (t : NamespaceRows) (after : Option EntryCursor) : List MemoryEntry :=
  (sortOn listKey t.entries).filter fun row => after.all fun cursor => cursor.selects row

/-- `list_entries` of one namespace behind the ledger (`_quarantine_limited`): the plain
read, and where it lost rows of a full page, the read with the predicate. -/
def listBatch (blocks : MemoryEntry → Bool) (t : NamespaceRows) (limit : Nat)
    (after : Option EntryCursor) : Except MapError (List MemoryEntry) :=
  let selected := ahead t after
  match fetchRows (selected.take limit) with
  | .error error => .error error
  | .ok raw =>
      let kept := raw.filter fun e => !blocks e
      if kept.length = raw.length ∨ raw.length < limit then .ok kept
      else fetchKept blocks selected.length limit selected

structure MoveProgress where
  merge : Bool
  started : Bool
  complete : Bool
  sourceRows : Nat
  moved : Nat
  skipped : Nat
  passMoved : Nat
  cursor : Option EntryCursor
  deriving DecidableEq, Repr

def MoveProgress.start (merge : Bool) : MoveProgress := ⟨merge, false, false, 0, 0, 0, 0, none⟩

/-- What a batch raises: `ConfigError` of a rename onto rows that it did not move, or onto
an id that is taken; `StorageError` of a cursor that did not advance, or of a source that
did not drain; errors of reads and of writes. -/
inductive MoveError where
  | populated (held moved : Nat)
  | taken (id : String)
  | notAdvanced (id : String)
  | incomplete (remaining skipped : Nat)
  | read (error : MapError)
  | write (id : String)
  deriving DecidableEq, Repr

structure MoveStores where
  source : NamespaceRows
  destination : NamespaceRows

section Batch

variable (digest : SyncContent → String) (destinationNs : String)

/-- The row that `store_many` writes for an entry of the source. -/
def movedRow (e : MemoryEntry) : MemoryEntry := stampSync digest { e with ns := destinationNs }

/-- `store_many` of entries whose ids are free. -/
def storeMoved (t : NamespaceRows) (moving : List MemoryEntry) : Except MoveError NamespaceRows :=
  match moving.find? fun e => !((storeRow digest none { e with ns := destinationNs }).isOk &&
      bindable (movedRow digest destinationNs e)) with
  | some e => .error (.write e.id)
  | none => .ok (moving.foldl (fun t e => t.put (movedRow digest destinationNs e)) t)

/-- `_move_entries`: the stores after it, and how many rows were moved and skipped. -/
def moveEntries (s : MoveStores) (batch : List MemoryEntry) (skipConflicts : Bool) :
    Except MoveError (MoveStores × Nat × Nat) := do
  let taken := (batch.map MemoryEntry.id).filter fun id => (s.destination.find id).isSome
  if !skipConflicts && taken ≠ [] then
    throw (.taken (taken.foldl min (taken.headD "")))
  let moving := batch.filter fun e => !taken.contains e.id
  let destination ← storeMoved digest destinationNs s.destination moving
  return (⟨s.source.discard (moving.map MemoryEntry.id).contains, destination⟩,
    moving.length, batch.length - moving.length)

/-- `_end_of_pass`. -/
def endOfPass (source : NamespaceRows) (p : MoveProgress) : Except MoveError MoveProgress :=
  if source.count = p.skipped then .ok { p with complete := true }
  else if p.passMoved ≠ 0 then .ok { p with cursor := none, skipped := 0, passMoved := 0 }
  else .error (.incomplete source.count p.skipped)

/-- `move_batch` after the first batch has counted the source. -/
def moveNext (blocks : MemoryEntry → Bool) (limit : Nat) (s : MoveStores) (p : MoveProgress) :
    Except MoveError (MoveStores × MoveProgress) :=
  match listBatch blocks s.source limit p.cursor with
  | .error error => .error (.read error)
  | .ok batch =>
      match batch.getLast? with
      | none => (endOfPass s.source p).map fun p => (s, p)
      | some last => do
          if !p.merge && s.destination.count ≠ p.moved then
            throw (.populated s.destination.count p.moved)
          let cursor := EntryCursor.fromEntry last
          if p.cursor = some cursor then
            throw (.notAdvanced cursor.entryId)
          let (s, moved, skipped) ← moveEntries digest destinationNs s batch p.merge
          let p := { p with
            cursor := some cursor
            moved := p.moved + moved
            skipped := p.skipped + skipped
            passMoved := p.passMoved + moved }
          if batch.length < limit then (endOfPass s.source p).map fun p => (s, p)
          else return (s, p)

/-- `move_batch`. -/
def moveBatch (blocks : MemoryEntry → Bool) (limit : Nat) (s : MoveStores) (p : MoveProgress) :
    Except MoveError (MoveStores × MoveProgress) :=
  if p.started then moveNext digest destinationNs blocks limit s p
  else
    let p := { p with started := true, sourceRows := s.source.count }
    if p.sourceRows = 0 then .ok (s, { p with complete := true })
    else moveNext digest destinationNs blocks limit s p

/-- The loop of `_move_all`, for as many batches as are given. -/
def moveAll : List ((MemoryEntry → Bool) × Nat) → MoveStores → MoveProgress →
    Except MoveError (MoveStores × MoveProgress)
  | [], s, p => .ok (s, p)
  | (blocks, limit) :: rest, s, p =>
      if p.complete then .ok (s, p)
      else
        match moveBatch digest destinationNs blocks limit s p with
        | .error error => .error error
        | .ok (s, p) => moveAll rest s p

end Batch

structure Move where
  stores : MoveStores
  progress : MoveProgress

/-- A store, an update or a delete of a row by a tenant. -/
inductive TenantWrite where
  | put (row : MemoryEntry)
  | delete (id : String)

def TenantWrite.id : TenantWrite → String
  | put row => row.id
  | delete id => id

def TenantWrite.apply (t : NamespaceRows) : TenantWrite → NamespaceRows
  | put row => t.put row
  | delete id => t.discard (· == id)

inductive MoveEvent where
  | atSource (write : TenantWrite)
  | atDestination (write : TenantWrite)
  | batch (blocks : MemoryEntry → Bool) (limit : Nat)

/-- A move that is complete takes no more batches. -/
def moveMachine (digest : SyncContent → String) (destinationNs : String) :
    Machine Move MoveEvent where
  step m event :=
    match event with
    | .atSource write => some ⟨{ m.stores with source := write.apply m.stores.source }, m.progress⟩
    | .atDestination write =>
        some ⟨{ m.stores with destination := write.apply m.stores.destination }, m.progress⟩
    | .batch blocks limit =>
        if m.progress.complete then none
        else
          match moveBatch digest destinationNs blocks limit m.stores m.progress with
          | .error _ => some m
          | .ok (stores, progress) => some ⟨stores, progress⟩

end TrwMemory.Namespaces

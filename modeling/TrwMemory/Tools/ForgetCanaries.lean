import TrwMemory.Tools.Forget

/-!
`memory_forget` as a whole (`tools/forget.py`), with the vectors of the rows, and the system
canaries that it leaves. Only a call by id looks at what it deletes.

The search and the order of its answers are parameters, as is the check of the namespace. The
calls do not fail; audit events and a replaced store between the read and the deletion are left
out.
-/
namespace TrwMemory.Tools

open Library.Keyed Storage Security Lifecycle

/-- The copies, the vectors of the rows, and those that the warm tier has for their ids. -/
structure Holdings (ν : Type) extends Copies where
  vectors : Table RowKey ν
  warmVectors : Table String ν

structure ForgetCall where
  memoryId : Option String
  query : Option String
  ns : String
  actor : Option String

inductive ForgetReply where
  | invalid (error : String)
  | unauthorized (error : String)
  | done (deleted : Nat) (found truncated : Bool)
  deriving DecidableEq, Repr

/-- `refused` is `refused_namespace`; `found` is what the text search finds, and `rank` the order
in which it gives its rows. -/
structure ForgetSearch where
  refused : String → Option ForgetReply
  found : String → MemoryEntry → Bool
  rank : List MemoryEntry → List MemoryEntry
  rank_perm : ∀ rows, (rank rows).Perm rows

/-- What a call goes by. -/
inductive ForgetSelector where
  | actor (name : String)
  | memoryId (id : String)
  | query (text : String)

/-- The first that is given, of those that are not empty. -/
def selectorOf (call : ForgetCall) : Option ForgetSelector :=
  let given (text : Option String) := text.filter (· != "")
  ((given call.actor).map .actor).or
    (((given call.memoryId).map .memoryId).or ((given call.query).map .query))

def QUERY_ROWS : Nat := 10000

variable {ν : Type} (config : ForgetConfig)

/-- `delete`, and `remove_entry_from_tiers` where there was a row. -/
def deleteRow (h : Holdings ν) (k : RowKey) : Holdings ν :=
  if h.active.holdsId k then
    { toCopies := forgetRow config k.ns h.toCopies k.id
      vectors := h.vectors.discard (· == k)
      warmVectors := if config.tiers then h.warmVectors.discard (· == k.id) else h.warmVectors }
  else h

/-- One deletion after the other, with the number of rows that there were. -/
def deleteRows : List RowKey → Holdings ν → Nat × Holdings ν
  | [], h => (0, h)
  | k :: keys, h =>
      let (deleted, after) := deleteRows keys (deleteRow config h k)
      (if h.active.holdsId k then deleted + 1 else deleted, after)

/-- `backend.search`, with the hidden rows dropped before the limit. -/
def searchRows (search : ForgetSearch) (c : Copies) (ns query : String) :
    List MemoryEntry :=
  ((search.rank (c.active.rowsOf ns)).filter fun row =>
    search.found query row && !config.blocks row).take QUERY_ROWS

def forgetActorIn (h : Holdings ν) (ns actor : String) : ForgetReply × Holdings ν :=
  let ids := forgotten config h.toCopies ns actor
  let (deleted, after) := deleteRows config (ids.map (⟨ns, ·⟩)) h
  let heldRows := (after.held.listEntries (fun _ => true) ns 10000).filter fun entry =>
    entry.sourceIdentity == actor && heldFlag entry
  (.done (deleted + heldRows.length) true (truncated config h.toCopies ns actor),
    { after with held := deleteHeldOf after.held ns (some actor) })

def forgetIdIn (h : Holdings ν) (k : RowKey) : ForgetReply × Holdings ν :=
  match (h.active.get k).filter fun entry => !config.blocks entry with
  | some entry =>
      if canary entry then
        (.unauthorized ("Refusing to delete system canary entry '" ++ k.id ++
          "': deleting canaries is a security violation."), h)
      else
        let (deleted, after) := deleteRows config [k] h
        (.done deleted (decide (0 < deleted)) false, after)
  | none =>
      let held := deleteHeldById h.held k
      let gone := h.held.holdsId k && !held.holdsId k
      (.done gone.toNat gone false, { h with held })

def forgetQueryIn (search : ForgetSearch) (h : Holdings ν) (ns query : String) :
    ForgetReply × Holdings ν :=
  let (deleted, after) :=
    deleteRows config ((searchRows config search h.toCopies ns query).map rowKey) h
  (.done deleted true false, after)

/-- `memory_forget_impl`. -/
def memoryForget (search : ForgetSearch) (h : Holdings ν) (call : ForgetCall) :
    ForgetReply × Holdings ν :=
  if call.memoryId.any pyBlank then
    (.invalid "memory_id must be non-empty when provided.", h)
  else
    match selectorOf call with
    | none => (.invalid "At least one of memory_id, query, or actor must be provided.", h)
    | some selector =>
        match search.refused call.ns with
        | some reply => (reply, h)
        | none =>
            match selector with
            | .actor name => forgetActorIn config h call.ns name
            | .memoryId id => forgetIdIn config h ⟨call.ns, id⟩
            | .query text => forgetQueryIn config search h call.ns text

/-- The row of a key, its vector and its copies in the tiers are as they were. -/
structure SameCopies (h h' : Holdings ν) (k : RowKey) : Prop where
  row : h'.active.table.find k = h.active.table.find k
  vector : h'.vectors.find k = h.vectors.find k
  hot : h'.hot.filter (·.id == k.id) = h.hot.filter (·.id == k.id)
  sidecar : (liveLines h'.sidecar).filter (·.id == k.id) =
    (liveLines h.sidecar).filter (·.id == k.id)
  warmVector : h'.warmVectors.find k.id = h.warmVectors.find k.id
  archive : ∀ path record, record.entry.id = k.id →
    (h'.archive.find path = some record ↔ h.archive.find path = some record)

def CanariesKept (ns : String) (h h' : Holdings ν) : Prop :=
  ∀ id row, h.active.table.find ⟨ns, id⟩ = some row → canary row = true → SameCopies h h' ⟨ns, id⟩

variable {config}

theorem SameCopies.refl (h : Holdings ν) (k : RowKey) : SameCopies h h k :=
  ⟨rfl, rfl, rfl, rfl, rfl, fun _ _ _ => Iff.rfl⟩

theorem SameCopies.trans {h h' h'' : Holdings ν} {k : RowKey} (first : SameCopies h h' k)
    (second : SameCopies h' h'' k) : SameCopies h h'' k where
  row := second.row.trans first.row
  vector := second.vector.trans first.vector
  hot := second.hot.trans first.hot
  sidecar := second.sidecar.trans first.sidecar
  warmVector := second.warmVector.trans first.warmVector
  archive path record hid := (second.archive path record hid).trans (first.archive path record hid)

/-- Filters by different ids do not meet. -/
theorem filter_id_ne {id other : String} (hne : other ≠ id) (rows : List MemoryEntry) :
    (rows.filter (·.id != id)).filter (·.id == other) = rows.filter (·.id == other) := by
  rw [List.filter_filter]
  apply List.filter_congr
  intro row _
  cases hother : row.id == other with
  | false => rfl
  | true =>
      rw [Bool.true_and, bne_iff_ne, beq_iff_eq.mp hother]
      exact hne

theorem liveLines_purgeLines {id other : String} (hne : other ≠ id) (lines : List MemoryEntry) :
    (liveLines (purgeLines lines id)).filter (·.id == other) =
      (liveLines lines).filter (·.id == other) := by
  rw [purgeLines]
  split
  · rw [liveLines_filter _ (· != id), liveLines_liveLines, filter_id_ne hne]
  · rfl

/-- A deletion is about one row of the namespace. -/
theorem sameCopies_deleteRow (h : Holdings ν) {k k' : RowKey} (hns : k'.ns = k.ns)
    (hne : k' ≠ k) : SameCopies h (deleteRow config h k) k' := by
  have hid : k'.id ≠ k.id := fun heq => hne (by cases k; cases k'; simp_all)
  rw [deleteRow]
  split
  · have hrow : (h.active.delete k).table.find k' = h.active.table.find k' := by
      rw [EntryStore.find_delete, if_neg (by simpa using hne)]
    have hvector : (h.vectors.discard (· == k)).find k' = h.vectors.find k' := by
      rw [Table.find_discard, if_neg (by simpa using hne)]
    cases htiers : config.tiers with
    | false =>
        have hsame : forgetRow config k.ns h.toCopies k.id =
            { h.toCopies with active := h.active.delete k } := by
          rw [forgetRow, removeEntryFromTiers, htiers]
          rfl
        rw [hsame]
        exact ⟨hrow, hvector, rfl, rfl, rfl, fun _ _ _ => Iff.rfl⟩
    | true =>
        have hremoved : forgetRow config k.ns h.toCopies k.id =
            { h.toCopies with
              active := h.active.delete k
              hot := h.hot.filter fun entry => entry.id != k.id
              sidecar := purgeLines h.sidecar k.id
              archive := coldRemove h.archive h.stuck k.id } := by
          rw [forgetRow, removeEntryFromTiers, htiers]
          rfl
        rw [hremoved]
        refine ⟨hrow, hvector, filter_id_ne hid _, liveLines_purgeLines hid _, ?_, ?_⟩
        · change (h.warmVectors.discard (· == k.id)).find k'.id = _
          rw [Table.find_discard, if_neg (by simpa using hid)]
        · intro path record hrecord
          change (coldRemove h.archive h.stuck k.id).find path = some record ↔ _
          rw [coldRemove, Table.find_discard]
          split
          · rename_i hgone
            refine iff_of_false (by simp) fun hfind => ?_
            rw [hfind, Bool.and_eq_true, Option.any_some, beq_iff_eq] at hgone
            exact hid (hrecord.symm.trans hgone.2)
          · rfl
  · exact .refl h k'

theorem active_deleteRow (h : Holdings ν) (k : RowKey) :
    (deleteRow config h k).active.table.find k = none := by
  rw [deleteRow]
  split
  · have hactive : (forgetRow config k.ns h.toCopies k.id).active = h.active.delete k := by
      rw [forgetRow, removeEntryFromTiers]
      split <;> rfl
    change (forgetRow config k.ns h.toCopies k.id).active.table.find k = none
    rw [hactive, EntryStore.find_delete, if_pos (beq_iff_eq.mpr rfl)]
  · rename_i hnone
    rwa [EntryStore.holdsId, Bool.not_eq_true, Option.isSome_eq_false_iff,
      Option.isNone_iff_eq_none] at hnone

theorem sameCopies_deleteRows {keys : List RowKey} {k : RowKey} (hns : ∀ k' ∈ keys, k'.ns = k.ns)
    (hnot : k ∉ keys) (h : Holdings ν) : SameCopies h (deleteRows config keys h).2 k := by
  induction keys generalizing h with
  | nil => exact .refl h k
  | cons first keys ih =>
      obtain ⟨hfirst, hrest⟩ := List.forall_mem_cons.mp hns
      obtain ⟨hne, hnot⟩ := not_or.mp (List.mem_cons.not.mp hnot)
      exact (sameCopies_deleteRow h hfirst.symm hne).trans (ih hrest hnot _)

theorem active_deleteRows {keys : List RowKey} {k : RowKey} (hns : ∀ k' ∈ keys, k'.ns = k.ns)
    (hmem : k ∈ keys) (h : Holdings ν) :
    (deleteRows config keys h).2.active.table.find k = none := by
  induction keys generalizing h with
  | nil => cases hmem
  | cons first keys ih =>
      obtain ⟨hfirst, hrest⟩ := List.forall_mem_cons.mp hns
      change (deleteRows config keys (deleteRow config h first)).2.active.table.find k = none
      by_cases hlater : k ∈ keys
      · exact ih hrest hlater _
      · obtain rfl := (List.mem_cons.mp hmem).resolve_right hlater
        rw [(sameCopies_deleteRows hrest hlater _).row, active_deleteRow]

/-- No row of `keys` is a canary. -/
def NoCanaries (h : Holdings ν) (keys : List RowKey) : Prop :=
  ∀ k ∈ keys, ∀ row, h.active.table.find k = some row → canary row = false

/-- Deletions leave the canaries of a namespace exactly if none is deleted. -/
theorem canariesKept_deleteRows {keys : List RowKey} {ns : String} (hns : ∀ k ∈ keys, k.ns = ns)
    (h : Holdings ν) : CanariesKept ns h (deleteRows config keys h).2 ↔ NoCanaries h keys := by
  constructor
  · intro hkept k hk row hrow
    obtain rfl := hns k hk
    by_contra hcanary
    have hsame := hkept k.id row hrow (Bool.eq_true_of_not_eq_false hcanary)
    rw [← hsame.row, active_deleteRows hns hk] at hrow
    cases hrow
  · intro hfree id row hrow hcanary
    refine sameCopies_deleteRows (fun k hk => hns k hk) (fun hmem => ?_) h
    rw [hfree _ hmem row hrow] at hcanary
    cases hcanary

theorem deleteRow_of_holds {h : Holdings ν} {k : RowKey} (hheld : h.active.holdsId k = true) :
    (deleteRow config h k).toCopies = forgetRow config k.ns h.toCopies k.id := by
  rw [deleteRow, if_pos hheld]

theorem toCopies_deleteRows {ns : String} {ids : List String} (hids : ids.Nodup)
    (h : Holdings ν) (hheld : ∀ id ∈ ids, h.active.holdsId ⟨ns, id⟩ = true) :
    (deleteRows config (ids.map (⟨ns, ·⟩)) h).2.toCopies =
      ids.foldl (forgetRow config ns) h.toCopies := by
  induction ids generalizing h with
  | nil => rfl
  | cons id ids ih =>
      obtain ⟨hid, hids⟩ := List.nodup_cons.mp hids
      obtain ⟨hfirst, hrest⟩ := List.forall_mem_cons.mp hheld
      rw [List.foldl_cons, ← deleteRow_of_holds (k := ⟨ns, id⟩) hfirst]
      refine ih hids (deleteRow config h ⟨ns, id⟩) fun id' hid' => ?_
      have hne : (⟨ns, id'⟩ : RowKey) ≠ ⟨ns, id⟩ := by
        rintro ⟨⟩
        exact hid hid'
      have hsame : SameCopies h (deleteRow config h ⟨ns, id⟩) ⟨ns, id'⟩ :=
        sameCopies_deleteRow h rfl hne
      rw [EntryStore.holdsId, hsame.row]
      exact hrest id' hid'

theorem nodup_forgotten (config : ForgetConfig) (c : Copies) (ns actor : String) :
    (forgotten config c ns actor).Nodup := by
  have hperm := (config.order_perm (c.active.rowsOf ns)).map MemoryEntry.id
  have hsub := (List.take_sublist SCAN_ROWS (actorRows config c ns actor)).trans List.filter_sublist
  exact (hsub.map MemoryEntry.id).nodup (hperm.nodup_iff.mpr (c.active.nodup_rowsOf ns))

theorem holdsId_of_forgotten {c : Copies} {ns actor id : String}
    (h : id ∈ forgotten config c ns actor) : c.active.holdsId ⟨ns, id⟩ = true := by
  obtain ⟨row, hrow, rfl⟩ := List.mem_map.mp h
  have hmem := (config.order_perm _).mem_iff.mp (List.mem_filter.mp (List.mem_of_mem_take hrow)).1
  rw [EntryStore.holdsId, c.active.mem_rowsOf.mp hmem]
  rfl

/-- By actor, the copies are those of the calls without vectors. -/
theorem toCopies_forgetActorIn (h : Holdings ν) (ns actor : String) :
    (forgetActorIn config h ns actor).2.toCopies = forgetByActor config h.toCopies ns actor := by
  have hdelete :
      (deleteRows config ((forgotten config h.toCopies ns actor).map (⟨ns, ·⟩)) h).2.toCopies =
      _ := toCopies_deleteRows (nodup_forgotten config h.toCopies ns actor) h
        fun id hid => holdsId_of_forgotten hid
  rw [forgetByActor, ← hdelete]
  rfl

theorem toCopies_forgetIdIn (h : Holdings ν) (k : RowKey) :
    (forgetIdIn config h k).2.toCopies = (forgetById config .none h.toCopies k).2 := by
  rw [forgetIdIn, forgetById]
  simp only [ForgetErrors.none, Bool.false_eq_true, if_false]
  cases hseen : (h.active.get k).filter fun entry => !config.blocks entry with
  | none => rfl
  | some entry =>
      dsimp only
      split
      · rfl
      · have hget := (Option.filter_eq_some_iff.mp hseen).1
        have hheld : h.active.holdsId k = true := by
          rw [← EntryStore.get_isSome, hget]
          rfl
        exact deleteRow_of_holds hheld

variable (config)

/-- The rows that a call deletes without looking at them. -/
def unseenKeys (search : ForgetSearch) (h : Holdings ν) (call : ForgetCall) : List RowKey :=
  match selectorOf call with
  | some (.actor name) => (forgotten config h.toCopies call.ns name).map (⟨call.ns, ·⟩)
  | some (.query text) => (searchRows config search h.toCopies call.ns text).map rowKey
  | _ => []

variable {config}

theorem canary_readOf (row : MemoryEntry) : canary (readOf row) = canary row := by
  have hread : (readBack row).metadata = row.metadata := rfl
  rw [canary, canary, readOf]
  cases hviolates : violatesEvidenceInvariant (readBack row) with
  | false => rw [servedView_of_conforms hviolates, hread]
  | true =>
      rw [servedView_of_violates hviolates]
      dsimp only
      rw [Finmap.lookup_insert_of_ne _ (by decide), hread]

theorem canariesKept_held (ns : String) (h h' : Holdings ν) (held : EntryStore) :
    CanariesKept ns h { h' with held } ↔ CanariesKept ns h h' :=
  forall₂_congr fun _ _ => forall₂_congr fun _ _ =>
    ⟨fun hs => ⟨hs.row, hs.vector, hs.hot, hs.sidecar, hs.warmVector, hs.archive⟩,
      fun hs => ⟨hs.row, hs.vector, hs.hot, hs.sidecar, hs.warmVector, hs.archive⟩⟩

theorem canariesKept_forgetIdIn (h : Holdings ν) (k : RowKey) :
    CanariesKept k.ns h (forgetIdIn config h k).2 := by
  have hrefl : CanariesKept k.ns h h := fun _ _ _ _ => .refl h _
  rw [forgetIdIn]
  split
  · rename_i entry hentry
    split
    · exact hrefl
    · rename_i hcanary
      refine (canariesKept_deleteRows (fun k' hk' => ?_) h).mpr fun k' hk' row hrow => ?_
      · rw [List.mem_singleton.mp hk']
      · obtain rfl := List.mem_singleton.mp hk'
        have hget := (Option.filter_eq_some_iff.mp hentry).1
        rw [EntryStore.get, hrow] at hget
        rw [← Option.some.inj hget, canary_readOf] at hcanary
        exact Bool.eq_false_iff.mpr hcanary
  · exact (canariesKept_held k.ns h h _).mpr hrefl

/-- The canaries survive exactly the calls that are refused, go by id, or select none of them. -/
theorem canariesKept_iff (config : ForgetConfig) (search : ForgetSearch) (h : Holdings ν)
    (call : ForgetCall) :
    CanariesKept call.ns h (memoryForget config search h call).2 ↔
      call.memoryId.any pyBlank = true ∨ (search.refused call.ns).isSome = true ∨
        NoCanaries h (unseenKeys config search h call) := by
  have hrefl : CanariesKept call.ns h h := fun _ _ _ _ => .refl h _
  rw [memoryForget, unseenKeys]
  by_cases hblank : call.memoryId.any pyBlank = true
  · rw [if_pos hblank]
    exact iff_of_true hrefl (.inl hblank)
  rw [if_neg hblank, or_iff_right hblank]
  cases hselector : selectorOf call with
  | none => exact iff_of_true hrefl (.inr fun k hk => (by cases hk))
  | some selector =>
      dsimp only
      cases hrefused : search.refused call.ns with
      | some reply => exact iff_of_true hrefl (.inl rfl)
      | none =>
          rw [or_iff_right (by rw [Option.isSome_none]; exact Bool.false_ne_true)]
          cases selector with
          | memoryId id =>
              exact iff_of_true (canariesKept_forgetIdIn h ⟨call.ns, id⟩) fun k hk => (by cases hk)
          | actor name =>
              refine (canariesKept_held call.ns h _ _).trans (canariesKept_deleteRows ?_ h)
              intro k hk
              obtain ⟨id, -, rfl⟩ := List.mem_map.mp hk
              rfl
          | query text =>
              refine canariesKept_deleteRows ?_ h
              intro k hk
              obtain ⟨row, hrow, rfl⟩ := List.mem_map.mp hk
              have hmem := (search.rank_perm _).mem_iff.mp
                (List.mem_filter.mp (List.mem_of_mem_take hrow)).1
              exact congrArg RowKey.ns (h.active.rowKey_find (h.active.mem_rowsOf.mp hmem))

def canaryRow : MemoryEntry :=
  { MemoryEntry.ofDefaults "canary" "the deploy key" "default" ⟨0, some 0⟩ (by decide) with
    metadata := (∅ : Metadata).insert "system_canary" "true" }

def canaryHoldings : Holdings Unit where
  active := EntryStore.empty.insert canaryRow
  held := .empty
  hot := []
  sidecar := []
  archive := .empty
  stuck := []
  vectors := .empty
  warmVectors := .empty

def plainForget : ForgetConfig := ⟨fun _ => false, fun _ => true, true, id, fun _ => .refl _⟩

/-- A grant of the default namespace alone. -/
def plainSearch : ForgetSearch where
  refused ns :=
    if ns = "default" then none
    else some (.unauthorized ("namespace '" ++ ns ++ "' is not granted"))
  found query row := row.content == query
  rank := id
  rank_perm _ := .refl _

/-- The text of a canary is searched for. -/
def deployCall : ForgetCall := ⟨none, some "the deploy key", "default", none⟩

theorem canary_forgotten :
    ¬ CanariesKept "default" canaryHoldings
      (memoryForget plainForget plainSearch canaryHoldings deployCall).2 := by
  intro hkept
  have hsame := hkept "canary" canaryRow rfl (by decide)
  have hrow := hsame.row
  revert hrow
  decide +kernel

end TrwMemory.Tools

import TrwMemory.Lifecycle.TierMoves
import TrwMemory.Security.QuarantineReview

/-!
`memory_forget` by id and by actor (`tools/forget.py`), with the removal from the tiers
(`tiers/_runtime.py`, `tiers/_cold_erasure.py`) and from the quarantine store. The tiers are
those of the caller's namespace.

When it leaves no copy: for every distribution of copies over the stores and the tiers, the
exact condition on it. What repeated calls remove from the tiers is what one removal of all
their ids does.

A call by id logs a `StorageError` and answers like one that found nothing. A line of the sidecar
that does not parse is left out, and calls by actor do not fail. Permissions, audit events and the
search by query are not modelled.
-/
namespace TrwMemory.Tools

open Library.Keyed Storage Security Lifecycle

/-- Where copies of an entry can be. `stuck` are the archive files that cannot be read or
unlinked. -/
structure Copies where
  active : EntryStore
  held : EntryStore
  hot : List MemoryEntry
  sidecar : List MemoryEntry
  archive : Table String ArchiveRecord
  stuck : List String

/-- `blocks` is what the ledger hides, `scans` what `ids_by_source` sees: all rows in SQLite,
those that are not hidden in YAML. `order` is the order in which it finds them. -/
structure ForgetConfig where
  blocks : MemoryEntry → Bool
  scans : MemoryEntry → Bool
  tiers : Bool
  order : List MemoryEntry → List MemoryEntry
  order_perm : ∀ rows, (order rows).Perm rows

def SCAN_ROWS : Nat := 10000

/-- The last line of each id. -/
def liveLines : List MemoryEntry → List MemoryEntry
  | [] => []
  | line :: lines =>
      if lines.any (·.id == line.id) then liveLines lines else line :: liveLines lines

/-- `purge_sidecar_entry`: the live lines of other ids are written anew. -/
def purgeLines (lines : List MemoryEntry) (id : String) : List MemoryEntry :=
  if lines.any (·.id == id) then (liveLines lines).filter fun line => line.id != id else lines

/-- `cold_remove`. -/
def coldRemove (archive : Table String ArchiveRecord) (stuck : List String) (id : String) :
    Table String ArchiveRecord :=
  archive.discard fun path =>
    !stuck.contains path && (archive.find path).any fun record => record.entry.id == id

def removeEntryFromTiers (config : ForgetConfig) (c : Copies) (id : String) : Copies :=
  if config.tiers then
    { c with
      hot := c.hot.filter fun entry => entry.id != id
      sidecar := purgeLines c.sidecar id
      archive := coldRemove c.archive c.stuck id }
  else c

inductive ForgetAnswer where
  | refused
  | ok
  | notFound
  deriving DecidableEq, Repr

def canary (e : MemoryEntry) : Bool := e.metadata.lookup "system_canary" == some "true"

/-- Which calls of a forget by id raise a `StorageError`: `get`, `delete`, and the deletion from
the quarantine store. -/
structure ForgetErrors where
  get : Bool
  delete : Bool
  quarantine : Bool

def ForgetErrors.none : ForgetErrors := ⟨false, false, false⟩

def forgetById (config : ForgetConfig) (errors : ForgetErrors) (c : Copies) (k : RowKey) :
    ForgetAnswer × Copies :=
  if errors.get then (.notFound, c)
  else
    match (c.active.get k).filter fun entry => !config.blocks entry with
    | some entry =>
        if canary entry then (.refused, c)
        else if errors.delete then (.notFound, c)
        else (.ok, removeEntryFromTiers config { c with active := c.active.delete k } k.id)
    | none =>
        if errors.quarantine then (.notFound, c)
        else
          let held := deleteHeldById c.held k
          (if c.held.holdsId k && !held.holdsId k then .ok else .notFound, { c with held })

/-- What `ids_by_source` selects from. -/
def actorRows (config : ForgetConfig) (c : Copies) (ns actor : String) : List MemoryEntry :=
  (config.order (c.active.rowsOf ns)).filter fun row =>
    row.sourceIdentity == actor && config.scans row

/-- `ids_by_source`, up to the limit of one call. -/
def forgotten (config : ForgetConfig) (c : Copies) (ns actor : String) : List String :=
  ((actorRows config c ns actor).take SCAN_ROWS).map MemoryEntry.id

def truncated (config : ForgetConfig) (c : Copies) (ns actor : String) : Bool :=
  decide (SCAN_ROWS < (actorRows config c ns actor).length)

def forgetRow (config : ForgetConfig) (ns : String) (c : Copies) (id : String) : Copies :=
  removeEntryFromTiers config { c with active := c.active.delete ⟨ns, id⟩ } id

def forgetByActor (config : ForgetConfig) (c : Copies) (ns actor : String) : Copies :=
  let c := (forgotten config c ns actor).foldl (forgetRow config ns) c
  { c with held := deleteHeldOf c.held ns (some actor) }

/-- The state that the last of some repeated calls finds: the first that is not truncated. -/
def beforeLast (config : ForgetConfig) (ns actor : String) : Nat → Copies → Copies
  | 0, c => c
  | calls + 1, c =>
      if truncated config c ns actor then
        beforeLast config ns actor calls (forgetByActor config c ns actor)
      else c

/-- No copy of an entry is left. -/
structure NoCopy (c : Copies) (k : RowKey) : Prop where
  active : c.active.holdsId k = false
  held : c.held.holdsId k = false
  hot : ∀ entry ∈ c.hot, entry.id ≠ k.id
  sidecar : ∀ line ∈ c.sidecar, line.id ≠ k.id
  archive : ∀ path record, c.archive.find path = some record → record.entry.id ≠ k.id

/-- No copy of a row of the actor is left in the namespace. -/
structure NoCopyOf (c : Copies) (ns actor : String) : Prop where
  active : ∀ row ∈ c.active.rowsOf ns, row.sourceIdentity ≠ actor
  held : ∀ row ∈ c.held.rowsOf ns, row.sourceIdentity ≠ actor
  hot : ∀ entry ∈ c.hot, entry.sourceIdentity ≠ actor
  sidecar : ∀ line ∈ c.sidecar, line.sourceIdentity ≠ actor
  archive : ∀ path record, c.archive.find path = some record → record.entry.sourceIdentity ≠ actor

theorem mem_liveLines {lines : List MemoryEntry} {line : MemoryEntry}
    (h : line ∈ liveLines lines) : line ∈ lines := by
  induction lines with
  | nil => cases h
  | cons first lines ih =>
      rw [liveLines] at h
      split at h
      · exact List.mem_cons_of_mem first (ih h)
      · rcases List.mem_cons.mp h with rfl | h
        · exact List.mem_cons_self
        · exact List.mem_cons_of_mem first (ih h)

/-- Every id keeps a line. -/
theorem any_liveLines (lines : List MemoryEntry) (p : String → Bool) :
    (liveLines lines).any (p ·.id) = lines.any (p ·.id) := by
  induction lines with
  | nil => rfl
  | cons first lines ih =>
      rw [liveLines, List.any_cons]
      split
      · rename_i hlater
        obtain ⟨later, hmem, hid⟩ := List.any_eq_true.mp hlater
        rw [ih]
        cases hfirst : p first.id with
        | false => rfl
        | true =>
            rw [Bool.true_or, List.any_eq_true]
            exact ⟨later, hmem, by rw [beq_iff_eq.mp hid, hfirst]⟩
      · rw [List.any_cons, ih]

/-- Lines of other ids do not supersede each other less. -/
theorem liveLines_filter (lines : List MemoryEntry) (p : String → Bool) :
    liveLines (lines.filter (p ·.id)) = (liveLines lines).filter (p ·.id) := by
  induction lines with
  | nil => rfl
  | cons first lines ih =>
      cases hp : p first.id with
      | false =>
          rw [List.filter_cons_of_neg (by rw [hp]; exact Bool.false_ne_true), ih, liveLines]
          split
          · rfl
          · rw [List.filter_cons_of_neg (by rw [hp]; exact Bool.false_ne_true)]
      | true =>
          have hlater : (lines.filter (p ·.id)).any (·.id == first.id) =
              lines.any (·.id == first.id) := by
            rw [List.any_filter]
            congr 1
            funext line
            cases hline : line.id == first.id with
            | false => rw [Bool.and_false]
            | true => rw [beq_iff_eq.mp hline, hp]; rfl
          have hkept : ∀ rest : List MemoryEntry,
              (first :: rest).filter (p ·.id) = first :: rest.filter (p ·.id) :=
            fun rest => List.filter_cons_of_pos hp
          rw [hkept, liveLines, liveLines, hlater]
          split
          · exact ih
          · rw [ih, hkept]

theorem liveLines_liveLines (lines : List MemoryEntry) :
    liveLines (liveLines lines) = liveLines lines := by
  induction lines with
  | nil => rfl
  | cons first lines ih =>
      have hlater := any_liveLines lines (· == first.id)
      rw [liveLines]
      split
      · exact ih
      · rename_i hlast
        rw [liveLines, hlater, if_neg hlast, ih]

/-- Purges of some ids, one after the other. -/
theorem foldl_purgeLines (ids : List String) (lines : List MemoryEntry) :
    ids.foldl purgeLines lines =
      if lines.any (ids.contains ·.id) then
        (liveLines lines).filter fun line => !ids.contains line.id
      else lines := by
  induction ids generalizing lines with
  | nil => simp
  | cons id ids ih =>
      rw [List.foldl_cons, ih, purgeLines]
      have hcontains : ∀ line : MemoryEntry,
          (id :: ids).contains line.id = (line.id == id || ids.contains line.id) :=
        fun line => List.contains_cons
      cases hid : lines.any (·.id == id) with
      | true =>
          have hany : lines.any ((id :: ids).contains ·.id) = true := by
            obtain ⟨line, hline, hmatch⟩ := List.any_eq_true.mp hid
            exact List.any_eq_true.mpr ⟨line, hline, by rw [hcontains, hmatch]; rfl⟩
          have hlive : liveLines ((liveLines lines).filter (·.id != id)) =
              (liveLines lines).filter (·.id != id) := by
            rw [liveLines_filter _ (· != id), liveLines_liveLines]
          have hboth : ((liveLines lines).filter (·.id != id)).filter (!ids.contains ·.id) =
              (liveLines lines).filter (!(id :: ids).contains ·.id) := by
            rw [List.filter_filter]
            apply List.filter_congr
            intro line _
            rw [hcontains, Bool.not_or, Bool.and_comm, bne]
          rw [if_pos rfl, hany, if_pos rfl, hlive, ← hboth]
          split
          · rfl
          · rename_i hnone
            symm
            rw [List.filter_eq_self]
            intro line hline
            rw [Bool.not_eq_true, List.any_eq_false] at hnone
            simpa using hnone line hline
      | false =>
          rw [List.any_eq_false] at hid
          have hany : lines.any ((id :: ids).contains ·.id) = lines.any (ids.contains ·.id) := by
            rw [Bool.eq_iff_iff, List.any_eq_true, List.any_eq_true]
            refine exists_congr fun line => and_congr_right fun hline => ?_
            rw [hcontains, Bool.eq_false_iff.mpr (hid line hline), Bool.false_or]
          have hfilter : (liveLines lines).filter (!(id :: ids).contains ·.id) =
              (liveLines lines).filter (!ids.contains ·.id) := by
            apply List.filter_congr
            intro line hline
            rw [hcontains, Bool.eq_false_iff.mpr (hid line (mem_liveLines hline)), Bool.false_or]
          rw [if_neg Bool.false_ne_true, hany, hfilter]

/-- The tiers after the removal of some ids, where they are removed from at all. -/
structure TiersRemoved (config : ForgetConfig) (ids : List String) (c t : Copies) : Prop where
  hot : t.hot = if config.tiers then c.hot.filter (fun e => !ids.contains e.id) else c.hot
  sidecar : t.sidecar = if config.tiers then ids.foldl purgeLines c.sidecar else c.sidecar
  archive : ∀ path, t.archive.find path =
    if config.tiers && !c.stuck.contains path &&
      (c.archive.find path).any (fun record => ids.contains record.entry.id) then none
    else c.archive.find path
  stuck : t.stuck = c.stuck

section Removed

variable {config : ForgetConfig} {c t : Copies} {ids : List String}

theorem tiersRemoved_cons (id : String)
    (h : TiersRemoved config ids (removeEntryFromTiers config c id) t) :
    TiersRemoved config (id :: ids) c t := by
  have hcontains : ∀ x, (id :: ids).contains x = (x == id || ids.contains x) :=
    fun x => List.contains_cons
  obtain ⟨hhot, hsidecar, harchive, hstuck⟩ := h
  unfold removeEntryFromTiers at hhot hsidecar harchive hstuck
  cases htiers : config.tiers with
  | false =>
      simp only [htiers, Bool.false_and, Bool.false_eq_true,
        if_false] at hhot hsidecar harchive hstuck
      refine ⟨?_, ?_, ?_, hstuck⟩ <;> simp only [htiers, Bool.false_and, Bool.false_eq_true,
        if_false]
      · exact hhot
      · exact hsidecar
      · exact harchive
  | true =>
      simp only [htiers, if_true, Bool.true_and] at hhot hsidecar harchive hstuck
      refine ⟨?_, ?_, ?_, hstuck⟩ <;> simp only [htiers, if_true, Bool.true_and]
      · rw [hhot, List.filter_filter]
        apply List.filter_congr
        intro e _
        rw [hcontains, Bool.not_or, Bool.and_comm, bne]
      · exact hsidecar
      · intro path
        rw [harchive, coldRemove, Table.find_discard]
        cases c.stuck.contains path with
        | true => rfl
        | false =>
            cases hfind : c.archive.find path with
            | none => simp
            | some record =>
                simp only [Bool.not_false, Bool.true_and, Option.any_some, hcontains]
                cases record.entry.id == id <;> simp

theorem tiersRemoved_nil (c : Copies) : TiersRemoved config [] c c := by constructor <;> simp

theorem tiersRemoved_foldl (ns : String) (ids : List String) (c : Copies) :
    TiersRemoved config ids c (ids.foldl (forgetRow config ns) c) := by
  induction ids generalizing c with
  | nil => exact tiersRemoved_nil c
  | cons id ids ih =>
      have htail := ih (forgetRow config ns c id)
      have hcons := tiersRemoved_cons (c := { c with active := c.active.delete ⟨ns, id⟩ }) id htail
      exact ⟨hcons.hot, hcons.sidecar, hcons.archive, hcons.stuck⟩

/-- No copy of an entry is left in the tiers. -/
structure TiersClear (c : Copies) (p : MemoryEntry → Prop) : Prop where
  hot : ∀ entry ∈ c.hot, ¬ p entry
  sidecar : ∀ line ∈ c.sidecar, ¬ p line
  archive : ∀ path record, c.archive.find path = some record → ¬ p record.entry

/-- The removal of some ids leaves no copy of a kind. -/
structure Removable (config : ForgetConfig) (ids : List String) (c : Copies)
    (p : MemoryEntry → Prop) : Prop where
  hot : ∀ entry ∈ c.hot, p entry → config.tiers = true ∧ entry.id ∈ ids
  /-- Lines that are superseded go when the sidecar is written anew. -/
  sidecar : (∀ line ∈ c.sidecar, ¬ p line) ∨
    config.tiers = true ∧ (∃ line ∈ c.sidecar, line.id ∈ ids) ∧
      ∀ line ∈ liveLines c.sidecar, p line → line.id ∈ ids
  archive : ∀ path record, c.archive.find path = some record → p record.entry →
    config.tiers = true ∧ path ∉ c.stuck ∧ record.entry.id ∈ ids

theorem tiersClear_iff (h : TiersRemoved config ids c t) (p : MemoryEntry → Prop) :
    TiersClear t p ↔ Removable config ids c p := by
  have hhot : (∀ entry ∈ t.hot, ¬ p entry) ↔
      ∀ entry ∈ c.hot, p entry → config.tiers = true ∧ entry.id ∈ ids := by
    rw [h.hot]
    cases config.tiers with
    | false => simp
    | true =>
        simp only [if_true, List.mem_filter, Bool.not_eq_true', List.contains_eq_mem,
          decide_eq_false_iff_not, true_and]
        exact forall_congr' fun entry => ⟨fun hc hmem hp => by_contra fun hn => hc ⟨hmem, hn⟩ hp,
          fun hc hmem hp => hmem.2 (hc hmem.1 hp)⟩
  have hsidecar : (∀ line ∈ t.sidecar, ¬ p line) ↔ ((∀ line ∈ c.sidecar, ¬ p line) ∨
      config.tiers = true ∧ (∃ line ∈ c.sidecar, line.id ∈ ids) ∧
        ∀ line ∈ liveLines c.sidecar, p line → line.id ∈ ids) := by
    rw [h.sidecar]
    cases config.tiers with
    | false => simp
    | true =>
        rw [if_pos rfl, foldl_purgeLines]
        split
        · rename_i hany
          obtain ⟨line, hline, hid⟩ := List.any_eq_true.mp hany
          have hexists : ∃ line ∈ c.sidecar, line.id ∈ ids :=
            ⟨line, hline, List.contains_iff_mem.mp hid⟩
          simp only [List.mem_filter, Bool.not_eq_true', List.contains_eq_mem,
            decide_eq_false_iff_not, true_and]
          constructor
          · intro hc
            exact .inr ⟨hexists, fun line hmem hp => by_contra fun hn => hc line ⟨hmem, hn⟩ hp⟩
          · rintro (hnone | ⟨-, hc⟩) line ⟨hmem, hn⟩ hp
            · exact hnone line (mem_liveLines hmem) hp
            · exact hn (hc line hmem hp)
        · rename_i hany
          refine ⟨.inl, fun hc => hc.elim id ?_⟩
          rintro ⟨-, ⟨line, hline, hid⟩, -⟩
          exact absurd (List.any_eq_true.mpr ⟨line, hline, by simpa using hid⟩) hany
  have harchive : (∀ path record, t.archive.find path = some record → ¬ p record.entry) ↔
      ∀ path record, c.archive.find path = some record → p record.entry →
        config.tiers = true ∧ path ∉ c.stuck ∧ record.entry.id ∈ ids := by
    refine forall_congr' fun path => ?_
    cases hfind : c.archive.find path with
    | none =>
        have hnone : t.archive.find path = none := by rw [h.archive, hfind, ite_self]
        rw [hnone]
        exact iff_of_true (fun _ hf => (by cases hf)) fun _ hf => (by cases hf)
    | some record =>
        have hgone := h.archive path
        rw [hfind, Option.any_some] at hgone
        have hcondition : (config.tiers && !c.stuck.contains path && ids.contains record.entry.id) =
            true ↔ config.tiers = true ∧ path ∉ c.stuck ∧ record.entry.id ∈ ids := by
          simp [and_assoc]
        constructor
        · intro hclear record' hrecord hp
          obtain rfl := Option.some.inj hrecord
          by_contra hn
          rw [if_neg (mt hcondition.mp hn)] at hgone
          exact hclear record hgone hp
        · intro hremovable record' hrecord hp
          split at hgone
          · rw [hgone] at hrecord
            cases hrecord
          · rename_i hkept
            rw [hgone] at hrecord
            obtain rfl := Option.some.inj hrecord
            exact hkept (hcondition.mpr (hremovable record rfl hp))
  constructor
  · intro hclear
    exact ⟨hhot.mp hclear.hot, hsidecar.mp hclear.sidecar, harchive.mp hclear.archive⟩
  · intro hremovable
    exact ⟨hhot.mpr hremovable.hot, hsidecar.mpr hremovable.sidecar,
      harchive.mpr hremovable.archive⟩

end Removed

/-- A call by id leaves no copy, or is refused. One that fails leaves what it found. -/
def IdErasable (config : ForgetConfig) (errors : ForgetErrors) (c : Copies) (k : RowKey) : Prop :=
  if errors.get then NoCopy c k
  else
    match (c.active.get k).filter fun entry => !config.blocks entry with
    | some entry =>
        canary entry = true ∨ errors.delete = false ∧
          c.held.holdsId k = false ∧ Removable config [k.id] c fun e => e.id = k.id
    | none =>
        c.active.holdsId k = false ∧
          (if errors.quarantine then c.held.holdsId k = false
            else (c.held.get k).all heldFlag = true) ∧
          TiersClear c fun e => e.id = k.id

theorem noCopy_iff {c : Copies} {k : RowKey} : NoCopy c k ↔
    c.active.holdsId k = false ∧ c.held.holdsId k = false ∧ TiersClear c fun e => e.id = k.id :=
  ⟨fun h => ⟨h.active, h.held, h.hot, h.sidecar, h.archive⟩,
    fun h => ⟨h.1, h.2.1, h.2.2.hot, h.2.2.sidecar, h.2.2.archive⟩⟩

theorem holdsId_delete_self (s : EntryStore) (k : RowKey) : (s.delete k).holdsId k = false := by
  rw [EntryStore.holdsId, EntryStore.find_delete, if_pos (beq_iff_eq.mpr rfl)]
  rfl

/-- The quarantine store keeps a row that is not flagged. -/
theorem deleteHeldById_clears {held : EntryStore} {k : RowKey} :
    (deleteHeldById held k).holdsId k = false ↔ (held.get k).all heldFlag = true := by
  rw [deleteHeldById]
  cases hget : held.get k with
  | none => exact iff_of_true ((held.get_eq_none).mp hget) rfl
  | some entry =>
      have hholds : held.holdsId k = true := by rw [← held.get_isSome, hget]; rfl
      cases hflag : heldFlag entry with
      | true => simp [hflag, holdsId_delete_self]
      | false => simp [hflag, hholds]

/-- The deletion of a row leaves no copy exactly if none is held and the tiers let theirs go. -/
theorem removed_clear_iff {config : ForgetConfig} {c : Copies} {k : RowKey} :
    ((removeEntryFromTiers config { c with active := c.active.delete k } k.id).active.holdsId k =
        false ∧
      (removeEntryFromTiers config { c with active := c.active.delete k } k.id).held.holdsId k =
        false ∧
      TiersClear (removeEntryFromTiers config { c with active := c.active.delete k } k.id)
        fun e => e.id = k.id) ↔
      c.held.holdsId k = false ∧ Removable config [k.id] c fun e => e.id = k.id := by
  have hremoved := tiersRemoved_cons k.id (tiersRemoved_nil
    (removeEntryFromTiers config { c with active := c.active.delete k } k.id))
  have hstores : (removeEntryFromTiers config
      { c with active := c.active.delete k } k.id).active = c.active.delete k ∧
      (removeEntryFromTiers config { c with active := c.active.delete k } k.id).held = c.held := by
    rw [removeEntryFromTiers]
    split <;> exact ⟨rfl, rfl⟩
  rw [tiersClear_iff hremoved, hstores.1, hstores.2, and_iff_right (holdsId_delete_self _ k)]
  refine and_congr_right fun _ => ?_
  exact ⟨fun h => ⟨h.hot, h.sidecar, h.archive⟩, fun h => ⟨h.hot, h.sidecar, h.archive⟩⟩

theorem forget_by_id_iff (config : ForgetConfig) (errors : ForgetErrors) (c : Copies)
    (k : RowKey) :
    ((forgetById config errors c k).1 = .refused ∨ NoCopy (forgetById config errors c k).2 k) ↔
      IdErasable config errors c k := by
  rw [forgetById, IdErasable]
  cases errors.get with
  | true => exact or_iff_right nofun
  | false =>
      rw [if_neg Bool.false_ne_true, if_neg Bool.false_ne_true]
      cases hseen : (c.active.get k).filter fun entry => !config.blocks entry with
      | none =>
          dsimp only
          cases errors.quarantine with
          | true =>
              rw [if_pos rfl, if_pos rfl, or_iff_right nofun]
              exact noCopy_iff
          | false =>
              rw [if_neg Bool.false_ne_true, if_neg Bool.false_ne_true]
              have hanswer : (if c.held.holdsId k && !(deleteHeldById c.held k).holdsId k then
                  ForgetAnswer.ok else .notFound) ≠ .refused := by
                split <;> nofun
              rw [or_iff_right hanswer, noCopy_iff, deleteHeldById_clears]
              refine and_congr_right fun _ => and_congr_right fun _ => ?_
              exact ⟨fun h => ⟨h.hot, h.sidecar, h.archive⟩, fun h => ⟨h.hot, h.sidecar, h.archive⟩⟩
      | some entry =>
          dsimp only
          have hfound : c.active.holdsId k = true := by
            obtain ⟨hget, -⟩ := Option.filter_eq_some_iff.mp hseen
            rw [← c.active.get_isSome, hget]
            rfl
          cases canary entry with
          | true => exact iff_of_true (.inl rfl) (.inl rfl)
          | false =>
              rw [if_neg Bool.false_ne_true, or_iff_right (a := (false = true)) nofun]
              cases errors.delete with
              | true =>
                  refine iff_of_false ?_ (fun h => Bool.noConfusion h.1)
                  rintro (hrefused | hclear)
                  · cases hrefused
                  · cases hfound.symm.trans hclear.active
              | false =>
                  rw [if_neg Bool.false_ne_true, or_iff_right nofun, and_iff_right rfl, noCopy_iff]
                  exact removed_clear_iff

end TrwMemory.Tools

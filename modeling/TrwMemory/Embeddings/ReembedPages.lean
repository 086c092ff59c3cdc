import TrwMemory.Embeddings.Reembed
import TrwMemory.Storage.Sidecars

/-!
A re-embed sweep that no other writer disturbs, over rows that can all be read and are served, with
an encoder whose vectors the store can hold: the pages are those of the ordered rows, each of them
is committed, and what is not after the cursor of the sweep is settled.
-/
namespace TrwMemory.Embeddings

open Library Library.Keyed Library.Keyset Storage Retrieval

/-- What is read of a row. -/
def rowEntry (row : MemoryEntry) : MemoryEntry := servedView (readBack row)

/-- The rows of a namespace can be read, are not blocked, and have ids that fit in a token. -/
structure Ready (blocks : MemoryEntry → Bool) (ns : String) (db : Db) : Prop where
  keyed : RowsKeyed db
  readable : ∀ k row, db.memories.find k = some row → k.ns = ns → (rowToEntry row).isSome
  unblocked : ∀ k row, db.memories.find k = some row → k.ns = ns → blocks (rowEntry row) = false
  short : ∀ k row, db.memories.find k = some row → k.ns = ns → k.id.length ≤ MAX_KEY_PART_CHARS

/-- Every text gets a vector of the space, which the store can hold. -/
def Encodes (d : Digests) (w : Writer) (space : EmbeddingSpace) (encode : Encoder) : Prop :=
  ∀ text, ∃ embedding p, encode text = some (embedding, some space) ∧
    w.lands embedding = true ∧ d.generationProvenance (some space) text embedding = some p

/-- A call that no other writer disturbs. -/
structure Quiet (d : Digests) (w : Writer) (space : EmbeddingSpace) (call : ReembedCall) :
    Prop where
  page : 1 ≤ call.page ∧ call.page ≤ MAX_REEMBED_BATCH
  rows : 1 ≤ call.rows
  start : ∀ db, call.start db = db
  round : ∀ visited db, (call.round visited).before db = db ∧
    (call.round visited).between db = db ∧ (call.round visited).meanwhile db = db
  encodes : ∀ visited, Encodes d w space (call.round visited).encode

/-- A row has a vector of a space, with a proof of its bytes. -/
def HoldsSpace (d : Digests) (db : Db) (ns : String) (space : EmbeddingSpace) (id : String) :
    Prop :=
  ∃ v p, db.vectors.find ⟨ns, id⟩ = some v ∧ v.provenance = some p ∧
    d.matchesVector p v.embedding = true ∧ p.space = space

/-- An entry that needs no new vector. -/
def Settled (d : Digests) (space : EmbeddingSpace) (db : Db) (e : MemoryEntry) : Prop :=
  isSystemCanary e.metadata = true ∨ HoldsSpace d db e.ns space e.id

/-- The rows are the same, and vectors of the space stay so. -/
structure Advanced (d : Digests) (space : EmbeddingSpace) (db db' : Db) : Prop where
  rows : db'.memories = db.memories
  inSpace : ∀ ns id, HoldsSpace d db ns space id → HoldsSpace d db' ns space id

theorem Advanced.refl (d : Digests) (space : EmbeddingSpace) (db : Db) : Advanced d space db db :=
  ⟨rfl, fun _ _ h => h⟩

theorem Advanced.trans {space : EmbeddingSpace} {db db' db'' : Db} (h : Advanced d space db db')
    (h' : Advanced d space db' db'') : Advanced d space db db'' :=
  ⟨h'.rows.trans h.rows, fun ns id hin => h'.inSpace ns id (h.inSpace ns id hin)⟩

theorem Settled.advanced {space : EmbeddingSpace} {db db' : Db} {e : MemoryEntry}
    (h : Settled d space db e) (hnext : Advanced d space db db') : Settled d space db' e :=
  h.imp_right (hnext.inSpace e.ns e.id)

section

variable {d : Digests} {w : Writer} {blocks : MemoryEntry → Bool} {ns : String}
  {space : EmbeddingSpace} {db : Db}

theorem rowEntry_key (row : MemoryEntry) : rowKey (rowEntry row) = rowKey row := by
  obtain ⟨confidence, metadata, hserved⟩ := servedView_fields (readBack row)
  rw [rowEntry, hserved]
  rfl

theorem mem_idRows {after : String} {through : Option String} {row : RowKey × MemoryEntry} :
    row ∈ idRows ns db after through ↔ db.memories.find row.1 = some row.2 ∧ row.1.ns = ns ∧
      after < row.1.id ∧ ∀ last ∈ through, row.1.id ≤ last := by
  rw [idRows, mem_sortOn, List.mem_filter, ← Table.mem_rows]
  cases through <;> simp [and_assoc]

theorem idRows_strict (after : String) (through : Option String) :
    StrictlySorted (fun row : RowKey × MemoryEntry => row.1.id) (idRows ns db after through) := by
  refine sortOn_strict _ (List.pairwise_map.mpr ?_)
  have hdistinct := List.pairwise_map.mp db.memories.nodup
  refine (hdistinct.sublist List.filter_sublist).imp_of_mem fun {a b} ha hb hne hid => hne ?_
  have ha := (List.mem_filter.mp ha).2
  have hb := (List.mem_filter.mp hb).2
  simp only [Bool.and_eq_true, beq_iff_eq] at ha hb
  cases a with
  | mk k _ =>
      cases b with
      | mk k' _ =>
          cases k
          cases k'
          simp only at ha hb hid
          simp [ha.1.1, hb.1.1, hid]

theorem idRows_after (after : String) (through : Option String) :
    idRows ns db after through =
      (idRows ns db "" through).filter fun row => decide (after < row.1.id) := by
  rw [idRows, idRows, filter_sortOn, List.filter_filter]
  congr 1
  refine List.filter_congr fun row _ => ?_
  by_cases hafter : after < row.1.id
  · have hempty : "" < row.1.id := lt_of_le_of_lt (empty_le after) hafter
    simp [hafter, hempty]
  · simp [hafter]

theorem Ready.entry_id (h : Ready blocks ns db) {row : RowKey × MemoryEntry} {after : String}
    {through : Option String} (hrow : row ∈ idRows ns db after through) :
    rowKey (rowEntry row.2) = row.1 :=
  (rowEntry_key row.2).trans (h.keyed _ _ (mem_idRows.mp hrow).1)

/-- The entries of a namespace up to a ceiling, by id. -/
def Ready.source (h : Ready blocks ns db) (through : Option String) :
    OrderedSource MemoryEntry String where
  key := MemoryEntry.id
  rows := (idRows ns db "" through).map fun row => rowEntry row.2
  sorted := by
    refine List.pairwise_map.mpr ((idRows_strict "" through).imp_of_mem fun {a b} ha hb hlt => ?_)
    have hid : ∀ row ∈ idRows ns db "" through, (rowEntry row.2).id = row.1.id := fun row hrow =>
      congrArg RowKey.id (h.entry_id hrow)
    rw [hid a ha, hid b hb]
    exact hlt

theorem Ready.mem_source (h : Ready blocks ns db) {through : Option String} {e : MemoryEntry} :
    e ∈ (h.source through).rows ↔ ∃ k row, db.memories.find k = some row ∧ k.ns = ns ∧
      (∀ last ∈ through, k.id ≤ last) ∧ e = rowEntry row ∧ rowKey e = k := by
  rw [Ready.source, List.mem_map]
  constructor
  · rintro ⟨row, hrow, rfl⟩
    obtain ⟨hfind, hns, -, hle⟩ := mem_idRows.mp hrow
    exact ⟨row.1, row.2, hfind, hns, hle, rfl, h.entry_id hrow⟩
  · rintro ⟨k, row, hfind, hns, hle, rfl, hkey⟩
    refine ⟨(k, row), mem_idRows.mpr ⟨hfind, hns, ?_, hle⟩, rfl⟩
    have hne : k.id ≠ "" := by
      rw [← hkey]
      exact (rowEntry row).id_ne
    exact lt_of_le_of_ne (empty_le _) hne.symm

theorem readable_of_read {row : MemoryEntry} (h : (rowToEntry row).isSome) :
    Storage.readable row = true := by
  obtain ⟨e, he⟩ := Option.isSome_iff_exists.mp h
  rw [Storage.readable, mapRow, rowToEntry_shifts he, he]
  rfl

/-- Pages that do not raise are refilled as ever. -/
theorem refillPages_eq {fetch : Option String → Nat → Except MapError (List MemoryEntry)}
    {pages : Option String → Nat → List MemoryEntry} (hfetch : ∀ after n,
      fetch after n = .ok (pages after n)) {limit fuel : Nat} {raw page out : List MemoryEntry}
    (h : refill blocks pages MemoryEntry.id limit fuel raw page = some out) :
    refillPages blocks fetch limit fuel raw page = .ok out := by
  induction fuel generalizing raw page with
  | zero => cases h
  | succ fuel ih =>
      rw [refill] at h
      rw [refillPages]
      split at h
      · rename_i hshort
        rw [if_pos hshort]
        cases hlast : raw.getLast? with
        | none =>
            rw [hlast] at h
            cases h
        | some last =>
            rw [hlast] at h
            dsimp only
            rw [hfetch]
            exact ih h
      · rename_i hfull
        rw [if_neg hfull]
        exact congrArg Except.ok (Option.some.inj h)

/-- A page of a namespace whose rows are all served. -/
theorem Ready.listById_eq (h : Ready blocks ns db) (through cursor : Option String)
    (limit : Nat) :
    listById blocks ns db through cursor limit = .ok ((h.source through).fetch cursor limit) := by
  have hafter : ∀ cursor : Option String, (h.source through).after cursor =
      (idRows ns db (cursor.getD "") through).map fun row => rowEntry row.2 := by
    intro cursor
    cases cursor with
    | none => rfl
    | some k =>
        rw [Option.getD_some, idRows_after, OrderedSource.after, behind, Ready.source,
          List.filter_map]
        congr 1
        refine List.filter_congr fun row hrow => ?_
        have hid := congrArg RowKey.id (h.entry_id hrow)
        simp only [Function.comp_apply]
        rw [← hid]
        rfl
  have hraw : ∀ cursor limit,
      rawById ns db through cursor limit = .ok ((h.source through).fetch cursor limit) := by
    intro cursor limit
    have hread : ∀ row ∈ ((idRows ns db (cursor.getD "") through).take limit).map Prod.snd,
        Storage.readable row = true := by
      intro row hrow
      obtain ⟨found, hfound, rfl⟩ := List.mem_map.mp hrow
      obtain ⟨hfind, hns, -⟩ := mem_idRows.mp (List.mem_of_mem_take hfound)
      exact readable_of_read (h.readable _ _ hfind hns)
    rw [rawById, fetchRows_readable hread, OrderedSource.fetch, hafter, ← List.map_take,
      List.map_map]
    rfl
  have hlength : (h.source through).rows.length ≤ db.memories.rows.length := by
    rw [Ready.source, List.length_map, idRows, (sortOn_perm _ _).length_eq]
    exact List.length_filter_le _ _
  have hexact := (quarantineReads_exact (h.source through) [] blocks cursor limit
    (db.memories.rows.length - (h.source through).rows.length)).2
  have hfuel : (h.source through).rows.length + 1 +
      (db.memories.rows.length - (h.source through).rows.length) =
      db.memories.rows.length + 1 := by omega
  have hserved : filterQuarantined blocks ((h.source through).after cursor) =
      (h.source through).after cursor := by
    refine List.filter_eq_self.mpr fun e he => ?_
    rw [hafter] at he
    obtain ⟨row, hrow, rfl⟩ := List.mem_map.mp he
    obtain ⟨hfind, hns, -⟩ := mem_idRows.mp hrow
    rw [h.unblocked _ _ hfind hns]
    rfl
  rw [hfuel, hserved] at hexact
  rw [listById, hraw]
  exact refillPages_eq hraw hexact

theorem vectorInSpace_iff {k : RowKey} :
    vectorInSpace space (recordOf d db k) = true ↔ HoldsSpace d db k.ns space k.id := by
  rw [vectorInSpace, recordOf, HoldsSpace]
  cases db.vectors.find k with
  | none => simp
  | some v =>
      cases hp : v.provenance with
      | none => simp [vectorRecord, hp]
      | some p =>
          cases hmatch : d.matchesVector p v.embedding <;>
            simp [vectorRecord, hp, Option.filter_some, hmatch]

/-- An item that was read of the store as it is gets its vector. -/
theorem reembedItem_quiet {current : Db} {item : PageItem} {row : MemoryEntry}
    {encode : Encoder} (hencodes : Encodes d w space encode)
    (hrow : db.memories.find (rowKey item.entry) = some row)
    (hread : (rowToEntry row).isSome) (hserved : blocks (rowEntry row) = false)
    (hentry : item.entry = rowEntry row)
    (hrecord : item.record = recordOf d db (rowKey item.entry))
    (hvector : item.vector = encode (embeddingText item.entry))
    (hcurrent : current.memories = db.memories) :
    ∃ next, reembedItem d w blocks db item current = some next ∧ Advanced d space current next ∧
      HoldsSpace d next item.entry.ns space item.entry.id := by
  obtain ⟨embedding, p, hencoded, hlands, hproof⟩ := hencodes (embeddingText item.entry)
  have hget : backendGet blocks current (rowKey item.entry) = .ok (some item.entry) := by
    obtain ⟨e, he⟩ := Option.isSome_iff_exists.mp hread
    have hview : servedView e = rowEntry row := by rw [rowToEntry_eq he, rowEntry]
    rw [← hentry] at hserved hview
    rw [backendGet, hcurrent, hrow]
    simp only [he, hview, hserved, Bool.false_eq_true, if_false]
  have hmatches := (d.generationProvenance_eq hproof).2
  have hspace : p.space = space := by
    obtain ⟨s, hs, hp⟩ := Option.bind_eq_some_iff.mp hproof
    obtain rfl := Option.some.inj hs
    rw [Digests.forVector] at hp
    split at hp
    · cases hp
    · obtain ⟨digest, -, rfl⟩ := Option.map_eq_some_iff.mp hp
      rfl
  refine ⟨{ current with
    vectors := current.vectors.put (rowKey item.entry)
      ⟨embedding, some p, embeddingText item.entry⟩ }, ?_, ⟨rfl, fun ns id hin => ?_⟩, ?_⟩
  · have hsame : ((db.vectors.find (rowKey item.entry)).map (vectorRecord d) !=
        item.record) = false := by
      rw [hrecord]
      exact bne_self_eq_false _
    unfold reembedItem
    simp only [hget, hvector, hencoded, hsame, hproof, Option.all_some, bne_self_eq_false,
      Bool.or_self, Bool.false_eq_true, if_false]
    rw [upsertVector_eq (by simpa using hmatches), if_pos hlands]
  · obtain ⟨v, proof, hv, hclaim⟩ := hin
    by_cases hk : (⟨ns, id⟩ : RowKey) = rowKey item.entry
    · exact ⟨_, p, by rw [hk]; exact Table.find_put_self _ _ _, rfl, hmatches, hspace⟩
    · exact ⟨v, proof, by rw [Table.find_put_of_ne _ _ hk]; exact hv, hclaim⟩
  · exact ⟨_, p, Table.find_put_self _ _ _, rfl, hmatches, hspace⟩

theorem reembedItems_quiet (hready : Ready blocks ns db) {through : Option String}
    {encode : Encoder} (hencodes : Encodes d w space encode) {items : List PageItem}
    (hitems : ∀ item ∈ items, item.entry ∈ (hready.source through).rows ∧
      item.record = recordOf d db (rowKey item.entry) ∧
      item.vector = encode (embeddingText item.entry)) (current : Db)
    (hcurrent : current.memories = db.memories) :
    ∃ left, items.foldlM (fun current item => reembedItem d w blocks db item current) current =
        some left ∧ Advanced d space current left ∧
      ∀ item ∈ items, HoldsSpace d left item.entry.ns space item.entry.id := by
  induction items generalizing current with
  | nil => exact ⟨current, rfl, .refl d space current, fun _ hnil => absurd hnil List.not_mem_nil⟩
  | cons item items ih =>
      obtain ⟨⟨hmem, hrecord, hvector⟩, hitems⟩ := List.forall_mem_cons.mp hitems
      obtain ⟨k, row, hfind, hns, -, hentry, hkey⟩ := hready.mem_source.mp hmem
      have hread := hready.readable k row hfind hns
      have hserved := hready.unblocked k row hfind hns
      rw [← hkey] at hfind
      obtain ⟨next, hnext, hadvanced, hin⟩ :=
        reembedItem_quiet hencodes hfind hread hserved hentry hrecord hvector hcurrent
      obtain ⟨left, hleft, hrest, hall⟩ := ih hitems next (hadvanced.rows.trans hcurrent)
      have hfirst : HoldsSpace d left item.entry.ns space item.entry.id :=
        hrest.inSpace item.entry.ns item.entry.id hin
      refine ⟨left, ?_, hadvanced.trans hrest, List.forall_mem_cons.mpr ⟨hfirst, hall⟩⟩
      rw [List.foldlM_cons, hnext]
      exact hleft

/-- A page without other writers is committed, and settles its rows. -/
theorem reembedBatch_quiet (hready : Ready blocks ns db) {through : Option String}
    {round : Round} {batch : List MemoryEntry}
    (hbetween : round.between db = db) (hmeanwhile : round.meanwhile db = db)
    (hencodes : Encodes d w space round.encode)
    (hbatch : ∀ e ∈ batch, e ∈ (hready.source through).rows) :
    ∃ commit, reembedBatch d w blocks space round batch db = some commit ∧
      Advanced d space db commit.left ∧ (∀ e ∈ batch, Settled d space commit.left e) ∧
      ((∀ e ∈ batch, Settled d space db e) → commit.left = db ∧ commit.reembedded = 0) := by
  rw [reembedBatch, hbetween, hmeanwhile]
  have hitems : ∀ item ∈ staleItems d space round.encode db batch,
      item.entry ∈ (hready.source through).rows ∧
        item.record = recordOf d db (rowKey item.entry) ∧
        item.vector = round.encode (embeddingText item.entry) := by
    intro item hitem
    obtain ⟨e, he, rfl⟩ := List.mem_map.mp hitem
    exact ⟨hbatch e (List.mem_of_mem_filter (List.mem_of_mem_filter he)), rfl, rfl⟩
  obtain ⟨left, hleft, hadvanced, hin⟩ := reembedItems_quiet hready hencodes hitems db rfl
  refine ⟨_, Option.map_eq_some_iff.mpr ⟨left, hleft, rfl⟩, hadvanced, fun e he => ?_, fun h => ?_⟩
  · cases hcanary : isSystemCanary e.metadata with
    | true => exact Or.inl hcanary
    | false =>
        cases hcurrent : vectorInSpace space (recordOf d db (rowKey e)) with
        | true => exact Or.inr (hadvanced.inSpace _ _ (vectorInSpace_iff.mp hcurrent))
        | false =>
            refine Or.inr (hin ⟨e, recordOf d db (rowKey e), round.encode (embeddingText e)⟩
              (List.mem_map.mpr ⟨e, List.mem_filter.mpr ⟨List.mem_filter.mpr ⟨he, ?_⟩, ?_⟩, rfl⟩))
            · rw [hcanary]
              rfl
            · rw [hcurrent]
              rfl
  · have hnone : staleItems d space round.encode db batch = [] := by
      rw [staleItems, List.map_eq_nil_iff, List.filter_eq_nil_iff]
      intro e he
      obtain ⟨he, hcanary⟩ := List.mem_filter.mp he
      rcases h e he with hsettled | hsettled
      · rw [hsettled] at hcanary
        cases hcanary
      · rw [vectorInSpace_iff.mpr hsettled]
        exact Bool.false_ne_true
    rw [hnone] at hleft
    obtain rfl := Option.some.inj hleft
    exact ⟨rfl, by rw [hnone]; rfl⟩

theorem Ready.of_rows {db' : Db} (h : Ready blocks ns db) (hrows : db'.memories = db.memories) :
    Ready blocks ns db' where
  keyed := by
    intro k row hrow
    rw [hrows] at hrow
    exact h.keyed k row hrow
  readable := by rw [hrows]; exact h.readable
  unblocked := by rw [hrows]; exact h.unblocked
  short := by rw [hrows]; exact h.short

theorem Ready.source_of_rows {db' : Db} (h : Ready blocks ns db)
    (hrows : db'.memories = db.memories) (through : Option String) :
    (h.of_rows hrows).source through = h.source through := by
  have hsame : idRows ns db' "" through = idRows ns db "" through := by rw [idRows, idRows, hrows]
  simp only [Ready.source, hsame]

/-- A key that a token can carry, and that is not taken for the beginning. -/
def Resumes (key : String) : Prop := key ≠ "" ∧ key.length ≤ MAX_KEY_PART_CHARS

/-- What is not after a cursor is settled. -/
def SettledTo (d : Digests) (space : EmbeddingSpace) (source : OrderedSource MemoryEntry String)
    (cursor : Option String) (db : Db) : Prop :=
  ∀ e ∈ source.rows, e ∉ source.after cursor → Settled d space db e

/-- What a sweep from a cursor makes of the store. -/
def SweptTo (d : Digests) (space : EmbeddingSpace) (source : OrderedSource MemoryEntry String)
    (cursor : Option String) (started : Prop) (db : Db) : Stop → Prop
  | .raised => False
  | .resume key => Resumes key ∧ SettledTo d space source (some key) db ∧
      (source.after (some key)).length ≤ (source.after cursor).length ∧
      (started → (source.after (some key)).length < (source.after cursor).length)
  | .finished => ∀ e ∈ source.rows, Settled d space db e

theorem SettledTo.advanced {source : OrderedSource MemoryEntry String} {cursor : Option String}
    {db db' : Db} (h : SettledTo d space source cursor db) (hnext : Advanced d space db db') :
    SettledTo d space source cursor db' :=
  fun e he hout => (h e he hout).advanced hnext

theorem SettledTo.stay {source : OrderedSource MemoryEntry String} {cursor : Option String}
    {started : Prop} {db : Db} (h : SettledTo d space source cursor db) (hcursor : cursor ≠ none)
    (hkey : ∀ key ∈ cursor, Resumes key) (hspent : ¬started) :
    ∃ key, cursor = some key ∧ SweptTo d space source cursor started db (.resume key) := by
  cases cursor with
  | none => exact absurd rfl hcursor
  | some key => exact ⟨key, rfl, hkey key rfl, h, le_rfl, fun hstarted => absurd hstarted hspent⟩

/-- A sweep goes on from its cursor, or has come to the end. -/
theorem sweepRows_quiet {call : ReembedCall} (hcall : Quiet d w space call) {ceiling : String}
    {fuel visited : Nat} {cursor : Option String} {db : Db} (hready : Ready blocks ns db)
    (hfuel : call.rows ≤ visited + fuel) (hcursor : cursor = none → visited < call.rows)
    (hkey : ∀ key ∈ cursor, Resumes key)
    (hsettled : SettledTo d space (hready.source (some ceiling)) cursor db) :
    ∃ commits stop left, sweepRows d w blocks ns space call ceiling fuel visited cursor db =
        (commits, stop, left) ∧ Advanced d space db left ∧
      SweptTo d space (hready.source (some ceiling)) cursor (visited < call.rows) left stop ∧
      ((∀ e ∈ (hready.source (some ceiling)).rows, Settled d space db e) →
        left = db ∧ ∀ commit ∈ commits, commit.reembedded = 0) := by
  induction fuel generalizing visited cursor db with
  | zero =>
      obtain ⟨key, rfl, hresume⟩ := hsettled.stay
        (fun hnone => absurd (hcursor hnone) (by omega)) hkey (by omega : ¬visited < call.rows)
      exact ⟨[], .resume key, db, rfl, .refl d space db, hresume, fun _ => ⟨rfl, nofun⟩⟩
  | succ fuel ih =>
      rw [sweepRows]
      split
      · rename_i hspent
        obtain ⟨key, rfl, hresume⟩ := hsettled.stay
          (fun hnone => absurd (hcursor hnone) (by omega)) hkey (by omega : ¬visited < call.rows)
        exact ⟨[], .resume key, db, rfl, .refl d space db, hresume, fun _ => ⟨rfl, nofun⟩⟩
      · rename_i hleft
        obtain ⟨hbefore, hbetween, hmeanwhile⟩ := hcall.round visited db
        have hencodes := hcall.encodes visited
        dsimp only
        rw [hbefore, hready.listById_eq]
        generalize call.round visited = round at hbetween hmeanwhile hencodes ⊢
        generalize hlimit : min call.page (call.rows - visited) = limit
        have hpos : 1 ≤ limit := by
          have hpage := hcall.page.1
          omega
        generalize hsource : hready.source (some ceiling) = source at hsettled
        have hbatch : ∀ e ∈ source.fetch cursor limit, e ∈ source.after cursor := fun e he =>
          List.mem_of_mem_take he
        have hrows : ∀ e ∈ source.after cursor, e ∈ source.rows := by
          cases cursor with
          | none => exact fun e he => he
          | some key => exact fun e he => List.mem_of_mem_filter he
        dsimp only
        cases hlast : (source.fetch cursor limit).getLast? with
        | none =>
            have hempty : source.after cursor = [] := by
              rcases List.take_eq_nil_iff.mp (List.getLast?_eq_none_iff.mp hlast) with hzero | hnil
              · omega
              · exact hnil
            refine ⟨[], .finished, db, rfl, .refl d space db, fun e he => ?_, fun _ => ⟨rfl, nofun⟩⟩
            exact hsettled e he (by rw [hempty]; exact List.not_mem_nil)
        | some last =>
            have hmembers : ∀ e ∈ source.fetch cursor limit,
                e ∈ (hready.source (some ceiling)).rows := fun e he => by
              rw [hsource]
              exact hrows e (hbatch e he)
            obtain ⟨commit, hcommit, hadvanced, hpage, hnone⟩ :=
              reembedBatch_quiet hready hbetween hmeanwhile hencodes hmembers
            have hkeyEq : source.key last = last.id := by rw [← hsource]; rfl
            have hafter := source.after_last hlast
            rw [hkeyEq] at hafter
            have hmem : last ∈ source.fetch cursor limit := List.mem_of_getLast? hlast
            have hlength : (source.fetch cursor limit).length =
                min limit (source.after cursor).length := List.length_take
            have hsettled' : SettledTo d space source (some last.id) commit.left := by
              intro e he hout
              by_cases hin : e ∈ source.after cursor
              · rw [hafter] at hout
                rw [← List.take_append_drop limit (source.after cursor), List.mem_append] at hin
                exact hpage e (hin.resolve_right hout)
              · exact (hsettled e he hin).advanced hadvanced
            have hkey' : Resumes last.id := by
              subst hsource
              obtain ⟨k, row, hfind, hns, -, -, hk⟩ :=
                hready.mem_source.mp (hrows last (hbatch last hmem))
              refine ⟨last.id_ne, ?_⟩
              have hshort := hready.short k row hfind hns
              rwa [← hk] at hshort
            have hshorter : (source.after (some last.id)).length <
                (source.after cursor).length := by
              have hsome := List.length_pos_of_mem hmem
              rw [hlength] at hsome
              rw [hafter, List.length_drop]
              omega
            rw [hcommit]
            dsimp only
            split
            · rename_i hshort
              refine ⟨[commit], .finished, commit.left, rfl, hadvanced, fun e he => ?_, fun h => ?_⟩
              · refine hsettled' e he ?_
                rw [hafter, List.drop_eq_nil_of_le (by omega)]
                exact List.not_mem_nil
              · obtain ⟨hsame, hzero⟩ := hnone fun e he => h e (hrows e (hbatch e he))
                exact ⟨hsame, List.forall_mem_singleton.mpr hzero⟩
            · split
              · refine ⟨[commit], .resume last.id, commit.left, rfl, hadvanced,
                  ⟨hkey', hsettled', hshorter.le, fun _ => hshorter⟩, fun h => ?_⟩
                obtain ⟨hsame, hzero⟩ := hnone fun e he => h e (hrows e (hbatch e he))
                exact ⟨hsame, List.forall_mem_singleton.mpr hzero⟩
              · rename_i hfull _
                rw [← hsource, ← hready.source_of_rows hadvanced.rows] at hsettled'
                have hfuel' : call.rows ≤
                    visited + (source.fetch cursor limit).length + fuel := by
                  have hsome := List.length_pos_of_mem hmem
                  omega
                obtain ⟨commits, stop, left, hrest, hrestAdvanced, hstop, hrestNone⟩ :=
                  ih (hready.of_rows hadvanced.rows) hfuel' (fun hnone => by cases hnone)
                    (fun key hkey => Option.some.inj hkey ▸ hkey') hsettled'
                rw [hready.source_of_rows hadvanced.rows, hsource] at hstop hrestNone
                rw [hrest]
                refine ⟨commit :: commits, stop, left, rfl, hadvanced.trans hrestAdvanced, ?_,
                  fun h => ?_⟩
                · cases stop with
                  | raised => exact hstop
                  | finished => exact hstop
                  | resume key =>
                      obtain ⟨hresumes, hto, hle, -⟩ := hstop
                      exact ⟨hresumes, hto, hle.trans hshorter.le, fun _ => hle.trans_lt hshorter⟩
                · obtain ⟨hsame, hzero⟩ := hnone fun e he => h e (hrows e (hbatch e he))
                  obtain ⟨hend, hzeros⟩ := hrestNone fun e he => by
                    rw [hsame]
                    exact h e he
                  exact ⟨hend.trans hsame, List.forall_mem_cons.mpr ⟨hzero, hzeros⟩⟩

end

end TrwMemory.Embeddings

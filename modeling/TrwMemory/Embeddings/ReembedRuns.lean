import TrwMemory.Embeddings.ReembedPages

/-!
Where a re-embed run ends. A call without other writers resumes from its token, or from the start,
and leaves a token of which the same can be said, with fewer rows behind it. A run that returns no
token has left every row but the canaries with a vector in its space, and a second one writes
nothing.
-/
namespace TrwMemory.Embeddings

open Library Library.Keyed Library.Keyset Storage Retrieval

section

variable {d : Digests} {w : Writer} {blocks : MemoryEntry → Bool} {ns : String}
  {space : EmbeddingSpace} {db : Db}

/-- Every row of the namespace but the canaries has a vector in the space. -/
def AllSettled (d : Digests) (ns : String) (space : EmbeddingSpace) (db : Db) : Prop :=
  ∀ k row, db.memories.find k = some row → k.ns = ns → Settled d space db (rowEntry row)

theorem AllSettled.advanced {db' : Db} (h : AllSettled d ns space db)
    (hnext : Advanced d space db db') : AllSettled d ns space db' := by
  intro k row hrow hns
  rw [hnext.rows] at hrow
  exact (h k row hrow hns).advanced hnext

theorem encodeToken_short (parts : List String) (hcount : parts.length = 3)
    (hshort : ∀ part ∈ parts, part.length ≤ MAX_KEY_PART_CHARS) :
    ∃ token, encodeToken parts = some token ∧ decodeToken token 3 = some parts := by
  have hencode : encodeToken parts = some (dumpsTight parts) := by
    rw [encodeToken, if_neg]
    rw [not_or, List.any_eq_true]
    refine ⟨by rw [hcount]; decide, ?_⟩
    rintro ⟨part, hpart, hlong⟩
    exact absurd (hshort part hpart) (Nat.not_le.mpr (of_decide_eq_true hlong))
  exact ⟨_, hencode, hcount ▸ decodeToken_encodeToken hencode⟩

theorem phase_short : ROWS.length ≤ MAX_KEY_PART_CHARS ∧ WARM.length ≤ MAX_KEY_PART_CHARS ∧
    "".length ≤ MAX_KEY_PART_CHARS := by decide

/-- The end of the run is the highest id of all rows. -/
theorem Ready.ceiling (h : Ready blocks ns db) (space : EmbeddingSpace) :
    (lastEntryId ns db).getD "" = "" ∧ AllSettled d ns space db ∨
      (lastEntryId ns db).getD "" ≠ "" ∧
        ((lastEntryId ns db).getD "").length ≤ MAX_KEY_PART_CHARS ∧
        ∀ db', db'.memories = db.memories →
          ((∀ e ∈ (h.source (some ((lastEntryId ns db).getD ""))).rows, Settled d space db' e) ↔
            AllSettled d ns space db') := by
  have hids : ∀ id, id ∈ rowIds db ns ↔ ∃ row, db.memories.find ⟨ns, id⟩ = some row := fun id => by
    rw [mem_rowIds, Option.isSome_iff_exists]
  cases hlast : lastEntryId ns db with
  | none =>
      refine Or.inl ⟨rfl, fun k row hrow hns => ?_⟩
      have hmem : k.id ∈ rowIds db ns := (hids k.id).mpr ⟨row, by rw [← hns]; exact hrow⟩
      rw [List.argmax_eq_none.mp hlast] at hmem
      cases hmem
  | some last =>
      obtain ⟨top, htop⟩ := (hids last).mp (List.argmax_mem hlast)
      have hid : last ≠ "" := by
        have hkey := congrArg RowKey.id (h.keyed _ top htop)
        exact fun hnil => top.id_ne (hkey.trans hnil)
      refine Or.inr ⟨hid, h.short _ top htop rfl, fun db' hrows => ⟨fun hall k row hrow hns => ?_,
        fun hall e he => ?_⟩⟩
      · rw [hrows] at hrow
        refine hall _ (h.mem_source.mpr ⟨k, row, hrow, hns, fun c hc => ?_, rfl,
          (rowEntry_key row).trans (h.keyed k row hrow)⟩)
        obtain rfl := Option.some.inj hc
        exact List.le_of_mem_argmax ((hids k.id).mpr ⟨row, by rw [← hns]; exact hrow⟩) hlast
      · obtain ⟨k, row, hfind, hns, -, rfl, -⟩ := h.mem_source.mp he
        exact hall k row (by rw [hrows]; exact hfind) hns

/-- Where a token resumes, and how many calls are left at most when the warm tier takes one. -/
inductive TokenAt (d : Digests) (ns : String) (space : EmbeddingSpace) (db : Db)
    (source : OrderedSource MemoryEntry String) : Option String → Nat → Prop where
  | start : TokenAt d ns space db source none (source.rows.length + 2)
  | rows (token key : String) (hdecode : decodeToken token 3 =
        some [ROWS, key, (lastEntryId ns db).getD ""])
      (hresumes : Resumes key) (hsettled : SettledTo d space source (some key) db) :
      TokenAt d ns space db source (some token) ((source.after (some key)).length + 2)
  | warm (token id : String) (hdecode : decodeToken token 3 = some [WARM, id, ""])
      (hall : AllSettled d ns space db) : TokenAt d ns space db source (some token) 1

theorem lastEntryId_of_rows {db' : Db} (hrows : db'.memories = db.memories) :
    lastEntryId ns db' = lastEntryId ns db := by
  rw [lastEntryId, lastEntryId, rowIds, rowIds, hrows]

theorem TokenAt.advanced {db' : Db} {source : OrderedSource MemoryEntry String}
    {token : Option String} {left : Nat} (h : TokenAt d ns space db source token left)
    (hnext : Advanced d space db db') : TokenAt d ns space db' source token left := by
  cases h with
  | start => exact .start
  | rows token key hdecode hresumes hsettled =>
      exact .rows token key (by rw [lastEntryId_of_rows hnext.rows]; exact hdecode) hresumes
        (hsettled.advanced hnext)
  | warm token id hdecode hall => exact .warm token id hdecode (hall.advanced hnext)

/-- What a call without other writers makes of the store, and of the place it resumed from. -/
structure CallEnds (d : Digests) (ns : String) (space : EmbeddingSpace)
    (source : OrderedSource MemoryEntry String) (call : ReembedCall) (left : Nat) (db : Db)
    (ended : List Commit × Stop × Db) : Prop where
  advanced : Advanced d space db ended.2.2
  finished : ended.2.1 = .finished → AllSettled d ns space ended.2.2
  resumed : ∀ token, ended.2.1 = .resume token → ∃ left', TokenAt d ns space ended.2.2 source
    (some token) left' ∧ (call.warm = (fun _ => none) → left' < left)
  raised : call.warm = (fun _ => none) → ended.2.1 ≠ .raised
  idle : AllSettled d ns space db → ended.2.2 = db ∧ ∀ commit ∈ ended.1, commit.reembedded = 0

theorem warmHalf_ends {source : OrderedSource MemoryEntry String} {call : ReembedCall}
    {after : Option String} {left : Nat} {commits : List Commit} {db' : Db}
    (hadvanced : Advanced d space db db') (hall : AllSettled d ns space db')
    (hidle : AllSettled d ns space db → db' = db ∧ ∀ commit ∈ commits, commit.reembedded = 0) :
    CallEnds d ns space source call left db (commits, warmHalf call after, db') := by
  refine ⟨hadvanced, fun _ => hall, fun token htoken => ?_, fun hnone hraised => ?_, hidle⟩
  · change warmHalf call after = .resume token at htoken
    rw [warmHalf] at htoken
    split at htoken
    · cases htoken
    · rename_i id hwarm
      cases hencode : encodeToken [WARM, id, ""] with
      | none =>
          rw [hencode] at htoken
          cases htoken
      | some encoded =>
          rw [hencode] at htoken
          obtain rfl := Stop.resume.inj htoken
          refine ⟨1, .warm _ id (decodeToken_encodeToken hencode) hall, fun hnone => ?_⟩
          rw [hnone] at hwarm
          cases hwarm
  · change warmHalf call after = .raised at hraised
    rw [warmHalf, hnone] at hraised
    cases hraised

theorem rowHalf_ends {call : ReembedCall} (hcall : Quiet d w space call)
    (hready : Ready blocks ns db) {id : String} {left : Nat}
    (hceiling : (lastEntryId ns db).getD "" ≠ "")
    (hid : ∀ key ∈ (if id = "" then none else some id), Resumes key)
    (hsettled : SettledTo d space (hready.source (some ((lastEntryId ns db).getD "")))
      (if id = "" then none else some id) db)
    (hleft : ((hready.source (some ((lastEntryId ns db).getD ""))).after
      (if id = "" then none else some id)).length + 2 ≤ left) :
    CallEnds d ns space (hready.source (some ((lastEntryId ns db).getD ""))) call left db
      (rowHalf d w blocks ns space call id ((lastEntryId ns db).getD "") db) := by
  obtain ⟨hnil, -⟩ | ⟨-, hshort, hall⟩ := hready.ceiling space
  · exact absurd hnil hceiling
  obtain ⟨commits, stop, swept, hsweep, hadvanced, hstop, hidle⟩ :=
    sweepRows_quiet hcall hready (by omega : call.rows ≤ 0 + call.rows)
      (fun _ => hcall.rows) hid hsettled
  have hidle' : AllSettled d ns space db → swept = db ∧ ∀ commit ∈ commits, commit.reembedded = 0 :=
    fun h => hidle ((hall db rfl).mpr h)
  rw [rowHalf, hsweep]
  cases stop with
  | raised => exact hstop.elim
  | resume key =>
      obtain ⟨hresumes, hto, -, hless⟩ := hstop
      obtain ⟨token, hencode, hdecode⟩ := encodeToken_short
        [ROWS, key, (lastEntryId ns db).getD ""] rfl (by
          simp only [List.forall_mem_cons, List.not_mem_nil, false_imp_iff, implies_true, and_true]
          exact ⟨phase_short.1, hresumes.2, hshort⟩)
      dsimp only
      rw [hencode]
      refine ⟨hadvanced, by simp, fun resumed htoken => ?_, fun _ => by simp, hidle'⟩
      obtain rfl := Stop.resume.inj htoken
      refine ⟨_, .rows token key ?_ hresumes hto, fun _ => ?_⟩
      · rw [lastEntryId_of_rows hadvanced.rows]
        exact hdecode
      · have hshorter := hless hcall.rows
        omega
  | finished =>
      have hdone : AllSettled d ns space swept := (hall swept hadvanced.rows).mp hstop
      dsimp only
      split
      · obtain ⟨token, hencode, hdecode⟩ := encodeToken_short [WARM, "", ""] rfl (by
          simp only [List.forall_mem_cons, List.not_mem_nil, false_imp_iff, implies_true, and_true]
          exact ⟨phase_short.2.1, phase_short.2.2, phase_short.2.2⟩)
        rw [hencode]
        refine ⟨hadvanced, by simp, fun resumed htoken => ?_, fun _ => by simp, hidle'⟩
        obtain rfl := Stop.resume.inj htoken
        exact ⟨1, .warm token "" hdecode hdone, fun _ => by omega⟩
      · exact warmHalf_ends hadvanced hdone hidle'

/-- One call, from the start or from a token. -/
theorem reembedRows_ends {call : ReembedCall} (hcall : Quiet d w space call)
    (hready : Ready blocks ns db) {token : Option String} {left : Nat}
    (htoken :
      TokenAt d ns space db (hready.source (some ((lastEntryId ns db).getD ""))) token left) :
    CallEnds d ns space (hready.source (some ((lastEntryId ns db).getD ""))) call left db
      (reembedRows d w blocks ns space call token db) := by
  have havail : w.backend.vecAvailable = true := by
    obtain ⟨embedding, -, -, hlands, -⟩ := hcall.encodes 0 ""
    rw [Writer.lands, Bool.and_eq_true, Bool.and_eq_true] at hlands
    exact hlands.1.1
  have hrefl : ∀ after, AllSettled d ns space db →
      CallEnds d ns space (hready.source (some ((lastEntryId ns db).getD ""))) call left db
        ([], warmHalf call after, db) := fun after hall =>
    warmHalf_ends (.refl d space db) hall fun _ => ⟨rfl, nofun⟩
  have hpage := hcall.page
  rw [reembedRows, if_neg (by rw [havail]; simp; omega)]
  cases htoken with
  | start =>
      dsimp only [Option.elim_none]
      rw [if_pos rfl]
      rcases hready.ceiling space with ⟨hnil, hall⟩ | ⟨hceiling, -⟩
      · rw [if_pos rfl, hnil, if_pos rfl]
        exact hnil ▸ hrefl none hall
      · rw [if_pos rfl, if_neg hceiling]
        exact rowHalf_ends hcall hready hceiling (by simp) (fun e he hout => absurd he hout) le_rfl
  | rows token key hdecode hresumes hsettled =>
      have hif : (if key = "" then none else some key) = some key := if_neg hresumes.1
      simp only [Option.elim_some, hdecode]
      rw [if_pos trivial]
      rcases hready.ceiling space with ⟨hnil, hall⟩ | ⟨hceiling, -⟩
      · rw [if_pos hnil, hnil, if_pos rfl]
        exact hnil ▸ hrefl none hall
      · rw [if_neg hceiling, if_neg hceiling]
        exact rowHalf_ends hcall hready hceiling
          (fun k hk => by rw [hif] at hk; exact Option.some.inj hk ▸ hresumes)
          (by rw [hif]; exact hsettled) (by rw [hif])
  | warm token id hdecode hall =>
      have hphase : WARM ≠ ROWS := by decide
      simp only [Option.elim_some, hdecode]
      rw [if_neg hphase, if_pos trivial]
      exact hrefl _ hall

/-- A run without other writers. Once it returns no token, every row of the namespace is settled;
where all of them were, it writes nothing. -/
theorem reembedRun_settles {calls : List ReembedCall}
    (hcalls : ∀ call ∈ calls, Quiet d w space call) (hready : Ready blocks ns db)
    {token : Option String} {left : Nat}
    (htoken :
      TokenAt d ns space db (hready.source (some ((lastEntryId ns db).getD ""))) token left) :
    Advanced d space db (reembedRun d w blocks ns space calls token db).2.2 ∧
      ((reembedRun d w blocks ns space calls token db).2.1 = true →
        AllSettled d ns space (reembedRun d w blocks ns space calls token db).2.2) ∧
      ((∀ call ∈ calls, call.warm = fun _ => none) → left ≤ calls.length →
        (reembedRun d w blocks ns space calls token db).2.1 = true) ∧
      (AllSettled d ns space db → (reembedRun d w blocks ns space calls token db).2.2 = db ∧
        ∀ commit ∈ (reembedRun d w blocks ns space calls token db).1, commit.reembedded = 0) := by
  induction calls generalizing token db left with
  | nil =>
      refine ⟨.refl d space db, nofun, fun _ hle => ?_, fun _ => ⟨rfl, nofun⟩⟩
      cases htoken <;> simp at hle
  | cons call calls ih =>
      obtain ⟨hcall, hcalls⟩ := List.forall_mem_cons.mp hcalls
      have hends := reembedRows_ends hcall hready htoken
      rw [reembedRun, hcall.start]
      generalize reembedRows d w blocks ns space call token db = ended at hends ⊢
      obtain ⟨commits, stop, next⟩ := ended
      obtain ⟨hadvanced, hfinished, hresumed, hraised, hidle⟩ := hends
      dsimp only at hadvanced hfinished hresumed hraised hidle
      have hsource : (hready.of_rows hadvanced.rows).source
          (some ((lastEntryId ns next).getD "")) =
          hready.source (some ((lastEntryId ns db).getD "")) := by
        rw [lastEntryId_of_rows hadvanced.rows, hready.source_of_rows hadvanced.rows]
      cases stop with
      | finished => exact ⟨hadvanced, fun _ => hfinished rfl, fun _ _ => rfl, hidle⟩
      | resume resumed =>
          obtain ⟨left', hat, hless⟩ := hresumed resumed rfl
          rw [← hsource] at hat
          obtain ⟨hrest, hdone, hends, hrestIdle⟩ := ih hcalls (hready.of_rows hadvanced.rows) hat
          refine ⟨hadvanced.trans hrest, hdone, fun hwarm hle => ?_, fun hall => ?_⟩
          · obtain ⟨hnone, hwarm⟩ := List.forall_mem_cons.mp hwarm
            have hfewer := hless hnone
            rw [List.length_cons] at hle
            exact hends hwarm (by omega)
          · obtain ⟨hsame, hzero⟩ := hidle hall
            obtain ⟨hend, hzeros⟩ := hrestIdle (by rw [hsame]; exact hall)
            exact ⟨hend.trans hsame, fun commit hcommit =>
              (List.mem_append.mp hcommit).elim (hzero commit) (hzeros commit)⟩
      | raised =>
          have hat := htoken.advanced hadvanced
          rw [← hsource] at hat
          obtain ⟨hrest, hdone, -, hrestIdle⟩ := ih hcalls (hready.of_rows hadvanced.rows) hat
          refine ⟨hadvanced.trans hrest, hdone, fun hwarm _ => ?_, fun hall => ?_⟩
          · exact absurd rfl (hraised (List.forall_mem_cons.mp hwarm).1)
          · obtain ⟨hsame, hzero⟩ := hidle hall
            obtain ⟨hend, hzeros⟩ := hrestIdle (by rw [hsame]; exact hall)
            exact ⟨hend.trans hsame, fun commit hcommit =>
              (List.mem_append.mp hcommit).elim (hzero commit) (hzeros commit)⟩

end

section

def loneRow : MemoryEntry := MemoryEntry.ofDefaults "m" "text" "default" ⟨0, some 0⟩ m_ne_empty

def loneStore : Db := { Db.empty with memories := Table.empty.put (rowKey loneRow) loneRow }

def anyDigests : Digests := ⟨fun _ => "", fun _ => some ""⟩

/-- A call that nobody disturbs, of an encoder with one vector for all texts. -/
def wholeCall (embedding : List Rat) (space : EmbeddingSpace) : ReembedCall where
  start db := db
  page := 64
  rows := 512
  bounded := false
  round _ := ⟨id, id, id, fun _ => some (embedding, some space), false⟩
  warm _ := none

theorem wholeCall_quiet {w : Writer} {embedding : List Rat} {space : EmbeddingSpace}
    (hlands : w.lands embedding = true) (hwidth : embedding.length = space.dimensions) :
    Quiet anyDigests w space (wholeCall embedding space) where
  page := ⟨show 1 ≤ 64 by decide, show 64 ≤ MAX_REEMBED_BATCH by decide⟩
  rows := show 1 ≤ 512 by decide
  start _ := rfl
  round _ _ := ⟨rfl, rfl, rfl⟩
  encodes _ text := by
    have hproof : ∃ p, anyDigests.generationProvenance (some space) text embedding = some p := by
      rw [Digests.generationProvenance, Option.bind_some, Digests.forVector,
        if_neg (not_not.mpr hwidth)]
      exact ⟨_, rfl⟩
    obtain ⟨p, hp⟩ := hproof
    exact ⟨embedding, p, rfl, hlands, hp⟩

theorem loneStore_ready : Ready (fun _ => false) "default" loneStore := by
  have hrow : ∀ k row, loneStore.memories.find k = some row →
      k = rowKey loneRow ∧ row = loneRow := by
    intro k row h
    rw [loneStore, Table.find_put] at h
    split at h
    · rename_i hk
      exact ⟨hk, (Option.some.inj h).symm⟩
    · cases h
  constructor
  · intro k row h
    obtain ⟨rfl, rfl⟩ := hrow k row h
    rfl
  · intro k row h _
    obtain ⟨rfl, rfl⟩ := hrow k row h
    have hvalid : validEntry (readBack loneRow) = true := by
      unfold validEntry
      decide +kernel
    rw [rowToEntry_of_valid (by decide) hvalid]
    rfl
  · exact fun _ _ _ _ => rfl
  · intro k row h _
    obtain ⟨rfl, rfl⟩ := hrow k row h
    decide

end

end TrwMemory.Embeddings

import TrwMemory.Embeddings.VectorRuns
import TrwMemory.Sync.PulledRows

/-!
A page of pulled rows against the calls for its rows one by one. The page's tool differs in
what it does once: it checks its namespace and its length, and it resolves the embedder for
the first row that gets as far. Row by row both run the same body, so with an embedder that
resolves alike all along they agree on every row and leave the same world.
-/
namespace TrwMemory.Sync.SyncHost

open Library Library.Keyed Storage Tools Embeddings

variable {ω ε : Type} (h : SyncHost ω ε)

/-- What raises, conflicts or is refused in the transaction has changed nothing. -/
theorem commitPulled_unchanged {ifRevision : Option String} {k : RowKey} {row : MemoryEntry}
    {vector : Option StoredVector} {synced : Bool} {blocks : MemoryEntry → Bool} {now : Datetime}
    {db : Db}
    (hnot : (h.commitPulled ifRevision k row vector synced blocks now db).1 ≠ .ok .stored) :
    (h.commitPulled ifRevision k row vector synced blocks now db).2 = db := by
  unfold commitPulled at hnot ⊢
  cases hcurrent : backendGet blocks db k with
  | error e => rfl
  | ok current =>
      rw [hcurrent] at hnot
      dsimp only at hnot ⊢
      split
      · rfl
      · rename_i hrevision
        rw [if_neg hrevision] at hnot
        cases hscript : storeScript h.digest h.writer.backend db row with
        | error e => rfl
        | ok statements =>
            rw [hscript] at hnot
            dsimp only at hnot ⊢
            split
            · rfl
            · rename_i hwritten
              rw [hwritten] at hnot
              exact absurd rfl hnot

/-- The transaction is the one of `applySyncedEntry`, with its errors told apart. -/
theorem commitPulled_eq_applySyncedEntry (ifRevision : Option String) (row : MemoryEntry)
    (synced : Bool) (result : EmbedResult) (blocks : MemoryEntry → Bool) (now : Datetime)
    (db : Db) :
    (h.commitPulled ifRevision (rowKey row) row
        (result.encoded h.digests (embeddingText row)) synced blocks now db).2 =
      (applySyncedEntry h.digest h.digests h.token h.writer blocks ifRevision row synced result
        now db).1 := by
  unfold commitPulled applySyncedEntry storeWithVector
  dsimp only
  cases backendGet blocks db (rowKey row) with
  | error e => rfl
  | ok current =>
      dsimp only
      split
      · rfl
      · cases storeScript h.digest h.writer.backend db row with
        | error e => rfl
        | ok statements =>
            dsimp only
            cases result.encoded h.digests (embeddingText row) with
            | none => rfl
            | some vector =>
                dsimp only
                cases upsertVector h.digests h.writer (rowKey row) vector
                  (execute statements db) with
                | none => rfl
                | some written => rfl

/-- The embedder that is kept is the one that would be resolved now. -/
def KeepsResolved (cached : Option (Option ε)) : Prop :=
  ∀ embedder ∈ cached, ∀ w, h.resolve w = .ok embedder

/-- The tool of one row asks for the embedder each time. -/
def resolveEach (_ : Unit) (w : PulledWorld ω) : Except PyException (Option ε) × Unit :=
  (h.resolve w, ())

theorem embedderOnce_resolves (hresolve : ∀ w w', h.resolve w = h.resolve w')
    {cached : Option (Option ε)} (hcached : h.KeepsResolved cached) (w : PulledWorld ω) :
    (h.embedderOnce cached w).1 = h.resolve w ∧ h.KeepsResolved (h.embedderOnce cached w).2 := by
  cases cached with
  | some embedder => exact ⟨(hcached embedder rfl w).symm, hcached⟩
  | none =>
      rw [embedderOnce]
      cases hnow : h.resolve w with
      | error e => exact ⟨rfl, fun _ hmem => by cases hmem⟩
      | ok embedder =>
          refine ⟨rfl, fun kept hkept w' => ?_⟩
          obtain rfl := Option.some.inj hkept
          rw [hresolve w' w, hnow]

theorem applyRow_embedderOnce (hresolve : ∀ w w', h.resolve w = h.resolve w')
    {cached : Option (Option ε)} (hcached : h.KeepsResolved cached) (ns : String)
    (entry : Fields) (ifRevision : Option String) (synced : Bool) (w : PulledWorld ω) :
    let once := h.applyRow h.embedderOnce ns entry ifRevision synced cached w
    let each := h.applyRow h.resolveEach ns entry ifRevision synced () w
    once.1 = each.1 ∧ once.2.1 = each.2.1 ∧ h.KeepsResolved once.2.2 := by
  obtain ⟨hsame, hkept⟩ := h.embedderOnce_resolves hresolve hcached w
  unfold applyRow
  cases h.checkRow ns entry with
  | error text => exact ⟨rfl, rfl, hcached⟩
  | ok row =>
      dsimp only
      rw [resolveEach, ← hsame]
      generalize h.embedderOnce cached w = resolved at hkept
      obtain ⟨embedder | e, cached⟩ := resolved
      · exact ⟨rfl, rfl, hkept⟩
      · exact ⟨rfl, rfl, hkept⟩

def Granted (ns : String) : Prop := h.invalidNamespace ns = none ∧ h.denied ns = none

theorem refusedNamespace_granted {ns : String} (hns : h.Granted ns) (operation : String) :
    h.refusedNamespace ns operation = .ok none := by
  rw [refusedNamespace, hns.1]
  dsimp only
  rw [hns.2]

theorem memorySyncApply_granted {ns : String} (hns : h.Granted ns) (entry : Fields)
    (ifRevision : Option String) (synced : Bool) (w : PulledWorld ω) :
    h.memorySyncApply ns entry ifRevision synced w =
      ((h.applyRow h.resolveEach ns entry ifRevision synced () w).1,
        (h.applyRow h.resolveEach ns entry ifRevision synced () w).2.1) := by
  rw [memorySyncApply, h.refusedNamespace_granted hns]
  rfl

/-- Item by item, whatever the rows before it have done. -/
theorem applyItems_eq_inTurn (hresolve : ∀ w w', h.resolve w = h.resolve w') {ns : String}
    (hns : h.Granted ns) (items : List Fields) {cached : Option (Option ε)}
    (hcached : h.KeepsResolved cached) (w : PulledWorld ω) :
    h.applyItems ns items cached w =
      ((h.applyInTurn ns items w).1.map verdictOf, (h.applyInTurn ns items w).2) := by
  induction items generalizing cached w with
  | nil => rfl
  | cons item items ih =>
      rw [applyItems, applyInTurn]
      cases itemArguments item with
      | none =>
          dsimp only
          rw [ih hcached]
          rfl
      | some arguments =>
          obtain ⟨entry, revision, synced⟩ := arguments
          obtain ⟨hanswer, hworld, hkept⟩ :=
            h.applyRow_embedderOnce hresolve hcached ns entry revision synced w
          dsimp only
          rw [h.memorySyncApply_granted hns, ih hkept, hanswer, hworld]
          rfl

/-- The results of the page are the verdicts of the calls, and the world is the one they
leave. -/
def SameInTurn (ns : String) (items : List Fields) (w : PulledWorld ω) : Prop :=
  h.memorySyncApplyMany ns items w =
    (.ok (.results ((h.applyInTurn ns items w).1.map verdictOf)), (h.applyInTurn ns items w).2)

/-- The call was refused as a whole. -/
def Refused : Except PyException BatchAnswer → Prop
  | .error _ | .ok (.invalid _) => True
  | .ok (.results _) => False

theorem applyInTurn_refused {ns : String} (hns : ¬h.Granted ns) (items : List Fields)
    (w : PulledWorld ω) : (h.applyInTurn ns items w).2 = w := by
  have hcall : ∀ entry revision synced,
      (h.memorySyncApply ns entry revision synced w).2 = w := by
    intro entry revision synced
    rw [memorySyncApply, refusedNamespace]
    cases hinvalid : h.invalidNamespace ns with
    | some text => rfl
    | none =>
        cases hdenied : h.denied ns with
        | some denial => rfl
        | none => exact absurd ⟨hinvalid, hdenied⟩ hns
  induction items with
  | nil => rfl
  | cons item items ih =>
      rw [applyInTurn]
      cases itemArguments item with
      | none => exact ih
      | some arguments =>
          obtain ⟨entry, revision, synced⟩ := arguments
          dsimp only
          rw [hcall, ih]

theorem memorySyncApplyMany_denied {ns : String} (hns : ¬h.Granted ns) (items : List Fields)
    (w : PulledWorld ω) :
    Refused (h.memorySyncApplyMany ns items w).1 ∧ (h.memorySyncApplyMany ns items w).2 = w := by
  rw [memorySyncApplyMany, refusedNamespace]
  cases hinvalid : h.invalidNamespace ns with
  | some text => exact ⟨trivial, rfl⟩
  | none =>
      cases hdenied : h.denied ns with
      | some denial => exact ⟨trivial, rfl⟩
      | none => exact absurd ⟨hinvalid, hdenied⟩ hns

theorem memorySyncApplyMany_over {ns : String} (hns : h.Granted ns) {items : List Fields}
    (hcount : MAX_SYNC_APPLY_MANY < items.length) (w : PulledWorld ω) :
    h.memorySyncApplyMany ns items w =
      (.ok (.invalid ("too_many_items: " ++ toString items.length ++ " > " ++
        toString MAX_SYNC_APPLY_MANY)), w) := by
  rw [memorySyncApplyMany, h.refusedNamespace_granted hns]
  dsimp only
  rw [if_pos hcount]

/-- A page within its limit, in a namespace that may be written, is its rows in turn. A page
that is refused has written nothing; a refused namespace is refused row by row as well. -/
theorem applyMany_inTurn (hresolve : ∀ w w', h.resolve w = h.resolve w') (ns : String)
    (items : List Fields) (w : PulledWorld ω) :
    (h.Granted ns → items.length ≤ MAX_SYNC_APPLY_MANY → h.SameInTurn ns items w) ∧
      (¬(h.Granted ns ∧ items.length ≤ MAX_SYNC_APPLY_MANY) →
        Refused (h.memorySyncApplyMany ns items w).1 ∧
          (h.memorySyncApplyMany ns items w).2 = w) ∧
      (¬h.Granted ns → (h.applyInTurn ns items w).2 = w) := by
  refine ⟨fun hns hcount => ?_, fun hnot => ?_, fun hns => h.applyInTurn_refused hns items w⟩
  · have hfresh : h.KeepsResolved none := fun _ hmem => by cases hmem
    have hloop := h.applyItems_eq_inTurn hresolve hns items hfresh w
    rw [SameInTurn, memorySyncApplyMany, h.refusedNamespace_granted hns]
    dsimp only
    rw [if_neg (Nat.not_lt.mpr hcount), hloop]
  · by_cases hns : h.Granted ns
    · have hcount := Nat.lt_of_not_le fun hle => hnot ⟨hns, hle⟩
      rw [h.memorySyncApplyMany_over hns hcount]
      exact ⟨trivial, rfl⟩
    · exact h.memorySyncApplyMany_denied hns items w

/-- A host that lets every row through, without an encoder; its clock counts. -/
def plainHost : SyncHost Nat Unit where
  digest := SyncContent.content
  digests := textDigests
  token := MemoryEntry.content
  writer := process
  backendName := "SQLiteBackend"
  transactional := true
  strOf := fun v => match v with
    | .str s => s
    | _ => ""
  repr := fun s => "'" ++ s ++ "'"
  readFailure := fun id => "Failed to get entry " ++ id
  validate := fun fields => match Dict.get fields "id" with
    | some (.str id) =>
        if hid : id ≠ "" then .ok (MemoryEntry.ofDefaults id "text" "team" ⟨0, some 0⟩ hid)
        else .error "id: String should have at least 1 character"
    | _ => .error "id: Field required"
  invalidNamespace := fun _ => none
  denied := fun _ => none
  prepare := fun entry w => (.ok ⟨entry, false⟩, w)
  quarantine := fun _ w => (.ok (), w)
  blocks := fun _ _ => false
  resolve := fun _ => .ok none
  embed := fun _ _ rest => (.absent, rest)
  now := fun n => (⟨n, some 0⟩, n + 1)

def newRow : Fields := [("entry", .obj [("id", .str "a")]), ("if_revision", .null)]

theorem plainHost_inTurn : plainHost.SameInTurn "team" [newRow, [], newRow] ⟨Db.empty, 0⟩ :=
  (plainHost.applyMany_inTurn (fun _ _ => rfl) "team" [newRow, [], newRow] ⟨Db.empty, 0⟩).1
    ⟨rfl, rfl⟩ (by decide)

example : (plainHost.memorySyncApplyMany "team" [newRow, [], newRow] ⟨Db.empty, 0⟩).1 =
    .ok (.results [.answered .stored "", ITEM_SHAPE,
      .answered .conflict (conflictText "a")]) := by
  decide +kernel

/-- One row more than a page may have. -/
def longPage : List Fields := List.replicate 201 newRow

theorem longPage_refused : ¬plainHost.SameInTurn "team" longPage ⟨Db.empty, 0⟩ := by
  intro hsame
  have hcount : MAX_SYNC_APPLY_MANY < longPage.length := by
    rw [longPage, List.length_replicate]
    decide
  rw [SameInTurn, plainHost.memorySyncApplyMany_over ⟨rfl, rfl⟩ hcount] at hsame
  cases hsame

end TrwMemory.Sync.SyncHost

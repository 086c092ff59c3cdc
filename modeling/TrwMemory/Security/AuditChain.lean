import TrwMemory.Security.AuditLog

/-!
The audit log as a list of linked records: what its readers make of lines that the log has
written, when `verify_chain` accepts, and that two accepted files with one head hold the same
records.
-/
namespace TrwMemory.Security.Audit

open Library Library.HashChain

variable {lib : AuditLibrary}

/-- The record's own digest is right. -/
def Hashed (lib : AuditLibrary) (r : AuditRecord) : Prop :=
  r.hash = computeHash lib r.prevHash (modelDump lib r)

abbrev LinkedFrom : String → List AuditRecord → Prop :=
  Linked AuditRecord.prevHash AuditRecord.hash

/-- The digest that the next record names. -/
def headHash (rs : List AuditRecord) : String := head AuditRecord.hash GENESIS_HASH rs

/-- A record without its place in the chain. -/
def AuditRecord.content (r : AuditRecord) : AuditRecord :=
  { r with prevHash := "", hash := "" }

theorem canonicalJson_modelDump (r : AuditRecord) :
    canonicalJson (modelDump lib r) = (Json.obj [("actor", .str r.actor), ("data", .obj r.data.val),
      ("id", .str r.id), ("namespace", .str r.ns), ("op", .str r.op),
      ("prev_hash", .str r.prevHash), ("ts", .str (lib.dumpTs r.ts))]).dumpsCompact := by
  simp [canonicalJson, modelDump]

@[simp]
theorem chained_prevHash (h : String) (r : AuditRecord) : (chained lib h r).prevHash = h := rfl

@[simp]
theorem chained_ts (h : String) (r : AuditRecord) : (chained lib h r).ts = r.ts := rfl

@[simp]
theorem chained_content (h : String) (r : AuditRecord) :
    (chained lib h r).content = r.content := rfl

theorem chained_hashed (h : String) (r : AuditRecord) : Hashed lib (chained lib h r) := by
  rw [Hashed, computeHash, canonicalJson_modelDump]
  simp only [chained, computeHash, canonicalJson_modelDump]

/-- A record of the log's own clock is read back as it was written. -/
theorem modelValidate_modelDump (hlib : lib.Documented) {r : AuditRecord}
    (hts : WholeMinutes r.ts) (now : UtcNow) :
    modelValidate lib now (modelDump lib r) = some r := by
  have htime : tsField lib.toChainLibrary now (modelDump lib r).val = some r.ts := by
    simpa [tsField, modelDump, Json.field?] using hlib.reads_back r.ts hts
  have hdata : dataField (modelDump lib r) = some r.data := by
    unfold dataField
    split
    · rename_i h
      simp [modelDump, Json.field?] at h
    · rename_i data h
      have hval : r.data.val = data := by simpa [modelDump, Json.field?] using h
      exact congrArg some (Subtype.ext hval.symm)
    · rename_i v hne h
      have hval : Json.obj r.data.val = v := by simpa [modelDump, Json.field?] using h
      exact absurd hval.symm (hne r.data.val)
  rw [modelValidate, htime, hdata]
  simp [strField, modelDump, Json.field?]

theorem recordDict_recordLine (n : Nat) (r : AuditRecord) :
    recordDict n (recordLine lib r) = .ok (modelDump lib r) := rfl

theorem readAllFrom_cons (clock : Nat → UtcNow) (n : Nat) (r : AuditRecord)
    (lines : List ChainLine) :
    readAllFrom lib clock n (recordLine lib r :: lines) =
      match modelValidate lib (clock n) (modelDump lib r) with
      | none => .error ("Corrupt audit record at line " ++ toString n ++ ": ValidationError")
      | some r => do
          let rs ← readAllFrom lib clock (n + 1) lines
          return r :: rs := rfl

theorem readAllFrom_recordLine (hlib : lib.Documented) {rs : List AuditRecord}
    (hts : ∀ r ∈ rs, WholeMinutes r.ts) (clock : Nat → UtcNow) (n : Nat) :
    readAllFrom lib clock n (rs.map (recordLine lib)) = .ok rs := by
  induction rs generalizing n with
  | nil => rfl
  | cons r rs ih =>
      obtain ⟨hr, hrs⟩ := List.forall_mem_cons.mp hts
      rw [List.map_cons, readAllFrom_cons, modelValidate_modelDump hlib hr]
      dsimp only
      rw [ih hrs]
      rfl

theorem recordDicts_recordLine (rs : List AuditRecord) (n : Nat) :
    recordDicts n (rs.map (recordLine lib)) = .ok (rs.map (modelDump lib)) := by
  induction rs generalizing n with
  | nil => rfl
  | cons r rs ih =>
      have hstep : recordDicts n (recordLine lib r :: rs.map (recordLine lib)) = (do
          let rest ← recordDicts (n + 1) (rs.map (recordLine lib))
          return modelDump lib r :: rest) := rfl
      rw [List.map_cons, hstep, ih]
      rfl

theorem lastHashFrom_recordLine {rs : List AuditRecord} (hhash : ∀ r ∈ rs, r.hash ≠ "") (n : Nat)
    (lastHash : Option String) :
    lastHashFrom n lastHash (rs.map (recordLine lib)) =
      .ok ((rs.getLast?.map AuditRecord.hash).or lastHash) := by
  induction rs generalizing n lastHash with
  | nil => rfl
  | cons r rs ih =>
      obtain ⟨hr, hrs⟩ := List.forall_mem_cons.mp hhash
      have hstep : lastHashFrom n lastHash (recordLine lib r :: rs.map (recordLine lib)) =
          if r.hash = "" then .error "Corrupt audit record at chain tail: missing hash"
          else lastHashFrom (n + 1) (some r.hash) (rs.map (recordLine lib)) := rfl
      rw [List.map_cons, hstep, if_neg hr, ih hrs]
      cases rs with
      | nil => rfl
      | cons r' rs =>
          rw [List.getLast?_cons_cons]
          cases hlast : (r' :: rs).getLast? with
          | none => exact absurd (List.getLast?_eq_none_iff.mp hlast) (List.cons_ne_nil r' rs)
          | some last => rfl

theorem readOldestTs_recordLine (rs : List AuditRecord) (n : Nat) :
    readOldestTs lib n (rs.map (recordLine lib)) =
      .ok (rs.head?.bind fun r => (lib.fromisoformat (lib.dumpTs r.ts)).map replaceUtc) := by
  cases rs <;> rfl

theorem verifyFrom_iff {total n : Nat} {h : String} {rs : List AuditRecord} :
    (verifyFrom lib total n h rs).valid = true ↔ LinkedFrom h rs ∧ ∀ r ∈ rs, Hashed lib r := by
  induction rs generalizing n h with
  | nil => simp [verifyFrom, Linked]
  | cons r rs ih =>
      rw [verifyFrom]
      split
      · rename_i hprev
        simp [Linked, hprev]
      · rename_i hprev
        rw [ne_eq, not_not] at hprev
        split
        · rename_i hhash
          simp [Hashed, hhash]
        · rename_i hhash
          rw [ne_eq, not_not] at hhash
          rw [ih, List.forall_mem_cons]
          constructor
          · rintro ⟨hlinked, hrest⟩
            exact ⟨⟨hprev, hlinked⟩, hhash, hrest⟩
          · rintro ⟨⟨-, hlinked⟩, -, hrest⟩
            exact ⟨hlinked, hrest⟩

/-- `verify_chain` accepts the file. -/
def Accepted (lib : AuditLibrary) (clock : Nat → UtcNow) (file : Option (List ChainLine)) : Prop :=
  ∃ report, verifyChain lib clock file = .ok report ∧ report.valid = true

theorem accepted_iff {clock : Nat → UtcNow} {file : Option (List ChainLine)} :
    Accepted lib clock file ↔
      ∃ rs, readAll lib clock file = .ok rs ∧ LinkedFrom GENESIS_HASH rs ∧
        ∀ r ∈ rs, Hashed lib r := by
  rw [Accepted, verifyChain]
  cases readAll lib clock file with
  | error message =>
      constructor
      · rintro ⟨_, h, -⟩
        cases h
      · rintro ⟨_, h, -⟩
        cases h
  | ok rs =>
      constructor
      · rintro ⟨_, h, hvalid⟩
        cases h
        exact ⟨rs, rfl, verifyFrom_iff.mp hvalid⟩
      · rintro ⟨_, h, hrs⟩
        cases h
        exact ⟨_, rfl, verifyFrom_iff.mpr hrs⟩

theorem modelValidate_minutes (hlib : lib.Documented) {now : UtcNow} {fields : JsonObject}
    {r : AuditRecord} (h : modelValidate lib now fields = some r) : WholeMinutes r.ts := by
  simp only [modelValidate, Option.bind_eq_bind, Option.bind_eq_some_iff, pure,
    Option.some.injEq] at h
  obtain ⟨ts, hts, _, -, _, -, _, -, _, -, _, -, _, -, _, -, rfl⟩ := h
  exact tsField_minutes hlib.toDocumented hts

theorem readAllFrom_minutes (hlib : lib.Documented) {clock : Nat → UtcNow} {n : Nat}
    {lines : List ChainLine} {rs : List AuditRecord}
    (h : readAllFrom lib clock n lines = .ok rs) : ∀ r ∈ rs, WholeMinutes r.ts := by
  induction lines generalizing n rs with
  | nil =>
      cases h
      simp
  | cons line lines ih =>
      rw [readAllFrom] at h
      split at h
      · exact ih h
      · cases hdict : recordDict n line with
        | error message =>
            rw [hdict] at h
            cases h
        | ok fields =>
            rw [hdict] at h
            dsimp only [bind, Except.bind] at h
            cases hvalid : modelValidate lib (clock n) fields with
            | none =>
                rw [hvalid] at h
                cases h
            | some r =>
                rw [hvalid] at h
                dsimp only at h
                cases hrest : readAllFrom lib clock (n + 1) lines with
                | error message =>
                    rw [hrest] at h
                    cases h
                | ok rest =>
                    rw [hrest] at h
                    cases h
                    exact List.forall_mem_cons.mpr ⟨modelValidate_minutes hlib hvalid, ih hrest⟩

/-- The text that is hashed of a record. -/
def material (lib : AuditLibrary) (r : AuditRecord) : String :=
  r.prevHash ++ canonicalJson (modelDump lib r)

/-- No two different texts of these records have one digest, and none has the first one. -/
structure NoCollision (lib : AuditLibrary) (rs ts : List AuditRecord) : Prop where
  distinct : ∀ r ∈ rs, ∀ t ∈ ts,
    lib.sha256 (material lib r) = lib.sha256 (material lib t) → material lib r = material lib t
  fresh : ∀ r, r ∈ rs ∨ r ∈ ts → lib.sha256 (material lib r) ≠ GENESIS_HASH

theorem material_inj (hlib : lib.Documented) {r t : AuditRecord} (hr : WholeMinutes r.ts)
    (ht : WholeMinutes t.ts) (hlength : r.prevHash.length = t.prevHash.length)
    (hhash : r.hash = t.hash) (h : material lib r = material lib t) : r = t := by
  have hchars := congrArg String.toList h
  rw [material, material, String.toList_append, String.toList_append] at hchars
  obtain ⟨hprev, htext⟩ := List.append_inj hchars hlength
  have hjson := String.toList_inj.mp htext
  rw [canonicalJson_modelDump, canonicalJson_modelDump] at hjson
  have hproper : ∀ s : AuditRecord, (Json.obj [("actor", .str s.actor), ("data", .obj s.data.val),
      ("id", .str s.id), ("namespace", .str s.ns), ("op", .str s.op),
      ("prev_hash", .str s.prevHash), ("ts", .str (lib.dumpTs s.ts))]).proper = true := by
    intro s
    simp [Json.proper, Json.properFields, s.data.property]
  have hfields := Json.dumpsCompact_inj (hproper r) (hproper t) hjson
  simp only [Json.obj.injEq, List.cons.injEq, Prod.mk.injEq, Json.str.injEq, true_and,
    and_true] at hfields
  obtain ⟨hactor, hdata, hid, hns, hop, hprev', hts⟩ := hfields
  have htime : r.ts = t.ts := by
    have hread := hlib.reads_back r.ts hr
    rw [hts, hlib.reads_back t.ts ht] at hread
    exact (Option.some.inj hread).symm
  have hdata' : r.data = t.data := Subtype.ext hdata
  cases r
  cases t
  simp_all

theorem prevHash_length (hlib : lib.Documented) {rs : List AuditRecord}
    (hlinked : LinkedFrom GENESIS_HASH rs) (hhashed : ∀ r ∈ rs, Hashed lib r) :
    ∀ r ∈ rs, r.prevHash.length = 64 := by
  intro r hr
  rcases linked_prev hlinked r hr with hfirst | ⟨t, ht, hlater⟩
  · rw [hfirst]
    decide
  · rw [hlater, hhashed t ht]
    exact hlib.sha256_length _

theorem readAll_determined (hlib : lib.Documented) {clock clock' : Nat → UtcNow}
    {file file' : Option (List ChainLine)} {rs ts : List AuditRecord}
    (hrs : readAll lib clock file = .ok rs) (hts : readAll lib clock' file' = .ok ts)
    (haccepted : Accepted lib clock file) (haccepted' : Accepted lib clock' file')
    (hcollision : NoCollision lib rs ts) (hhead : headHash rs = headHash ts) : rs = ts := by
  obtain ⟨_, hrs', hlinked, hhashed⟩ := accepted_iff.mp haccepted
  obtain ⟨_, hts', hlinked', hhashed'⟩ := accepted_iff.mp haccepted'
  rw [hrs] at hrs'
  rw [hts] at hts'
  cases hrs'
  cases hts'
  have hdigest : ∀ r, r ∈ rs ∨ r ∈ ts → r.hash = lib.sha256 (material lib r) :=
    fun r hr => hr.elim (hhashed r) (hhashed' r)
  refine linked_determined hlinked hlinked' hhead ?_ ?_
  · intro r hr t ht hhash
    refine material_inj hlib (readAllFrom_minutes hlib hrs r hr) (readAllFrom_minutes hlib hts t ht)
      ?_ hhash (hcollision.distinct r hr t ht ?_)
    · rw [prevHash_length hlib hlinked hhashed r hr, prevHash_length hlib hlinked' hhashed' t ht]
    · rw [← hdigest r (.inl hr), ← hdigest t (.inr ht), hhash]
  · intro r hr
    rw [hdigest r hr]
    exact hcollision.fresh r hr

end TrwMemory.Security.Audit

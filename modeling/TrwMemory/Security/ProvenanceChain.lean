import TrwMemory.Library.Encodings
import TrwMemory.Library.HashChain
import TrwMemory.Security.ChainLibrary

/-!
The chain of provenance records (`security/provenance.py`): appending, signed or not, and
the two walks that check a file.

The Ed25519 keys are parameters, as functions on bytes. Locks, links and modes of the file
are left out; an append that fails cuts its bytes off again.

A chain file as the list of the records that are read of it. Both walks accept a file when
its records are linked (and signed); appends keep them linked; and linked records are
determined by the digest they end in, because a record's canonical text is its own.

That no two records at hand share a digest is a hypothesis about these records only.
-/
namespace TrwMemory.Security.Provenance

open Library

structure ProvenanceEntry where
  learningId : String
  contentHash : String
  prevHash : String
  sourceIdentity : String
  ts : PyDatetime
  signature : String
  deriving DecidableEq

def ProvenanceEntry.withTs (e : ProvenanceEntry) (t : PyDatetime) : ProvenanceEntry :=
  { e with ts := t }

def GENESIS : String := "GENESIS"

variable (lib : ChainLibrary)

/-- `model_dump(mode="json")`, by key. -/
def recordJson (e : ProvenanceEntry) : Json :=
  .obj [("content_hash", .str e.contentHash), ("learning_id", .str e.learningId),
    ("prev_hash", .str e.prevHash), ("signature", .str e.signature),
    ("source_identity", .str e.sourceIdentity), ("ts", .str (lib.dumpTs e.ts))]

/-- `_canonical`. -/
def canonical (e : ProvenanceEntry) : String := (recordJson lib e).dumpsCompact

/-- `_hash`. -/
def recordHash (e : ProvenanceEntry) : String := lib.sha256 (canonical lib e)

/-- `ProvenanceEntry.model_validate_json`. -/
def modelValidateJson (now : UtcNow) : ChainLine → Option ProvenanceEntry
  | .json (.obj fields) _ => do
      let learningId ← strField "learning_id" none fields
      let contentHash ← strField "content_hash" none fields
      let prevHash ← strField "prev_hash" (some GENESIS) fields
      let sourceIdentity ← strField "source_identity" none fields
      let ts ← tsField lib now fields
      let signature ← strField "signature" (some "") fields
      return { learningId, contentHash, prevHash, sourceIdentity, ts, signature }
  | _ => none

def utf8 (text : String) : List UInt8 := text.toUTF8.data.toList

/-- `_sign_message`. -/
def signMessage (learningId contentHash prevHash : String) : List UInt8 :=
  utf8 (learningId ++ "|" ++ contentHash ++ "|" ++ prevHash)

/-- `_read_last`. -/
def readLast (now : UtcNow) (file : Option (List ChainLine)) :
    Except String (Option ProvenanceEntry) :=
  match ((file.getD []).filter fun line => !line.isBlank).getLast? with
  | none => .ok none
  | some line =>
      match modelValidateJson lib now line with
      | some e => .ok (some e)
      | none => .error "Corrupt provenance record at chain tail"

/-- A call of `append` or `append_signed`, with what it finds: whether PyNaCl is there, the
clock, and whether the system writes the record. -/
structure AppendCall where
  entry : ProvenanceEntry
  requestSignature : Bool
  signingKey : Option (List UInt8 → List UInt8)
  naclAvailable : Bool
  now : UtcNow
  written : Bool

/-- `append(chain_path, entry)`. -/
def AppendCall.plain (entry : ProvenanceEntry) (now : UtcNow) : AppendCall :=
  ⟨entry, false, none, true, now, true⟩

/-- `append_signed(chain_path, entry, signing_key)`. -/
def AppendCall.signed (entry : ProvenanceEntry) (key : List UInt8 → List UInt8)
    (now : UtcNow) : AppendCall :=
  ⟨entry, true, some key, true, now, true⟩

/-- The record that is written after one of digest `prevHash`. A plain append keeps the
signature of the caller's entry. -/
def AppendCall.linked (call : AppendCall) (prevHash : String) : ProvenanceEntry :=
  if call.requestSignature then
    match call.signingKey with
    | some sign =>
        if call.naclAvailable then
          { call.entry with
            prevHash
            signature := String.ofList (Hex.toHex
              (sign (signMessage call.entry.learningId call.entry.contentHash prevHash))) }
        else { call.entry with prevHash, signature := "" }
    | none => { call.entry with prevHash, signature := "" }
  else { call.entry with prevHash }

/-- The digest that a record after `prior` names. -/
def priorHash (prior : Option ProvenanceEntry) : String :=
  match prior with
  | some e => recordHash lib e
  | none => GENESIS

/-- `_append_record`: the file after it, and the record, its digest and the one before. -/
def appendRecord (file : Option (List ChainLine)) (call : AppendCall) :
    Option (List ChainLine) × Except String (ProvenanceEntry × String × String) :=
  match readLast lib call.now file with
  | .error message => (file, .error message)
  | .ok prior =>
      let prevHash := priorHash lib prior
      let linked := call.linked prevHash
      if call.written then
        (some (file.getD [] ++ [.json (recordJson lib linked) rfl]),
          .ok (linked, recordHash lib linked, prevHash))
      else (file, .error "failed to append provenance record")

/-- A file after a sequence of calls. -/
def appendAll (file : Option (List ChainLine)) (calls : List AppendCall) :
    Option (List ChainLine) :=
  calls.foldl (fun file call => (appendRecord lib file call).1) file

/-- The walk of `verify`, at a line number. -/
def verifyFrom (clock : Nat → UtcNow) : Nat → String → List ChainLine → Bool
  | _, _, [] => true
  | n, expectedPrev, .blank :: lines => verifyFrom clock (n + 1) expectedPrev lines
  | n, expectedPrev, line :: lines =>
      match modelValidateJson lib (clock n) line with
      | none => false
      | some e =>
          if e.prevHash ≠ expectedPrev then false
          else verifyFrom clock (n + 1) (recordHash lib e) lines

/-- `verify`. The clock tells the time at which each line is read. -/
def verify (clock : Nat → UtcNow) : Option (List ChainLine) → Bool
  | none => true
  | some lines => verifyFrom lib clock 1 GENESIS lines

/-- Whether a key accepts a signature of a message. -/
abbrev VerifyKey := List UInt8 → List UInt8 → Bool

/-- Without a key nothing is asked of a signature. -/
def signatureHolds (naclAvailable : Bool) (key : Option VerifyKey) (e : ProvenanceEntry) : Bool :=
  match key with
  | some accepts =>
      if naclAvailable then
        if e.signature = "" then false
        else
          match Hex.fromHex e.signature.toList with
          | none => false
          | some sig => accepts (signMessage e.learningId e.contentHash e.prevHash) sig
      else true
  | none => true

/-- The walk of `verify_signed`: the first broken record, if there is one. -/
def verifySignedFrom (naclAvailable : Bool) (key : Option VerifyKey) (clock : Nat → UtcNow) :
    Nat → String → List ChainLine → Option String
  | _, _, [] => none
  | n, expectedPrev, .blank :: lines =>
      verifySignedFrom naclAvailable key clock (n + 1) expectedPrev lines
  | n, expectedPrev, line :: lines =>
      match modelValidateJson lib (clock n) line with
      | none => some ("lineno:" ++ toString n)
      | some e =>
          if e.prevHash ≠ expectedPrev then some e.learningId
          else if !signatureHolds naclAvailable key e then some e.learningId
          else verifySignedFrom naclAvailable key clock (n + 1) (recordHash lib e) lines

def UNAVAILABLE : String :=
  "signature verification was requested but PyNaCl is not installed, so the " ++
  "signatures in this chain cannot be checked. Refusing to report the chain " ++
  "as verified. PyNaCl is a required dependency of trw-memory -- reinstall the " ++
  "package, or pass verify_key=None to request hash-link-only verification."

/-- `verify_signed`. -/
def verifySigned (naclAvailable : Bool) (key : Option VerifyKey) (clock : Nat → UtcNow)
    (file : Option (List ChainLine)) : Except String (Option String) :=
  if key.isSome && !naclAvailable then .error UNAVAILABLE
  else
    match file with
    | none => .ok none
    | some lines => .ok (verifySignedFrom lib naclAvailable key clock 1 GENESIS lines)

open Library.HashChain

variable {lib : ChainLibrary}

/-- The records of the lines from a line number on, each read at its own time. -/
def recordsFrom (lib : ChainLibrary) (clock : Nat → UtcNow) :
    Nat → List ChainLine → Option (List ProvenanceEntry)
  | _, [] => some []
  | n, .blank :: lines => recordsFrom lib clock (n + 1) lines
  | n, line :: lines => do
      let e ← modelValidateJson lib (clock n) line
      let es ← recordsFrom lib clock (n + 1) lines
      return e :: es

def records (lib : ChainLibrary) (clock : Nat → UtcNow) (file : Option (List ChainLine)) :
    Option (List ProvenanceEntry) :=
  recordsFrom lib clock 1 (file.getD [])

abbrev LinkedFrom (lib : ChainLibrary) : String → List ProvenanceEntry → Prop :=
  Linked ProvenanceEntry.prevHash (recordHash lib)

/-- The digest of the last record, which the next one names. -/
def headHash (lib : ChainLibrary) (es : List ProvenanceEntry) : String :=
  head (recordHash lib) GENESIS es

theorem recordsFrom_cons {clock : Nat → UtcNow} {n : Nat} {line : ChainLine}
    {lines : List ChainLine} {es : List ProvenanceEntry} (hblank : line.isBlank = false) :
    recordsFrom lib clock n (line :: lines) = some es ↔
      ∃ e rest, modelValidateJson lib (clock n) line = some e ∧
        recordsFrom lib clock (n + 1) lines = some rest ∧ es = e :: rest := by
  have hstep : recordsFrom lib clock n (line :: lines) =
      (modelValidateJson lib (clock n) line).bind fun e =>
        (recordsFrom lib clock (n + 1) lines).bind fun rest => some (e :: rest) := by
    cases line with
    | blank => cases hblank
    | malformed => rfl
    | json v _ => rfl
  rw [hstep]
  simp only [Option.bind_eq_some_iff, Option.some.injEq]
  constructor
  · rintro ⟨e, he, rest, hrest, rfl⟩
    exact ⟨e, rest, he, hrest, rfl⟩
  · rintro ⟨e, rest, he, hrest, rfl⟩
    exact ⟨e, he, rest, hrest, rfl⟩

theorem verifySignedFrom_iff {nacl : Bool} {key : Option VerifyKey} {clock : Nat → UtcNow} {n : Nat}
    {h : String} {lines : List ChainLine} :
    verifySignedFrom lib nacl key clock n h lines = none ↔
      ∃ es, recordsFrom lib clock n lines = some es ∧ LinkedFrom lib h es ∧
        ∀ e ∈ es, signatureHolds nacl key e = true := by
  induction lines generalizing n h with
  | nil => simp [verifySignedFrom, recordsFrom, Linked]
  | cons line lines ih =>
      cases hblank : line.isBlank with
      | true =>
          obtain rfl : line = .blank := by
            cases line <;> first | rfl | cases hblank
          exact ih
      | false =>
          have hstep : verifySignedFrom lib nacl key clock n h (line :: lines) =
              match modelValidateJson lib (clock n) line with
              | none => some ("lineno:" ++ toString n)
              | some e =>
                  if e.prevHash ≠ h then some e.learningId
                  else if !signatureHolds nacl key e then some e.learningId
                  else verifySignedFrom lib nacl key clock (n + 1) (recordHash lib e) lines := by
            cases line with
            | blank => cases hblank
            | malformed => rfl
            | json v _ => rfl
          simp only [recordsFrom_cons hblank, hstep]
          cases modelValidateJson lib (clock n) line with
          | none => simp
          | some e =>
              dsimp only
              split
              · rename_i hprev
                refine ⟨fun h => (by cases h), ?_⟩
                rintro ⟨_, ⟨_, rest, he, -, rfl⟩, ⟨hlink, -⟩, -⟩
                cases he
                exact absurd hlink hprev
              · rename_i hprev
                rw [not_not] at hprev
                split
                · rename_i hsig
                  refine ⟨fun h => (by cases h), ?_⟩
                  rintro ⟨_, ⟨_, rest, he, -, rfl⟩, -, hall⟩
                  cases he
                  rw [hall e List.mem_cons_self] at hsig
                  cases hsig
                · rename_i hsig
                  rw [Bool.not_eq_true, Bool.not_eq_false'] at hsig
                  rw [ih]
                  constructor
                  · rintro ⟨rest, hrest, hlinked, hall⟩
                    exact ⟨e :: rest, ⟨e, rest, rfl, hrest, rfl⟩, ⟨hprev, hlinked⟩,
                      List.forall_mem_cons.mpr ⟨hsig, hall⟩⟩
                  · rintro ⟨_, ⟨_, rest, he, hrest, rfl⟩, ⟨-, hlinked⟩, hall⟩
                    cases he
                    exact ⟨rest, hrest, hlinked, (List.forall_mem_cons.mp hall).2⟩

/-- `verify` is the walk that asks for no signature. -/
theorem verifyFrom_eq {clock : Nat → UtcNow} {n : Nat} {h : String} {lines : List ChainLine} :
    verifyFrom lib clock n h lines = (verifySignedFrom lib true none clock n h lines).isNone := by
  induction lines generalizing n h with
  | nil => rfl
  | cons line lines ih =>
      have hstep : line.isBlank = false →
          verifyFrom lib clock n h (line :: lines) =
            (verifySignedFrom lib true none clock n h (line :: lines)).isNone := by
        intro hblank
        rw [verifyFrom, verifySignedFrom]
        · cases modelValidateJson lib (clock n) line with
          | none => rfl
          | some e =>
              dsimp only
              rw [ih]
              split <;> rfl
        · rintro rfl
          cases hblank
        · rintro rfl
          cases hblank
      cases line with
      | blank => exact ih
      | malformed => exact hstep rfl
      | json v _ => exact hstep rfl

theorem verify_iff {clock : Nat → UtcNow} {file : Option (List ChainLine)} :
    verify lib clock file = true ↔
      ∃ es, records lib clock file = some es ∧ LinkedFrom lib GENESIS es := by
  have hwalk : verify lib clock file = verifyFrom lib clock 1 GENESIS (file.getD []) := by
    cases file <;> rfl
  rw [hwalk, verifyFrom_eq, Option.isNone_iff_eq_none, verifySignedFrom_iff]
  simp [records, signatureHolds]

theorem verifySigned_iff {nacl : Bool} {key : Option VerifyKey} {clock : Nat → UtcNow}
    {file : Option (List ChainLine)} (havailable : key.isSome = true → nacl = true) :
    verifySigned lib nacl key clock file = .ok none ↔
      ∃ es, records lib clock file = some es ∧ LinkedFrom lib GENESIS es ∧
        ∀ e ∈ es, signatureHolds nacl key e = true := by
  have hwalk : verifySigned lib nacl key clock file =
      .ok (verifySignedFrom lib nacl key clock 1 GENESIS (file.getD [])) := by
    have hgate : (key.isSome && !nacl) = false := by
      cases hkey : key.isSome with
      | false => rfl
      | true => rw [havailable hkey]; rfl
    unfold verifySigned
    rw [hgate]
    cases file <;> rfl
  rw [hwalk, Except.ok.injEq, verifySignedFrom_iff]
  rfl

/-- A record that was read: its time is one that a text can hold. -/
theorem modelValidateJson_minutes (hlib : lib.Documented) {now : UtcNow} {line : ChainLine}
    {e : ProvenanceEntry} (h : modelValidateJson lib now line = some e) : WholeMinutes e.ts := by
  unfold modelValidateJson at h
  split at h
  · simp only [Option.bind_eq_bind, Option.bind_eq_some_iff, pure, Option.some.injEq] at h
    obtain ⟨_, -, _, -, _, -, _, -, ts, hts, _, -, rfl⟩ := h
    exact tsField_minutes hlib hts
  · cases h

theorem records_minutes (hlib : lib.Documented) {clock : Nat → UtcNow}
    {file : Option (List ChainLine)} {es : List ProvenanceEntry}
    (h : records lib clock file = some es) : ∀ e ∈ es, WholeMinutes e.ts := by
  rw [records] at h
  generalize file.getD [] = lines at h
  generalize 1 = n at h
  induction lines generalizing n es with
  | nil =>
      cases h
      simp
  | cons line lines ih =>
      cases hblank : line.isBlank with
      | true =>
          obtain rfl : line = .blank := by
            cases line <;> first | rfl | cases hblank
          exact ih (n + 1) h
      | false =>
          obtain ⟨e, rest, he, hrest, rfl⟩ := (recordsFrom_cons hblank).mp h
          exact List.forall_mem_cons.mpr ⟨modelValidateJson_minutes hlib he, ih (n + 1) hrest⟩

/-- The canonical text of a record that was read is the text of no other one. -/
theorem canonical_inj (hlib : lib.Documented) {e f : ProvenanceEntry} (he : WholeMinutes e.ts)
    (hf : WholeMinutes f.ts) (h : canonical lib e = canonical lib f) : e = f := by
  have hjson : recordJson lib e = recordJson lib f := Json.dumpsCompact_inj rfl rfl h
  simp only [recordJson, Json.obj.injEq, List.cons.injEq, Prod.mk.injEq, Json.str.injEq,
    true_and, and_true] at hjson
  obtain ⟨hcontent, hid, hprev, hsignature, hsource, htext⟩ := hjson
  have hts : e.ts = f.ts := by
    have hread := hlib.reads_back e.ts he
    rw [htext, hlib.reads_back f.ts hf] at hread
    exact (Option.some.inj hread).symm
  cases e
  cases f
  simp_all

/-- No two different texts of these records have one digest. -/
def NoCollision (lib : ChainLibrary) (es fs : List ProvenanceEntry) : Prop :=
  ∀ e ∈ es, ∀ f ∈ fs, recordHash lib e = recordHash lib f → canonical lib e = canonical lib f

instance (es fs : List ProvenanceEntry) : Decidable (NoCollision lib es fs) :=
  inferInstanceAs (Decidable (∀ e ∈ es, ∀ f ∈ fs, _ → _))

theorem recordHash_ne_genesis (hlib : lib.Documented) (e : ProvenanceEntry) :
    recordHash lib e ≠ GENESIS := by
  intro h
  have hlength := hlib.sha256_length (canonical lib e)
  rw [← recordHash, h] at hlength
  revert hlength
  decide

theorem records_determined (hlib : lib.Documented) {clock clock' : Nat → UtcNow}
    {file file' : Option (List ChainLine)} {es fs : List ProvenanceEntry}
    (hes : records lib clock file = some es) (hfs : records lib clock' file' = some fs)
    (haccepted : verify lib clock file = true) (haccepted' : verify lib clock' file' = true)
    (hcollision : NoCollision lib es fs) (hhead : headHash lib es = headHash lib fs) : es = fs := by
  obtain ⟨_, hes', hlinked⟩ := verify_iff.mp haccepted
  obtain ⟨_, hfs', hlinked'⟩ := verify_iff.mp haccepted'
  rw [hes] at hes'
  rw [hfs] at hfs'
  cases hes'
  cases hfs'
  refine linked_determined hlinked hlinked' hhead ?_ fun e _ => recordHash_ne_genesis hlib e
  intro e he f hf hhash
  exact canonical_inj hlib (records_minutes hlib hes e he) (records_minutes hlib hfs f hf)
    (hcollision e he f hf hhash)

end TrwMemory.Security.Provenance

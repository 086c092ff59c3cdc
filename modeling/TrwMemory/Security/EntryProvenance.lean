import TrwMemory.Models.Entry
import TrwMemory.Security.ProvenanceChain

/-!
The signed provenance of one entry (`security/provenance.py`): the metadata that is built
when it is admitted and the check of it against the entry's content.

Keys are functions on bytes. A verify key is one with a `verify` to call, whose exceptions
and whose `False` both mean that it does not accept.
-/
namespace TrwMemory.Security.Provenance

open Library

def PROVENANCE_METADATA_KEYS : List String :=
  ["provenance_author", "provenance_session_id", "provenance_ts", "provenance_content_hash",
    "provenance_signature"]

variable (sha256 : String → String)

/-- `entry_content_hash`: content and detail, bare. -/
def entryContentHash (content detail : String) : String := sha256 (content ++ detail)

/-- The signed text. -/
def payload (id author sessionId ts contentHash : String) : String :=
  id ++ "|" ++ author ++ "|" ++ sessionId ++ "|" ++ ts ++ "|" ++ contentHash

/-- What `build_entry_provenance` is given of an entry. -/
structure Admission where
  learningId : String
  content : String
  detail : String
  author : String
  sessionId : String
  ts : String

def Admission.payload (a : Admission) : List UInt8 :=
  utf8 (Provenance.payload a.learningId a.author a.sessionId a.ts
    (entryContentHash sha256 a.content a.detail))

def buildEntryProvenance (a : Admission) (signingKey : Option (List UInt8 → List UInt8)) :
    Metadata :=
  let signature := match signingKey with
    | some sign => String.ofList (Hex.toHex (sign (a.payload sha256)))
    | none => ""
  ((PROVENANCE_METADATA_KEYS.zip
    [a.author, a.sessionId, a.ts, entryContentHash sha256 a.content a.detail, signature]).map
      fun pair => ⟨pair.1, pair.2⟩).toFinmap

/-- What can be checked: an entry, or a dictionary of metadata that brings the content. -/
inductive Subject where
  | entry (e : MemoryEntry)
  | dict (metadata : Metadata)

def Subject.metadata : Subject → Metadata
  | .entry e => e.metadata
  | .dict metadata => metadata

/-- `metadata.get(key, "")`. -/
def Subject.get (s : Subject) (key : String) : String := (s.metadata.lookup key).getD ""

def Subject.content : Subject → String
  | .entry e => e.content ++ e.detail
  | .dict metadata => (metadata.lookup "_content_for_verify").getD ""

def Subject.id : Subject → String
  | .entry e => e.id
  | .dict metadata => (metadata.lookup "learning_id").getD ""

/-- `verify_entry_provenance`: the key is asked with its arguments in both orders. -/
def verifyEntryProvenance (s : Subject) (verifyKey : Option VerifyKey) : Bool :=
  let contentHash := s.get "provenance_content_hash"
  let signature := s.get "provenance_signature"
  let author := s.get "provenance_author"
  let sessionId := s.get "provenance_session_id"
  let ts := s.get "provenance_ts"
  if contentHash = "" ∨ author = "" ∨ sessionId = "" ∨ ts = "" then false
  else if sha256 s.content ≠ contentHash then false
  else if signature = "" then false
  else
    match verifyKey with
    | none => false
    | some accepts =>
        let message := utf8 (payload s.id author sessionId ts contentHash)
        match Hex.fromHex signature.toList with
        | none => false
        | some signatureBytes =>
            [(message, signatureBytes), (signatureBytes, message)].any fun args =>
              accepts args.1 args.2

theorem utf8_inj {s t : String} (h : utf8 s = utf8 t) : s = t := by
  apply String.toByteArray_inj.mp
  exact ByteArray.ext (Array.toList_inj.mp h)

theorem length_utf8 (text : String) : (utf8 text).length = text.utf8ByteSize := rfl

/-- Every character takes a byte at least. -/
theorem length_le_utf8 (text : String) : text.length ≤ (utf8 text).length := by
  rw [length_utf8, ← String.ofList_toList (s := text)]
  generalize text.toList = cs
  induction cs with
  | nil => simp
  | cons c cs ih =>
      have hcons : String.ofList (c :: cs) = String.singleton c ++ String.ofList cs := by
        rw [← String.toList_inj]
        simp
      have hpos := c.utf8Size_pos
      rw [String.length_ofList] at ih ⊢
      rw [hcons, String.utf8ByteSize_append, String.utf8ByteSize_singleton, List.length_cons]
      omega

theorem toList_payload (id author sessionId ts contentHash : String) :
    (payload id author sessionId ts contentHash).toList = ['|'].intercalate
      ([id, author, sessionId, ts, contentHash].map String.toList) := by
  simp [payload, List.intercalate]

theorem count_payload (id author sessionId ts contentHash : String) :
    (payload id author sessionId ts contentHash).toList.count '|' =
      4 + (id.toList.count '|' + author.toList.count '|' + sessionId.toList.count '|' +
        ts.toList.count '|' + contentHash.toList.count '|') := by
  simp only [payload, String.toList_append, List.count_append]
  have hbar : "|".toList.count '|' = 1 := by decide
  rw [hbar]
  omega

/-- Where no field of the one text contains the separator, the fields of the other are its
own: it has as many separators as there are between the fields. -/
theorem payload_fields {id author sessionId ts contentHash : String}
    {id' author' sessionId' ts' contentHash' : String}
    (hplain : ∀ field ∈ [id, author, sessionId, ts, contentHash], '|' ∉ field.toList)
    (h : payload id' author' sessionId' ts' contentHash' =
      payload id author sessionId ts contentHash) :
    [id', author', sessionId', ts', contentHash'] = [id, author, sessionId, ts, contentHash] := by
  have hplain' : ∀ field ∈ [id', author', sessionId', ts', contentHash'], '|' ∉ field.toList := by
    have hcount := congrArg (fun text => text.toList.count '|') h
    simp only [count_payload] at hcount
    simp only [List.forall_mem_cons, ← List.count_eq_zero] at hplain ⊢
    simp only [List.not_mem_nil, false_implies, implies_true, and_true] at hplain ⊢
    omega
  have hsplit : ∀ fields : List String, (∀ field ∈ fields, '|' ∉ field.toList) → fields ≠ [] →
      (['|'].intercalate (fields.map String.toList)).splitOn '|' = fields.map String.toList := by
    intro fields hfields hne
    apply List.splitOn_intercalate
    · intro text htext
      obtain ⟨field, hfield, rfl⟩ := List.mem_map.mp htext
      exact hfields field hfield
    · simpa using hne
  have htexts : ([id', author', sessionId', ts', contentHash']).map String.toList =
      [id, author, sessionId, ts, contentHash].map String.toList := by
    rw [← hsplit _ hplain' (by simp), ← hsplit _ hplain (by simp), ← toList_payload,
      ← toList_payload, h]
  exact List.map_injective_iff.mpr (fun _ _ => String.toList_inj.mp) htexts

variable {sha256}

/-- What an accepted check has seen. -/
theorem verifyEntryProvenance_accepted {s : Subject} {accepts : VerifyKey}
    (h : verifyEntryProvenance sha256 s (some accepts) = true) :
    ∃ signatureBytes,
      Hex.fromHex (s.get "provenance_signature").toList = some signatureBytes ∧
      s.get "provenance_content_hash" = sha256 s.content ∧
      (accepts (utf8 (payload s.id (s.get "provenance_author") (s.get "provenance_session_id")
          (s.get "provenance_ts") (sha256 s.content))) signatureBytes = true ∨
        accepts signatureBytes (utf8 (payload s.id (s.get "provenance_author")
          (s.get "provenance_session_id") (s.get "provenance_ts") (sha256 s.content))) = true) := by
  unfold verifyEntryProvenance at h
  dsimp only at h
  split_ifs at h with hmissing hdrift hunsigned
  rw [ne_eq, not_not] at hdrift
  split at h
  · cases h
  · rename_i signatureBytes hbytes
    rw [← hdrift] at h
    exact ⟨signatureBytes, hbytes, hdrift.symm, by simpa using h⟩

/-- A key that accepts the signature accepts the entry, where no field is empty. -/
theorem verifyEntryProvenance_of_accepts {s : Subject} {accepts : VerifyKey} {sig : List UInt8}
    (hhash : s.get "provenance_content_hash" = sha256 s.content)
    (hfields : s.get "provenance_content_hash" ≠ "" ∧ s.get "provenance_author" ≠ "" ∧
      s.get "provenance_session_id" ≠ "" ∧ s.get "provenance_ts" ≠ "")
    (hsig : s.get "provenance_signature" = String.ofList (Hex.toHex sig)) (hsome : sig ≠ [])
    (haccepts : accepts (utf8 (payload s.id (s.get "provenance_author")
      (s.get "provenance_session_id") (s.get "provenance_ts")
      (s.get "provenance_content_hash"))) sig = true) :
    verifyEntryProvenance sha256 s (some accepts) = true := by
  obtain ⟨hhash', hauthor, hsession, hts⟩ := hfields
  have hsigned : s.get "provenance_signature" ≠ "" := by
    rw [hsig]
    intro hempty
    cases sig with
    | nil => exact hsome rfl
    | cons b bs => exact absurd (congrArg String.toList hempty) (by simp [Hex.toHex])
  unfold verifyEntryProvenance
  simp only [hhash', hauthor, hsession, hts, or_self, if_false, hsigned, ← hhash, ne_eq,
    not_true_eq_false]
  rw [hsig, String.toList_ofList, Hex.fromHex_toHex]
  simp [haccepts]

/-- What is documented of SHA-256 in hexadecimal. -/
structure HexDigest (sha256 : String → String) : Prop where
  length : ∀ text, (sha256 text).length = 64
  plain : ∀ text, '|' ∉ (sha256 text).toList

theorem length_payload (hsha : HexDigest sha256) (id author sessionId ts text : String) :
    64 < (utf8 (payload id author sessionId ts (sha256 text))).length := by
  have hbar : "|".length = 1 := by decide
  refine Nat.lt_of_lt_of_le ?_ (length_le_utf8 _)
  simp only [payload, String.length_append, hsha.length, hbar]
  omega

theorem get_signature (a : Admission) (sign : List UInt8 → List UInt8) :
    (buildEntryProvenance sha256 a (some sign)).lookup "provenance_signature" =
      some (String.ofList (Hex.toHex (sign (a.payload sha256)))) := by
  simp [buildEntryProvenance, PROVENANCE_METADATA_KEYS, Finmap.dlookup_list_toFinmap,
    List.dlookup_cons_ne]

/-- A signature that was issued for one entry, none of whose fields contains the separator,
verifies another entry only when they agree on id, author, session and time, and on content
followed by detail. -/
theorem signature_binds (hsha : HexDigest sha256) {sign : List UInt8 → List UInt8}
    {accepts : VerifyKey} (hlength : ∀ message sig, accepts message sig = true → sig.length = 64)
    (first : Admission) (second : Subject)
    (hplain : ∀ field ∈ [first.learningId, first.author, first.sessionId, first.ts],
      '|' ∉ field.toList)
    (hissued : second.get "provenance_signature" =
      ((buildEntryProvenance sha256 first (some sign)).lookup "provenance_signature").getD "")
    (honly : ∀ message, accepts message (sign (first.payload sha256)) = true →
      message = first.payload sha256)
    (hcollision : sha256 second.content = sha256 (first.content ++ first.detail) →
      second.content = first.content ++ first.detail)
    (hverified : verifyEntryProvenance sha256 second (some accepts) = true) :
    second.id = first.learningId ∧ second.get "provenance_author" = first.author ∧
      second.get "provenance_session_id" = first.sessionId ∧
      second.get "provenance_ts" = first.ts ∧
      second.content = first.content ++ first.detail := by
  obtain ⟨signatureBytes, hbytes, -, haccepted⟩ := verifyEntryProvenance_accepted hverified
  rw [hissued, get_signature, Option.getD_some, String.toList_ofList, Hex.fromHex_toHex] at hbytes
  obtain rfl := Option.some.inj hbytes
  rcases haccepted with haccepted | hswapped
  · have hpayload := utf8_inj (honly _ haccepted)
    have hplain' : ∀ field ∈ [first.learningId, first.author, first.sessionId, first.ts,
        sha256 (first.content ++ first.detail)], '|' ∉ field.toList := by
      simp only [List.forall_mem_cons, List.not_mem_nil, false_implies, implies_true,
        and_true] at hplain ⊢
      exact ⟨hplain.1, hplain.2.1, hplain.2.2.1, hplain.2.2.2, hsha.plain _⟩
    have hfields := payload_fields hplain' hpayload
    simp only [List.cons.injEq, and_true] at hfields
    obtain ⟨hid, hauthor, hsession, hts, hhash⟩ := hfields
    exact ⟨hid, hauthor, hsession, hts, hcollision hhash⟩
  · have hlong := length_payload hsha second.id (second.get "provenance_author")
      (second.get "provenance_session_id") (second.get "provenance_ts") second.content
    rw [hlength _ _ hswapped] at hlong
    exact absurd hlong (Nat.lt_irrefl 64)

def admissionAb : Admission := ⟨"L1", "ab", "", "agent", "s1", "2024-01-04"⟩

/-- The author's name contains the separator. -/
def admissionBar : Admission := ⟨"L1", "ab", "", "a|b", "s1", "2024-01-04"⟩

/-- SHA-256 on the content of both. -/
def shaAb (text : String) : String :=
  if text = "ab" then "fb8e20fc2e4c3f248c60c39bd652f3c1347298bb977b8b4d5903b85055620603"
  else String.ofList (List.replicate 64 '0')

/-- The Ed25519 signatures of both under the key of 32 zero bytes. -/
def signAb (message : List UInt8) : List UInt8 :=
  if message = admissionAb.payload shaAb then
    [45, 15, 224, 176, 238, 106, 93, 33, 55, 216, 101, 141, 84, 105, 84, 125, 146, 147, 60, 72,
      233, 88, 55, 75, 112, 225, 200, 130, 192, 168, 17, 244, 223, 27, 172, 78, 17, 82, 244, 215,
      253, 141, 211, 117, 121, 197, 111, 2, 121, 234, 76, 177, 213, 12, 219, 166, 49, 183, 24, 26,
      101, 131, 53, 8]
  else if message = admissionBar.payload shaAb then
    [116, 103, 236, 142, 176, 190, 53, 214, 42, 146, 38, 130, 1, 184, 23, 151, 51, 244, 141, 222,
      200, 187, 96, 82, 139, 111, 146, 131, 197, 197, 186, 3, 238, 12, 32, 108, 210, 108, 30, 179,
      216, 232, 70, 214, 225, 204, 248, 152, 237, 247, 17, 98, 32, 59, 6, 138, 125, 183, 40, 116,
      146, 10, 226, 1]
  else List.replicate 64 0

def acceptsAb (message sig : List UInt8) : Bool := sig == signAb message

/-- An entry with the given provenance. -/
def entryWith (content detail : String) (metadata : Metadata) : MemoryEntry :=
  { MemoryEntry.ofDefaults "L1" content "default" ⟨63840000000000000, some 0⟩ (by decide) with
    detail, metadata }

theorem signAb_length (message : List UInt8) : (signAb message).length = 64 := by
  rw [signAb]
  split
  · rfl
  · split <;> rfl

theorem acceptsAb_signed (message : List UInt8) : acceptsAb message (signAb message) = true :=
  beq_self_eq_true _

/-- The detail of the first admission stands in the content of this entry. -/
def movedDetail : MemoryEntry :=
  entryWith "a" "b" (buildEntryProvenance shaAb admissionAb (some signAb))

/-- A part of the author's name stands in this entry's session. -/
def movedAuthor : MemoryEntry :=
  entryWith "ab" "" (((buildEntryProvenance shaAb admissionBar (some signAb)).insert
    "provenance_author" "a").insert "provenance_session_id" "b|s1")

theorem movedDetail_verified :
    verifyEntryProvenance shaAb (.entry movedDetail) (some acceptsAb) = true := by
  apply verifyEntryProvenance_of_accepts (by decide +kernel) (by decide +kernel)
  · exact congrArg (fun found => found.getD "") (get_signature admissionAb signAb)
  · exact List.ne_nil_of_length_pos (by rw [signAb_length]; decide)
  · have hpayload : payload (Subject.entry movedDetail).id
        ((Subject.entry movedDetail).get "provenance_author")
        ((Subject.entry movedDetail).get "provenance_session_id")
        ((Subject.entry movedDetail).get "provenance_ts")
        ((Subject.entry movedDetail).get "provenance_content_hash") =
          payload "L1" "agent" "s1" "2024-01-04" (entryContentHash shaAb "ab" "") := by
      decide +kernel
    rw [hpayload]
    exact acceptsAb_signed _

theorem movedAuthor_verified :
    verifyEntryProvenance shaAb (.entry movedAuthor) (some acceptsAb) = true := by
  apply verifyEntryProvenance_of_accepts (by decide +kernel) (by decide +kernel)
  · have hmoved : (Subject.entry movedAuthor).metadata.lookup "provenance_signature" =
        (buildEntryProvenance shaAb admissionBar (some signAb)).lookup "provenance_signature" := by
      rw [movedAuthor, Subject.metadata, entryWith,
        Finmap.lookup_insert_of_ne _ (by decide : "provenance_signature" ≠ "provenance_session_id"),
        Finmap.lookup_insert_of_ne _ (by decide : "provenance_signature" ≠ "provenance_author")]
    rw [Subject.get, hmoved]
    exact congrArg (fun found => found.getD "") (get_signature admissionBar signAb)
  · exact List.ne_nil_of_length_pos (by rw [signAb_length]; decide)
  · have hpayload : payload (Subject.entry movedAuthor).id
        ((Subject.entry movedAuthor).get "provenance_author")
        ((Subject.entry movedAuthor).get "provenance_session_id")
        ((Subject.entry movedAuthor).get "provenance_ts")
        ((Subject.entry movedAuthor).get "provenance_content_hash") =
          payload "L1" "a|b" "s1" "2024-01-04" (entryContentHash shaAb "ab" "") := by
      decide +kernel
    rw [hpayload]
    exact acceptsAb_signed _

/-- The detail of an entry can be moved into its content, and a part of the author's name into
the session's. -/
theorem signature_moves :
    verifyEntryProvenance shaAb (.entry movedDetail) (some acceptsAb) = true ∧
      movedDetail.content ≠ admissionAb.content ∧
      verifyEntryProvenance shaAb (.entry movedAuthor) (some acceptsAb) = true ∧
      (Subject.entry movedAuthor).get "provenance_author" ≠ admissionBar.author :=
  ⟨movedDetail_verified, by decide, movedAuthor_verified, by decide +kernel⟩

theorem signature_binds_ab : movedDetail.content ++ movedDetail.detail = "ab" := by
  have hsha : HexDigest shaAb := by
    constructor <;> intro text <;> unfold shaAb <;> split <;> decide
  have hlength : ∀ message sig, acceptsAb message sig = true → sig.length = 64 := by
    intro message sig h
    rw [acceptsAb, beq_iff_eq] at h
    rw [h, signAb_length]
  have honly : ∀ message, acceptsAb message (signAb (admissionAb.payload shaAb)) = true →
      message = admissionAb.payload shaAb := by
    intro message h
    rw [acceptsAb, beq_iff_eq, signAb, if_pos rfl] at h
    unfold signAb at h
    split at h
    · assumption
    · split at h <;> cases h
  exact (signature_binds hsha hlength admissionAb (.entry movedDetail) (by decide) rfl honly
    (fun _ => rfl) movedDetail_verified).2.2.2.2

end TrwMemory.Security.Provenance

import TrwMemory.Security.ProvenanceChain

/-!
Sequences of appends to a provenance chain, signed and plain in any order, with records that
the system does not write among them. Every line that is written is read as the same record
at any time, and its `prev_hash` is the digest of the record before it as it is read.
-/
namespace TrwMemory.Security.Provenance

open Library Library.HashChain

variable {lib : ChainLibrary}

/-- The lines are read as these records whatever the clock says. -/
def ReadAs (lib : ChainLibrary) (lines : List ChainLine) (es : List ProvenanceEntry) : Prop :=
  ∀ now, lines.map (modelValidateJson lib now) = es.map some

/-- A line that was written is read as the record, its time without the seconds of the offset. -/
theorem readAs_written (hlib : lib.Documented) (e : ProvenanceEntry) :
    ∃ t, ReadAs lib [.json (recordJson lib e) rfl] [e.withTs t] := by
  obtain ⟨t, ht⟩ := hlib.reads_dumped e.ts
  refine ⟨t, fun now => ?_⟩
  simp [modelValidateJson, recordJson, strField, tsField, Json.field?, ht, ProvenanceEntry.withTs]

theorem isBlank_of_read {now : UtcNow} {line : ChainLine} {e : ProvenanceEntry}
    (h : modelValidateJson lib now line = some e) : line.isBlank = false := by
  cases line with
  | blank => cases h
  | malformed => rfl
  | json v _ => rfl

theorem recordsFrom_readAs {lines : List ChainLine} {es : List ProvenanceEntry}
    (h : ReadAs lib lines es) (clock : Nat → UtcNow) (n : Nat) :
    recordsFrom lib clock n lines = some es := by
  induction lines generalizing es n with
  | nil =>
      obtain rfl : es = [] := List.map_eq_nil_iff.mp (h (clock n)).symm
      rfl
  | cons line lines ih =>
      cases es with
      | nil => exact absurd (h (clock n)) (by simp)
      | cons e es =>
          have hread : ∀ now, modelValidateJson lib now line = some e ∧
              lines.map (modelValidateJson lib now) = es.map some :=
            fun now => List.cons.inj (h now)
          exact (recordsFrom_cons (isBlank_of_read (hread (clock n)).1)).mpr
            ⟨e, es, (hread _).1, ih (fun now => (hread now).2) (n + 1), rfl⟩

theorem readLast_readAs {file : Option (List ChainLine)} {es : List ProvenanceEntry}
    (h : ReadAs lib (file.getD []) es) (now : UtcNow) :
    readLast lib now file = .ok es.getLast? := by
  have hfilter : (file.getD []).filter (fun line => !line.isBlank) = file.getD [] := by
    rw [List.filter_eq_self]
    intro line hline
    have hread := List.mem_map_of_mem (f := modelValidateJson lib now) hline
    rw [h now, List.mem_map] at hread
    obtain ⟨e, -, he⟩ := hread
    rw [isBlank_of_read he.symm]
    rfl
  have hlast : (file.getD []).getLast?.map (modelValidateJson lib now) = es.getLast?.map some := by
    rw [← List.getLast?_map, ← List.getLast?_map, h now]
  unfold readLast
  rw [hfilter]
  cases hline : (file.getD []).getLast? with
  | none =>
      rw [hline] at hlast
      rw [Option.map_eq_none_iff.mp hlast.symm]
  | some line =>
      rw [hline] at hlast
      obtain ⟨e, he, hread⟩ := Option.map_eq_some_iff.mp hlast.symm
      rw [he]
      dsimp only
      rw [← hread]

/-- The lines of a file are read as linked records, each written by one of the calls. -/
structure Appended (lib : ChainLibrary) (calls : List AppendCall) (lines : List ChainLine)
    (es : List ProvenanceEntry) : Prop where
  reads : ReadAs lib lines es
  linked : LinkedFrom lib GENESIS es
  written : ∀ e ∈ es, ∃ call ∈ calls, ∃ t, e = (call.linked e.prevHash).withTs t

theorem linked_prevHash (call : AppendCall) (prevHash : String) :
    (call.linked prevHash).prevHash = prevHash := by
  unfold AppendCall.linked
  split
  · split
    · split <;> rfl
    · rfl
  · rfl

theorem priorHash_getLast? (es : List ProvenanceEntry) :
    priorHash lib es.getLast? = headHash lib es := by
  cases es using List.reverseRecOn with
  | nil => rfl
  | append_singleton es e =>
      rw [List.getLast?_concat, headHash, head_concat]
      rfl

theorem appended_append (hlib : lib.Documented) {calls : List AppendCall}
    {file : Option (List ChainLine)} {es : List ProvenanceEntry}
    (h : Appended lib calls (file.getD []) es) (call : AppendCall) :
    ∃ es', Appended lib (calls ++ [call]) ((appendRecord lib file call).1.getD []) es' := by
  have hkept : ∀ e ∈ es, ∃ c ∈ calls ++ [call], ∃ t, e = (c.linked e.prevHash).withTs t := by
    intro e he
    obtain ⟨c, hc, ht⟩ := h.written e he
    exact ⟨c, List.mem_append_left _ hc, ht⟩
  rw [appendRecord, readLast_readAs h.reads]
  dsimp only
  rw [priorHash_getLast?]
  split
  · obtain ⟨t, hread⟩ := readAs_written hlib (call.linked (headHash lib es))
    refine ⟨es ++ [(call.linked (headHash lib es)).withTs t], ?_, ?_, ?_⟩
    · intro now
      rw [Option.getD_some, List.map_append, List.map_append, h.reads now, hread now]
    · exact linked_concat.mpr ⟨h.linked, linked_prevHash call _⟩
    · intro e he
      rcases List.mem_append.mp he with he | he
      · exact hkept e he
      · obtain rfl := List.mem_singleton.mp he
        have hprev : ((call.linked (headHash lib es)).withTs t).prevHash = headHash lib es :=
          linked_prevHash call _
        exact ⟨call, by simp, t, by rw [hprev]⟩
  · exact ⟨es, h.reads, h.linked, hkept⟩

theorem appended_all (hlib : lib.Documented) (calls : List AppendCall) :
    ∃ es, Appended lib calls ((appendAll lib none calls).getD []) es := by
  induction calls using List.reverseRecOn with
  | nil => exact ⟨[], fun _ => rfl, trivial, by simp⟩
  | append_singleton calls call ih =>
      obtain ⟨es, h⟩ := ih
      rw [appendAll, List.foldl_append]
      exact appended_append hlib h call

/-- What is documented of a signing key and its verify key. -/
structure KeyPair (sign : List UInt8 → List UInt8) (accepts : VerifyKey) : Prop where
  signature_length : ∀ message, (sign message).length = 64
  accepts_signed : ∀ message, accepts message (sign message) = true

/-- The call signs its record with this key. -/
def AppendCall.SignedWith (call : AppendCall) (sign : List UInt8 → List UInt8) : Prop :=
  call.requestSignature = true ∧ call.naclAvailable = true ∧ call.signingKey = some sign

theorem signatureHolds_signed {sign : List UInt8 → List UInt8} {accepts : VerifyKey}
    (hkey : KeyPair sign accepts) {call : AppendCall} (hcall : call.SignedWith sign)
    {e : ProvenanceEntry} {t : PyDatetime} (he : e = (call.linked e.prevHash).withTs t) :
    signatureHolds true (some accepts) e = true := by
  obtain ⟨hrequest, hnacl, hsign⟩ := hcall
  have hlinked : call.linked e.prevHash = { call.entry with
      prevHash := e.prevHash
      signature := String.ofList (Hex.toHex (sign (signMessage call.entry.learningId
        call.entry.contentHash e.prevHash))) } := by
    unfold AppendCall.linked
    rw [hrequest, hsign, hnacl]
    rfl
  rw [hlinked, ProvenanceEntry.withTs] at he
  have hid : e.learningId = call.entry.learningId := by rw [he]
  have hcontent : e.contentHash = call.entry.contentHash := by rw [he]
  have hsignature : e.signature = String.ofList (Hex.toHex (sign (signMessage call.entry.learningId
      call.entry.contentHash e.prevHash))) := by
    rw [he]
  rw [signatureHolds, hid, hcontent]
  generalize signMessage call.entry.learningId call.entry.contentHash e.prevHash = message
    at hsignature
  have hne : e.signature ≠ "" := by
    rw [hsignature]
    intro hempty
    have hlength := hkey.signature_length message
    cases hbytes : sign message with
    | nil => rw [hbytes] at hlength; cases hlength
    | cons b bs =>
        rw [hbytes, Hex.toHex] at hempty
        exact absurd (congrArg String.toList hempty) (by simp)
  simp only [if_true, if_neg hne]
  rw [hsignature, String.toList_ofList, Hex.fromHex_toHex]
  exact hkey.accepts_signed message

/-- After any appends both walks accept the chain, the one with a key when each record was
signed with it. Accepted files that end in one head hold the same records. -/
theorem chain_integrity (hlib : lib.Documented) {sign : List UInt8 → List UInt8}
    {accepts : VerifyKey} (hkey : KeyPair sign accepts) :
    (∀ (calls : List AppendCall) (clock : Nat → UtcNow) (nacl : Bool),
      verify lib clock (appendAll lib none calls) = true ∧
        verifySigned lib nacl none clock (appendAll lib none calls) = .ok none ∧
        ((∀ call ∈ calls, call.SignedWith sign) →
          verifySigned lib true (some accepts) clock (appendAll lib none calls) = .ok none)) ∧
    ∀ (clock clock' : Nat → UtcNow) (file file' : Option (List ChainLine))
      (es fs : List ProvenanceEntry),
      records lib clock file = some es → records lib clock' file' = some fs →
        verify lib clock file = true → verify lib clock' file' = true →
          NoCollision lib es fs → headHash lib es = headHash lib fs → es = fs := by
  refine ⟨fun calls clock nacl => ?_, fun _ _ _ _ _ _ => records_determined hlib⟩
  obtain ⟨es, h⟩ := appended_all hlib calls
  have hrecords : records lib clock (appendAll lib none calls) = some es :=
    recordsFrom_readAs h.reads clock 1
  refine ⟨verify_iff.mpr ⟨es, hrecords, h.linked⟩, ?_, fun hsigned => ?_⟩
  · exact (verifySigned_iff (by simp)).mpr ⟨es, hrecords, h.linked, fun _ _ => rfl⟩
  · refine (verifySigned_iff (fun _ => rfl)).mpr ⟨es, hrecords, h.linked, fun e he => ?_⟩
    obtain ⟨call, hcall, t, hwritten⟩ := h.written e he
    exact signatureHolds_signed hkey (hsigned call hcall) hwritten

theorem sampleNow_inRange : (⟨63840000000000000, some 0⟩ : Datetime).InRange := by decide

def sampleNow : UtcNow := ⟨⟨⟨63840000000000000, some 0⟩, sampleNow_inRange⟩, rfl⟩

def sampleEntry : ProvenanceEntry where
  learningId := "L1"
  contentHash := "c1"
  prevHash := GENESIS
  sourceIdentity := "agent"
  ts := ⟨⟨63840000000000000, some 7200000000⟩, by decide⟩
  signature := ""

/-- The Ed25519 signature of `L1|c1|GENESIS` under the key of 32 zero bytes. -/
def sampleSignature : List UInt8 :=
  [15, 28, 141, 135, 9, 76, 163, 210, 110, 183, 254, 18, 31, 195, 239, 143, 35, 140, 79, 86, 5, 83,
    248, 224, 30, 181, 56, 137, 188, 31, 148, 217, 238, 174, 76, 97, 89, 29, 145, 200, 141, 8, 56,
    131, 87, 11, 213, 12, 119, 142, 161, 62, 203, 53, 146, 217, 102, 235, 111, 207, 102, 182, 186,
    14]

def sampleSign (message : List UInt8) : List UInt8 :=
  if message = utf8 "L1|c1|GENESIS" then sampleSignature else List.replicate 64 0

def sampleAccepts (message sig : List UInt8) : Bool := sig == sampleSign message

def sampleRecord : ProvenanceEntry :=
  { sampleEntry with signature := String.ofList (Hex.toHex sampleSignature) }

/-- SHA-256 on the texts of the record, signed and not. -/
def sampleSha (text : String) : String :=
  if text = canonical (isoLibrary fun _ => "") sampleRecord then
    "a8066130e894a1b32dd4c96808e0b7bf329fd9da67bdb46e60cdb09c9199b7d9"
  else if text = canonical (isoLibrary fun _ => "") sampleEntry then
    "8ae583f22399e964725e80272a1e7d3772ea7089c1abcc1808e42c0d285b5035"
  else String.ofList (List.replicate 64 '0')

def sampleLibrary : ChainLibrary := isoLibrary sampleSha

theorem sampleLibrary_documented : sampleLibrary.Documented := by
  apply isoLibrary_documented
  intro text
  unfold sampleSha
  split
  · decide
  · split <;> decide

theorem sample_keyPair : KeyPair sampleSign sampleAccepts where
  signature_length message := by
    unfold sampleSign
    split <;> decide
  accepts_signed message := beq_self_eq_true _

theorem chain_integrity_signed :
    verifySigned sampleLibrary true (some sampleAccepts) (fun _ => sampleNow)
        (appendAll sampleLibrary none [.signed sampleEntry sampleSign sampleNow]) = .ok none ∧
      records sampleLibrary (fun _ => sampleNow)
          (appendAll sampleLibrary none [.signed sampleEntry sampleSign sampleNow]) =
        records sampleLibrary (fun _ => sampleNow)
          (some [.blank, .json (recordJson sampleLibrary sampleRecord) rfl]) := by
  have h := chain_integrity sampleLibrary_documented sample_keyPair
  have hes : records sampleLibrary (fun _ => sampleNow)
      (appendAll sampleLibrary none [.signed sampleEntry sampleSign sampleNow]) =
      some [sampleRecord] := by
    decide +kernel
  have hfs : records sampleLibrary (fun _ => sampleNow)
      (some [.blank, .json (recordJson sampleLibrary sampleRecord) rfl]) = some [sampleRecord] := by
    decide +kernel
  refine ⟨(h.1 _ _ true).2.2 ?_, ?_⟩
  · intro call hcall
    obtain rfl := List.mem_singleton.mp hcall
    exact ⟨rfl, rfl, rfl⟩
  · have haccepted := verify_iff.mpr ⟨_, hfs, rfl, trivial⟩
    have hcollision : NoCollision sampleLibrary [sampleRecord] [sampleRecord] := by
      intro e he f hf _
      rw [List.mem_singleton.mp he, List.mem_singleton.mp hf]
    have hequal := h.2 _ _ _ _ _ _ hes hfs (h.1 _ _ true).1 haccepted hcollision rfl
    exact hes.trans ((congrArg some hequal).trans hfs.symm)

/-- A plain append leaves a chain that the walk with a key reports as broken. -/
theorem unsigned_append_broken :
    verifySigned sampleLibrary true (some sampleAccepts) (fun _ => sampleNow)
      (appendAll sampleLibrary none [.plain sampleEntry sampleNow]) = .ok (some "L1") := by
  decide +kernel

end TrwMemory.Security.Provenance

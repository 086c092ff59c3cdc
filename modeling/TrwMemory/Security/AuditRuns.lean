import TrwMemory.Security.AuditChain

/-!
Sequences of appends and compactions of an audit log, with any readings of the clock and with
writes that the system refuses. The log stays linked throughout. A compaction keeps the
records from the cutoff on exactly when the first record does not hide an older one: the fast
path looks at no other.
-/
namespace TrwMemory.Security.Audit

open Library Library.HashChain

variable {lib : AuditLibrary}

/-- The file holds the lines of linked records, stamped by the clock. -/
structure Chained (lib : AuditLibrary) (file : Option (List ChainLine)) (rs : List AuditRecord) :
    Prop where
  lines : file.getD [] = rs.map (recordLine lib)
  linked : LinkedFrom GENESIS_HASH rs
  hashed : ∀ r ∈ rs, Hashed lib r
  utc : ∀ r ∈ rs, r.ts.val.offset = some 0

namespace Chained

variable {file : Option (List ChainLine)} {rs : List AuditRecord}

theorem minutes (h : Chained lib file rs) : ∀ r ∈ rs, WholeMinutes r.ts :=
  fun r hr => UtcNow.wholeMinutes ⟨r.ts, h.utc r hr⟩

theorem reads (hlib : lib.Documented) (h : Chained lib file rs) (clock : Nat → UtcNow) :
    readAll lib clock file = .ok rs := by
  rw [readAll, h.lines, readAllFrom_recordLine hlib h.minutes]

theorem accepted (hlib : lib.Documented) (h : Chained lib file rs) (clock : Nat → UtcNow) :
    Accepted lib clock file :=
  accepted_iff.mpr ⟨rs, h.reads hlib clock, h.linked, h.hashed⟩

theorem lastHash (hlib : lib.Documented) (h : Chained lib file rs) :
    readLastHash file = .ok (headHash rs) := by
  have hne : ∀ r ∈ rs, r.hash ≠ "" := by
    intro r hr hempty
    have hlength := hlib.sha256_length (material lib r)
    have hhash : r.hash = lib.sha256 (material lib r) := h.hashed r hr
    rw [← hhash, hempty] at hlength
    cases hlength
  rw [readLastHash, h.lines, lastHashFrom_recordLine hne]
  dsimp only
  rw [Option.or_none]
  cases rs using List.reverseRecOn with
  | nil => rfl
  | append_singleton rs r =>
      rw [List.getLast?_concat, headHash, head_concat]
      rfl

theorem oldest (hlib : lib.Documented) (h : Chained lib file rs) :
    readOldestTs lib 1 (file.getD []) = .ok (rs.head?.map AuditRecord.ts) := by
  rw [h.lines, readOldestTs_recordLine]
  cases rs with
  | nil => rfl
  | cons r rs =>
      have hutc := h.utc r List.mem_cons_self
      have hiso := hlib.reads_iso ⟨r.ts, hutc⟩
      rw [List.head?_cons, Option.bind_some, hiso, Option.map_some, Option.map_some]
      simp [replaceUtc, hutc]

end Chained

theorem chained_none : Chained lib none [] := ⟨rfl, trivial, by simp, by simp⟩

theorem append_written (hlib : lib.Documented) {log : AuditLog} {rs : List AuditRecord}
    (h : Chained lib log.file rs) {call : AppendCall} (hop : call.effectiveOp ≠ "")
    (hwritten : call.written = true) :
    Chained lib (append lib log call).1.file (rs ++ [chained lib (headHash rs) call.record]) := by
  rw [append, if_neg hop, h.lastHash hlib]
  dsimp only
  rw [if_pos hwritten]
  refine ⟨?_, ?_, ?_, ?_⟩
  · rw [Option.getD_some, h.lines, List.map_append, List.map_singleton]
  · exact linked_concat.mpr ⟨h.linked, rfl⟩
  · intro r hr
    rcases List.mem_append.mp hr with hr | hr
    · exact h.hashed r hr
    · obtain rfl := List.mem_singleton.mp hr
      exact chained_hashed _ _
  · intro r hr
    rcases List.mem_append.mp hr with hr | hr
    · exact h.utc r hr
    · obtain rfl := List.mem_singleton.mp hr
      exact call.now.utc

theorem append_chained (hlib : lib.Documented) {log : AuditLog} {rs : List AuditRecord}
    (h : Chained lib log.file rs) (call : AppendCall) :
    ∃ rs', Chained lib (append lib log call).1.file rs' := by
  by_cases hop : call.effectiveOp = ""
  · exact ⟨rs, by rw [append, if_pos hop]; exact h⟩
  · cases hwritten : call.written with
    | true => exact ⟨_, append_written hlib h hop hwritten⟩
    | false =>
        refine ⟨rs, ?_⟩
        rw [append, if_neg hop, h.lastHash hlib]
        dsimp only
        rw [hwritten]
        exact h

/-- What a compaction is for: the records from the cutoff on, in their order, and no others. -/
def Retained (cutoff : PyDatetime) (rs rs' : List AuditRecord) : Prop :=
  rs'.map AuditRecord.content =
    (rs.filter fun r => notBefore cutoff r.ts).map AuditRecord.content

/-- The first record is not older than the cutoff. -/
def FirstKept (cutoff : PyDatetime) (rs : List AuditRecord) : Prop :=
  ∃ r, rs.head? = some r ∧ notBefore cutoff r.ts = true

/-- Where nothing is dropped, nothing is to be dropped. -/
theorem retained_self {cutoff : PyDatetime} {rs : List AuditRecord} :
    Retained cutoff rs rs ↔ ∀ r ∈ rs, notBefore cutoff r.ts = true := by
  constructor
  · intro h
    have hlength := congrArg List.length h
    rw [List.length_map, List.length_map] at hlength
    exact List.length_filter_eq_length_iff.mp hlength.symm
  · intro h
    rw [Retained, List.filter_eq_self.mpr h]

theorem rewrite_chained {log : AuditLog} {rs : List AuditRecord} (h : Chained lib log.file rs)
    (call : CompactCall) (cutoff : PyDatetime) :
    ∃ rs', Chained lib (rewrite lib log call cutoff rs).1.file rs' ∧
      (call.replaced = true →
        (rewrite lib log call cutoff rs).2 = .ok rs'.length ∧ Retained cutoff rs rs') := by
  have haware : (rs.any fun r => decide (r.ts.val.offset = none)) = false := by
    rw [List.any_eq_false]
    intro r hr
    simp [h.utc r hr]
  have hfile : ∀ manifest, Chained lib
      ({ log with manifest } : AuditLog).file rs := fun _ => h
  unfold rewrite
  rw [haware]
  simp only [Bool.false_eq_true, if_false]
  cases hrecords : (rs.filter fun r => notBefore cutoff r.ts).isEmpty with
  | true =>
      simp only [if_true]
      rw [List.isEmpty_iff] at hrecords
      exact ⟨[], chained_none, fun _ => ⟨rfl, by rw [Retained, hrecords]⟩⟩
  | false =>
      simp only [Bool.false_eq_true, if_false]
      cases hreplaced : call.replaced with
      | true =>
          simp only [if_true]
          refine ⟨_, ⟨rfl, linked_link (fun _ _ => rfl) _ _, ?_, ?_⟩, fun _ => ⟨rfl, ?_⟩⟩
          · exact forall_mem_link (fun r _ h => chained_hashed h r) _
          · exact forall_mem_link (fun r hr _ => h.utc r (List.mem_of_mem_filter hr)) _
          · exact map_link (fun h r => chained_content h r) _ _
      | false =>
          simp only [Bool.false_eq_true, if_false]
          refine ⟨rs, ?_, fun h => (by cases h)⟩
          cases rs.getLast? <;> exact h

theorem compact_fast (hlib : lib.Documented) {log : AuditLog} {rs : List AuditRecord}
    (h : Chained lib log.file rs) {call : CompactCall} {cutoff : PyDatetime}
    (hcutoff : call.cutoff? = some cutoff) (hfirst : FirstKept cutoff rs) :
    compact lib log call = (log, .ok rs.length) := by
  obtain ⟨r, hhead, hkept⟩ := hfirst
  rw [compact, hcutoff]
  dsimp only
  rw [h.oldest hlib]
  dsimp only
  rw [hhead, Option.map_some, Option.any_some, hkept, if_pos rfl, h.lines, recordDicts_recordLine]
  simp [Except.map]

theorem compact_full (hlib : lib.Documented) {log : AuditLog} {rs : List AuditRecord}
    (h : Chained lib log.file rs) {call : CompactCall} {cutoff : PyDatetime}
    (hcutoff : call.cutoff? = some cutoff) (hfirst : ¬FirstKept cutoff rs) :
    compact lib log call =
      if !rs.isEmpty && !call.manifestWritten then
        (log, .error "Unable to append audit log: OSError")
      else rewrite lib log call cutoff rs := by
  have hany : (rs.head?.map AuditRecord.ts).any (notBefore cutoff) = false := by
    rw [Option.any_map, Option.any_eq_false]
    intro r hr
    exact Bool.eq_false_iff.mpr fun hkept => hfirst ⟨r, hr, hkept⟩
  rw [compact, hcutoff]
  dsimp only
  rw [h.oldest hlib]
  dsimp only
  rw [hany, h.reads hlib]
  simp

theorem compact_chained (hlib : lib.Documented) {log : AuditLog} {rs : List AuditRecord}
    (h : Chained lib log.file rs) (call : CompactCall) :
    ∃ rs', Chained lib (compact lib log call).1.file rs' := by
  cases hcutoff : call.cutoff? with
  | none => exact ⟨rs, by rw [compact, hcutoff]; exact h⟩
  | some cutoff =>
      by_cases hfirst : FirstKept cutoff rs
      · exact ⟨rs, by rw [compact_fast hlib h hcutoff hfirst]; exact h⟩
      · rw [compact_full hlib h hcutoff hfirst]
        split
        · exact ⟨rs, h⟩
        · obtain ⟨rs', h', -⟩ := rewrite_chained h call cutoff
          exact ⟨rs', h'⟩

/-- A compaction that the system carries out keeps exactly what it is to keep, unless the first
record is kept and hides an older one. -/
theorem compact_retained (hlib : lib.Documented) {log : AuditLog} {rs : List AuditRecord}
    (h : Chained lib log.file rs) {call : CompactCall} {cutoff : PyDatetime}
    (hcutoff : call.cutoff? = some cutoff) (hmanifest : call.manifestWritten = true)
    (hreplaced : call.replaced = true) :
    ∃ rs', Chained lib (compact lib log call).1.file rs' ∧
      (compact lib log call).2 = .ok rs'.length ∧
      (Retained cutoff rs rs' ↔
        (FirstKept cutoff rs → ∀ r ∈ rs, notBefore cutoff r.ts = true)) := by
  by_cases hfirst : FirstKept cutoff rs
  · rw [compact_fast hlib h hcutoff hfirst]
    exact ⟨rs, h, rfl, retained_self.trans (by simp [hfirst])⟩
  · rw [compact_full hlib h hcutoff hfirst, hmanifest]
    simp only [Bool.not_true, Bool.and_false, Bool.false_eq_true, if_false]
    obtain ⟨rs', h', hexact⟩ := rewrite_chained h call cutoff
    obtain ⟨hresult, hretained⟩ := hexact hreplaced
    exact ⟨rs', h', hresult, by simp [hretained, hfirst]⟩

theorem performAll_concat (calls : List Call) (call : Call) :
    performAll lib (calls ++ [call]) = perform lib (performAll lib calls) call := by
  rw [performAll, List.foldl_append]
  rfl

theorem performAll_chained (hlib : lib.Documented) (calls : List Call) :
    ∃ rs, Chained lib (performAll lib calls).file rs := by
  induction calls using List.reverseRecOn with
  | nil => exact ⟨[], chained_none⟩
  | append_singleton calls call ih =>
      obtain ⟨rs, h⟩ := ih
      rw [performAll_concat]
      cases call with
      | append call => exact append_chained hlib h call
      | compact call => exact compact_chained hlib h call

/-- In every run the file is accepted, and each compaction keeps exactly the records from its
cutoff on when the first record, where it is kept, hides no older one. Accepted files that end
in one head hold the same records. -/
theorem audit_chain (hlib : lib.Documented) :
    (∀ (calls : List Call) (clock : Nat → UtcNow),
      Accepted lib clock (performAll lib calls).file) ∧
    (∀ (calls : List Call) (call : CompactCall) (cutoff : PyDatetime),
      call.cutoff? = some cutoff → call.manifestWritten = true → call.replaced = true →
        ∃ rs rs', (∀ clock, readAll lib clock (performAll lib calls).file = .ok rs) ∧
          (∀ clock, readAll lib clock (performAll lib (calls ++ [.compact call])).file = .ok rs') ∧
          (compact lib (performAll lib calls) call).2 = .ok rs'.length ∧
          (Retained cutoff rs rs' ↔
            (FirstKept cutoff rs → ∀ r ∈ rs, notBefore cutoff r.ts = true))) ∧
    ∀ (clock clock' : Nat → UtcNow) (file file' : Option (List ChainLine))
      (rs ts : List AuditRecord),
      readAll lib clock file = .ok rs → readAll lib clock' file' = .ok ts →
        Accepted lib clock file → Accepted lib clock' file' →
          NoCollision lib rs ts → headHash rs = headHash ts → rs = ts := by
  refine ⟨fun calls clock => ?_, fun calls call cutoff hcutoff hmanifest hreplaced => ?_,
    fun _ _ _ _ _ _ => readAll_determined hlib⟩
  · obtain ⟨rs, h⟩ := performAll_chained hlib calls
    exact h.accepted hlib clock
  · obtain ⟨rs, h⟩ := performAll_chained hlib calls
    obtain ⟨rs', h', hresult, hexact⟩ := compact_retained hlib h hcutoff hmanifest hreplaced
    rw [performAll_concat]
    exact ⟨rs, rs', h.reads hlib, h'.reads hlib, hresult, hexact⟩

/-- A library with the given digests. -/
def isoAudit (sha256 : String → String) : AuditLibrary :=
  { isoLibrary sha256 with fromisoformat := fun text => readDatetime (.str text) }

theorem isoAudit_documented {sha256 : String → String} (h : ∀ text, (sha256 text).length = 64) :
    (isoAudit sha256).Documented where
  toDocumented := isoLibrary_documented h
  reads_iso now := (isoLibrary_documented h).reads_back now.time now.wholeMinutes

/-- 2024-04-13T21:20:00Z, and a hundred days before it. -/
def lateNow : UtcNow := ⟨⟨⟨63848640000000000, some 0⟩, by decide⟩, rfl⟩

def earlyNow : UtcNow := ⟨⟨⟨63840000000000000, some 0⟩, by decide⟩, rfl⟩

def storeCall (id : String) (now : UtcNow) : AppendCall :=
  ⟨some "store", none, id, "", "", "default", none, now, true⟩

/-- Thirty days are to be kept. -/
def monthCall (now : UtcNow) : CompactCall := ⟨30, now, now, fun _ => now, true, true⟩

def LATE_HASH : String := "53b3cee86a17b94d25fa97392afde1c17dc3473debb91e19f04483e1b914caf5"

def EARLY_HASH : String := "e4d6ab3c9ec28a256d54041ee559af5c10656f2d91c5a7507e1df2f6398b4821"

/-- SHA-256 on the texts of a late record and of an early one after it. -/
def auditSha (text : String) : String :=
  if text = material (isoAudit fun _ => "") (storeCall "e1" lateNow).record then LATE_HASH
  else if text = material (isoAudit fun _ => "")
      { (storeCall "e2" earlyNow).record with prevHash := LATE_HASH } then EARLY_HASH
  else String.ofList (List.replicate 64 'f')

theorem auditSha_length (text : String) : (auditSha text).length = 64 := by
  unfold auditSha
  split
  · decide
  · split <;> decide

theorem auditSha_fresh (text : String) : auditSha text ≠ GENESIS_HASH := by
  unfold auditSha
  split
  · decide
  · split <;> decide

theorem appended_chained {calls : List Call} {rs : List AuditRecord}
    (h : Chained (isoAudit auditSha) (performAll (isoAudit auditSha) calls).file rs) (id : String)
    (now : UtcNow) :
    Chained (isoAudit auditSha)
      (performAll (isoAudit auditSha) (calls ++ [.append (storeCall id now)])).file
      (rs ++ [chained (isoAudit auditSha) (headHash rs) (storeCall id now).record]) := by
  rw [performAll_concat]
  have hop : (storeCall id now).effectiveOp ≠ "" := by
    simp [AppendCall.effectiveOp, storeCall, pyOr]
  exact append_written (isoAudit_documented auditSha_length) h hop rfl

theorem perform_fast {log : AuditLog} {call : CompactCall} {result : Except String Nat}
    (h : compact lib log call = (log, result)) : perform lib log (.compact call) = log :=
  congrArg Prod.fst h

/-- A record of a hundred days ago stays behind a fresh one, although thirty days are to be
kept. -/
theorem stale_record_stays :
    ∃ rs, readAll (isoAudit auditSha) (fun _ => lateNow) (performAll (isoAudit auditSha)
        ([.append (storeCall "e1" lateNow), .append (storeCall "e2" earlyNow)] ++
          [.compact (monthCall lateNow)])).file = .ok rs ∧
      ∃ cutoff, (monthCall lateNow).cutoff? = some cutoff ∧
        ∃ r ∈ rs, r.id = "e2" ∧ notBefore cutoff r.ts = false := by
  have hlib := isoAudit_documented auditSha_length
  have hfirst := @appended_chained [] [] chained_none "e1" lateNow
  have h := appended_chained hfirst "e2" earlyNow
  have hcutoff : (monthCall lateNow).cutoff? =
      some ⟨⟨63846048000000000, some 0⟩, by decide⟩ := by
    decide +kernel
  have hfast := perform_fast (compact_fast hlib h hcutoff ⟨_, rfl, by decide +kernel⟩)
  have hread := h.reads hlib fun _ => lateNow
  have hsame : (performAll (isoAudit auditSha)
      ([.append (storeCall "e1" lateNow), .append (storeCall "e2" earlyNow)] ++
        [.compact (monthCall lateNow)])).file =
      (performAll (isoAudit auditSha)
        [.append (storeCall "e1" lateNow), .append (storeCall "e2" earlyNow)]).file := by
    rw [performAll_concat]
    exact congrArg AuditLog.file hfast
  refine ⟨_, (congrArg (readAll _ _) hsame).trans hread, _, hcutoff, ?_⟩
  exact ⟨_, List.mem_append_right _ List.mem_cons_self, rfl, by decide +kernel⟩

theorem audit_chain_one :
    Accepted (isoAudit auditSha) (fun _ => lateNow)
        (performAll (isoAudit auditSha) [.append (storeCall "e1" lateNow)]).file ∧
      (∃ rs rs' cutoff, (monthCall lateNow).cutoff? = some cutoff ∧ rs ≠ [] ∧
        Retained cutoff rs rs' ∧ readAll (isoAudit auditSha) (fun _ => lateNow)
          (performAll (isoAudit auditSha)
            ([.append (storeCall "e1" lateNow)] ++ [.compact (monthCall lateNow)])).file =
              .ok rs') ∧
      readAll (isoAudit auditSha) (fun _ => lateNow)
          (performAll (isoAudit auditSha) [.append (storeCall "e1" lateNow)]).file =
        readAll (isoAudit auditSha) (fun _ => lateNow)
          (some (.blank :: [recordLine (isoAudit auditSha)
            (chained (isoAudit auditSha) GENESIS_HASH (storeCall "e1" lateNow).record)])) := by
  have hlib := isoAudit_documented auditSha_length
  obtain ⟨haccepted, hcompact, hdetermined⟩ := audit_chain hlib
  have hlog := @appended_chained [] [] chained_none "e1" lateNow
  have hread := hlog.reads hlib fun _ => lateNow
  refine ⟨haccepted _ _, ?_, ?_⟩
  · have hcutoff : (monthCall lateNow).cutoff? =
        some ⟨⟨63846048000000000, some 0⟩, by decide⟩ := by
      decide +kernel
    obtain ⟨rs, rs', hrs, hrs', -, hexact⟩ := hcompact [.append (storeCall "e1" lateNow)] _ _
      hcutoff rfl rfl
    obtain rfl := Except.ok.inj ((hrs fun _ => lateNow).symm.trans hread)
    refine ⟨_, rs', _, hcutoff, List.cons_ne_nil _ _, hexact.mpr fun _ r hr => ?_, hrs' _⟩
    obtain rfl := List.mem_singleton.mp hr
    decide +kernel
  · have hread' : readAll (isoAudit auditSha) (fun _ => lateNow)
        (some (.blank :: [recordLine (isoAudit auditSha)
          (chained (isoAudit auditSha) GENESIS_HASH (storeCall "e1" lateNow).record)])) =
        .ok [chained (isoAudit auditSha) GENESIS_HASH (storeCall "e1" lateNow).record] :=
      readAllFrom_recordLine hlib hlog.minutes _ 2
    have haccepted' := accepted_iff.mpr ⟨_, hread', hlog.linked, hlog.hashed⟩
    have hcollision : NoCollision (isoAudit auditSha)
        [chained (isoAudit auditSha) GENESIS_HASH (storeCall "e1" lateNow).record]
        [chained (isoAudit auditSha) GENESIS_HASH (storeCall "e1" lateNow).record] := by
      refine ⟨?_, fun r _ => auditSha_fresh _⟩
      intro r hr t ht _
      rw [List.mem_singleton.mp hr, List.mem_singleton.mp ht]
    have hequal := hdetermined _ _ _ _ _ _ hread hread' (haccepted _ _) haccepted' hcollision rfl
    exact hread.trans ((congrArg Except.ok hequal).trans hread'.symm)

end TrwMemory.Security.Audit

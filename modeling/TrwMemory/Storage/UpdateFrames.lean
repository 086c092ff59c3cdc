import TrwMemory.Storage.RewrittenFields
import TrwMemory.Storage.YamlNamespaces

/-!
What an update of the YAML store leaves alone (`YAMLBackend.update`, `storage/yaml_backend.py`).
It parses the whole document of one file, sets the named fields, and writes all of them over the
file. So every other field goes through a reading and a writing of its own, whatever shape its
value had, and is read there as before; a document with evidence that does not parse is not
written over.
-/
namespace TrwMemory.Codec

open Library Storage Sync

/-- The update neither names the field nor renews it by itself. -/
def Untouched (fields : Patch) : EntryColumn → Prop
  | .id | .createdAt => True
  | .ns => False
  | .of c => fields.names c = false ∧ c ∉ ownColumns

theorem patched_unnamed (e : MemoryEntry) {fields : Patch} {c : Column}
    (h : fields.names c = false) : fieldOf (e.patched fields) (.of c) = fieldOf e (.of c) := by
  have hnone : fields c = none := Option.not_isSome_iff_eq_none.mp (Bool.eq_false_iff.mp h)
  cases c <;> simp only [fieldOf, MemoryEntry.patched, hnone, Option.getD_none]

theorem stampSync_other (digest : SyncContent → String) (e : MemoryEntry) {c : Column}
    (h : c ∉ ownColumns) : fieldOf (stampSync digest e) (.of c) = fieldOf e (.of c) := by
  cases c <;> first | rfl | exact absurd (by decide) h

/-- The entry that an update writes, on a field that it does not touch. -/
theorem updated_untouched (digest : SyncContent → String) (e : MemoryEntry) (ns : String)
    (now : Datetime) {fields : Patch} {k : EntryColumn} (h : Untouched fields k) :
    let dated := if fields.names .updatedAt then fields else fields.set .updatedAt now
    let entry := { e.patched dated with ns := ns }
    fieldOf (if namesSync fields then entry else stampSync digest entry) k = fieldOf e k := by
  intro dated entry
  have hentry : fieldOf entry k = fieldOf e k := by
    cases k with
    | id | createdAt => rfl
    | ns => exact h.elim
    | of c =>
        have hdated : dated.names c = false := by
          have hne : Column.updatedAt ≠ c := by
            rintro rfl
            exact h.2 List.mem_cons_self
          have hother : dated c = fields c := by
            change (if fields.names .updatedAt then fields else fields.set .updatedAt now) c = _
            split
            · rfl
            · exact Patch.set_other _ _ hne
          rw [Patch.names, hother]
          exact h.1
        have hns : fieldOf entry (.of c) = fieldOf (e.patched dated) (.of c) := by
          cases c <;> rfl
        exact hns.trans (patched_unnamed e hdated)
  split
  · exact hentry
  · refine Eq.trans ?_ hentry
    cases k with
    | id | ns | createdAt => rfl
    | of c => exact stampSync_other digest entry h.2

/-- The value under a name is that of the field. -/
theorem memoryEntryToDict_congr (pydantic : Pydantic) {e e' : MemoryEntry} {k : EntryColumn}
    (h : fieldOf e' k = fieldOf e k) :
    memoryEntryToDict pydantic e' k = memoryEntryToDict pydantic e k := by
  cases k with
  | id | ns | createdAt =>
      simp only [fieldOf] at h
      simp only [memoryEntryToDict, h]
  | of c => cases c <;> simp only [fieldOf] at h <;> simp only [memoryEntryToDict, h]

theorem serializeUpdateValue_eq {py : Python} {val : PyValue}
    (h : ∀ fields, val ≠ .dict fields) : serializeUpdateValue py val = .ok val := by
  unfold serializeUpdateValue
  split
  · rename_i fields
    exact absurd rfl (h fields)
  · rfl

theorem memoryEntryToDict_plain (pydantic : Pydantic) (e : MemoryEntry) {k : EntryColumn}
    (hmetadata : k ≠ .of .metadata) (hclock : k ≠ .of .vectorClock)
    (fields : List (String × Json)) : memoryEntryToDict pydantic e k ≠ .dict fields := by
  cases k with
  | id | ns | createdAt => nofun
  | of c =>
      cases c with
      | metadata => exact absurd rfl hmetadata
      | vectorClock => exact absurd rfl hclock
      | lastAccessedAt | invalidFrom | lastSyncedAt => exact timeColumn_plain _ fields
      | invalidatedBy | consolidatedInto | remoteId | verificationStatus =>
          exact textColumn_plain _ fields
      | anchorValidity => exact floatColumn_plain _ fields
      | _ => nofun

namespace YamlBackend

variable {b : YamlBackend} {py : Python} {now : Datetime} {ns : String} {fields : Patch}

/-- What `update` makes of a document: under each name the value that its own entry has there. -/
theorem updatedDocument_ok {row : ParsedRow} {data' : Document}
    (h : b.updatedDocument now row ns fields = .ok data') :
    row.isPartial = false ∧ ∃ e, (∀ k, Untouched fields k → fieldOf e k = fieldOf row.entry k) ∧
      ∀ k, ∃ v, data' k = some v ∧
        serializeUpdateValue b.py (memoryEntryToDict b.pydantic e k) = .ok v := by
  rw [updatedDocument] at h
  split at h
  · cases h
  · rename_i hpartial
    refine ⟨Bool.eq_false_iff.mpr hpartial, ?_⟩
    obtain ⟨_, -, h⟩ := bind_eq_ok h
    obtain ⟨metadata, hmetadata, h⟩ := bind_eq_ok h
    obtain ⟨vectorClock, hclock, h⟩ := bind_eq_ok h
    obtain rfl := Except.ok.inj h
    refine ⟨_, fun k hk => updated_untouched b.digest row.entry ns now hk, fun k => ?_⟩
    by_cases hm : k = .of .metadata
    · subst hm
      exact ⟨metadata, rfl, mapError_eq_ok hmetadata⟩
    · by_cases hc : k = .of .vectorClock
      · subst hc
        exact ⟨vectorClock, rfl, mapError_eq_ok hclock⟩
      · refine ⟨_, ?_, serializeUpdateValue_eq (memoryEntryToDict_plain _ _ hm hc)⟩
        cases k with
        | id | ns | createdAt => rfl
        | of c => cases c <;> first | rfl | exact absurd rfl hm | exact absurd rfl hc

/-- The assertions of a document that can be read back: each has the pattern that its type
needs. -/
def PatternsKept (b : YamlBackend) (now : Datetime) (data : Document) : Prop :=
  ∀ assertions, documentReading b.py b.pydantic now data (.of .assertions) = .ok assertions →
    ∀ a ∈ assertions, Assertion.validPattern (some a.type) a.pattern = true

theorem updatedDocument_reads {data data' : Document} {row : ParsedRow}
    (hpy : b.py = reading py) (hb : ReadsBack b.py b.pydantic) (hnow : IsUtc now)
    (hrow : b.readRow now data = .ok row) (h : b.updatedDocument now row ns fields = .ok data')
    {k : EntryColumn} (hk : Untouched fields k)
    (hpattern : k = .of .assertions → b.PatternsKept now data) :
    documentReading b.py b.pydantic now data' k = documentReading b.py b.pydantic now data k := by
  obtain ⟨-, e, hsame, hvalues⟩ := updatedDocument_ok h
  have hreads := (dictToEntry_reads b.py b.pydantic now data row hrow).1
  rw [hpy] at hb hreads ⊢
  have hwritten : ∀ k, Untouched fields k →
      (k = .of .validFrom → ∃ d, documentReading (reading py) b.pydantic now data' .createdAt =
        .ok d) → (k = .of .assertions → b.PatternsKept now data) →
      documentReading (reading py) b.pydantic now data' k = .ok (fieldOf row.entry k) := by
    intro k hk hcreated hpattern
    obtain ⟨v, hdata, hserial⟩ := hvalues k
    rw [memoryEntryToDict_congr b.pydantic (hsame k hk), hpy] at hserial
    refine documentReading_written hb hnow (hreads k) hcreated (fun heq => ?_) hserial hdata
    have hassertions := hreads (.of .assertions)
    rw [← hpy] at hassertions
    exact hpattern heq _ hassertions
  rw [hreads k]
  exact hwritten k hk (fun _ => ⟨_, hwritten .createdAt trivial nofun nofun⟩) hpattern

/-- An update changes no other file. The file it changes held a document whose evidence was read
completely, as a row that is not blocked, and of the one that is there now every field is read as
before but the namespace, the fields that the call names, `updated_at` and the sync
bookkeeping. -/
theorem update_frame (hpy : b.py = reading py) (hb : ReadsBack b.py b.pydantic) (hnow : IsUtc now)
    (dir : Directory) (id ns : String) (fields : Patch) :
    (∀ stem, stem ≠ id → (b.update now dir id ns fields).1.find stem = dir.find stem) ∧
    ((b.update now dir id ns fields).1.find id = dir.find id ∨
      ∃ data data' row, dir.find id = some (.document data) ∧
        (b.update now dir id ns fields).1.find id = some (.document data') ∧
        b.readRow now data = .ok row ∧ row.isPartial = false ∧ b.blocks row.entry = false ∧
        ∀ k, Untouched fields k → (k = .of .assertions → b.PatternsKept now data) →
          documentReading b.py b.pydantic now data' k =
            documentReading b.py b.pydantic now data k) := by
  rw [update_fst]
  cases hwritten : b.written now dir id ns fields with
  | error error => exact ⟨fun _ _ => rfl, .inl rfl⟩
  | ok found =>
      cases found with
      | none => exact ⟨fun _ _ => rfl, .inl rfl⟩
      | some data' =>
          refine ⟨fun stem hstem => dir.find_put_of_ne _ hstem, .inr ?_⟩
          rw [written] at hwritten
          split at hwritten
          · cases hfile : dir.find id with
            | none =>
                rw [hfile] at hwritten
                cases hwritten
            | some file =>
                rw [hfile] at hwritten
                obtain ⟨row, hrow, hwritten⟩ := bind_eq_ok hwritten
                split at hwritten
                · cases hwritten
                · rename_i hblocks
                  obtain ⟨found, hfound, hsome⟩ := bind_eq_ok hwritten
                  obtain rfl := Option.some.inj (Except.ok.inj hsome)
                  cases file with
                  | unreadable => cases hrow
                  | document data =>
                      have hread := mapError_eq_ok hrow
                      exact ⟨data, found, row, rfl, dir.find_put_self id _, hread,
                        (updatedDocument_ok hfound).1, hblocks, fun k hk hpattern =>
                          updatedDocument_reads hpy hb hnow hread hfound hk hpattern⟩
          · cases hwritten

/-- A model library that reads the datetimes that exist. -/
def rangedPydantic : Pydantic :=
  { isoPydantic with
    laxDatetime := fun v => (isoPydantic.laxDatetime v).filter fun d => decide d.InRange }

theorem strOf_datetime_ne (d : Datetime) : d.isoformat ≠ "" := by
  intro h
  have hlist := congrArg String.toList h
  rw [Datetime.isoformat, String.toList_ofList] at hlist
  exact List.append_ne_nil_of_right_ne_nil _ (List.cons_ne_nil _ _) hlist

theorem strOf_int_ne (n : Int) : toString n ≠ "" := by
  intro h
  obtain ⟨c, text, hhead, -⟩ := Json.toString_int_head n
  rw [h] at hhead
  cases hhead

theorem rangedPydantic_readsBack : ReadsBack (reading plainPython) rangedPydantic where
  integer := fun _ _ h => by cases h
  text := by
    intro v s htruthy hstr
    cases v with
    | none => cases htruthy
    | bool b =>
        obtain rfl := Except.ok.inj hstr
        cases b <;> decide
    | int n =>
        obtain rfl := Except.ok.inj hstr
        exact strOf_int_ne n
    | float x =>
        obtain rfl := Except.ok.inj hstr
        exact (by decide : "0.5" ≠ "")
    | bytes raw =>
        obtain rfl := Except.ok.inj hstr
        exact (by decide : "b''" ≠ "")
    | str text =>
        obtain rfl := Except.ok.inj hstr
        exact bne_iff_ne.mp htruthy
    | datetime d =>
        obtain rfl := Except.ok.inj hstr
        exact strOf_datetime_ne d
    | list items => cases hstr
    | dict fields => cases hstr
  date := by
    intro v d h
    rw [rangedPydantic, Option.filter_eq_some_iff, decide_eq_true_eq] at h ⊢
    exact ⟨Datetime.fromisoformat_isoformat h.2, h.2⟩

theorem isUtc_first : IsUtc ⟨0, some 0⟩ := by
  rw [IsUtc]
  decide

def rangedBackend : YamlBackend := { plainBackend with pydantic := rangedPydantic }

def newContent : Patch := Patch.none.set .content "new"

def hasContent (content : String) : Option YamlFile → Bool
  | some (.document data) =>
      match data (.of .content) with
      | some (.str text) => text == content
      | _ => false
  | _ => false

theorem update_frame_content :
    ∃ data data', plainDirectory.find "m" = some (.document data) ∧
      (rangedBackend.update ⟨0, some 0⟩ plainDirectory "m" "default" newContent).1.find "m" =
        some (.document data') ∧
      documentReading rangedBackend.py rangedBackend.pydantic ⟨0, some 0⟩ data' (.of .detail) =
        documentReading rangedBackend.py rangedBackend.pydantic ⟨0, some 0⟩ data (.of .detail) := by
  have hbefore : hasContent "new" (plainDirectory.find "m") = false := by decide +kernel
  have hafter : hasContent "new"
      ((rangedBackend.update ⟨0, some 0⟩ plainDirectory "m" "default" newContent).1.find "m") =
        true := by
    decide +kernel
  obtain ⟨-, hsame | ⟨data, data', row, hdata, hdata', -, -, -, hreads⟩⟩ :=
    update_frame (b := rangedBackend) rfl rangedPydantic_readsBack isUtc_first plainDirectory
      "m" "default" newContent
  · rw [hsame, hbefore] at hafter
    cases hafter
  · exact ⟨data, data', hdata, hdata', hreads _ ⟨rfl, by decide⟩ nofun⟩

end YamlBackend

end TrwMemory.Codec

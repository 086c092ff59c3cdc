import TrwMemory.Storage.EntryStore
import TrwMemory.Storage.FieldReads
import TrwMemory.Storage.YamlBackend

/-!
Fields that are read of a document, written under their name again, and read back. What a
mapper has made of a value, of whatever shape, is written in a form that it reads as the same.

One field is not: an assertion may be read without the pattern that it needs, and its dump then
has an empty one, which is refused.
-/
namespace TrwMemory.Codec

open Library Storage

/-- What the interpreter writes of an integer it reads as this integer, and what it writes of a
value that is not empty is no empty text; a timestamp that the model library has read is read
back from its dump. -/
structure ReadsBack (py : Python) (pydantic : Pydantic) : Prop where
  integer : ∀ n s, py.strJson (.int n) = some s → py.int s = some n
  text : ∀ (v : PyValue) s, v.truthy = true → py.strOf v = .ok s → s ≠ ""
  date : ∀ v d, pydantic.laxDatetime v = some d →
    pydantic.laxDatetime (.str (pydantic.dumpDatetime d)) = some d

/-- A timestamp of the years that datetimes have, in UTC. -/
def IsUtc (d : Datetime) : Prop := d.toUtc = some d

theorem isUtc_of_shift {d v : Datetime} (h : shiftToUtc d = .ok v) : IsUtc v := by
  rw [shiftToUtc] at h
  cases hutc : d.toUtc with
  | none => rw [hutc] at h; cases h
  | some utc =>
      rw [hutc] at h
      obtain rfl := Except.ok.inj h
      unfold Datetime.toUtc at hutc
      split at hutc
      · rename_i hrange
        obtain rfl := Option.some.inj hutc
        unfold IsUtc Datetime.toUtc
        rw [Datetime.parseDt_parseDt, if_pos hrange]
      · cases hutc

theorem IsUtc.inRange {d : Datetime} (h : IsUtc d) : d.InRange := by
  have hself := Datetime.toUtc_eq h
  unfold IsUtc Datetime.toUtc at h
  split at h
  · rename_i hrange
    rw [← hself] at hrange
    refine ⟨hrange.1, hrange.2, fun offset hoffset => ?_⟩
    rw [hself] at hoffset
    obtain rfl := Option.some.inj hoffset
    decide
  · cases h

theorem IsUtc.shift {d : Datetime} (h : IsUtc d) : shiftToUtc d = .ok d := by
  rw [shiftToUtc, h]
  rfl

theorem IsUtc.shiftOption {o : Option Datetime} (h : ∀ d ∈ o, IsUtc d) :
    shiftOption o = .ok o := by
  cases o with
  | none => rfl
  | some d =>
      change (shiftToUtc d).map some = _
      rw [(h d rfl).shift]
      rfl

section Times

variable {py : Python} {raw : PyValue}

theorem parseDt_isUtc {v : Datetime} (h : parseDt py raw = .ok v) : IsUtc v := by
  unfold parseDt at h
  split at h
  · exact isUtc_of_shift h
  · obtain ⟨text, -, h⟩ := bind_eq_ok h
    split at h
    · cases h
    · exact isUtc_of_shift h

theorem parseDtSafe_isUtc {α : Type} {default a : α} {parsed : Datetime → α}
    (h : parseDtSafe py raw default parsed = .ok a) :
    a = default ∨ ∃ v, IsUtc v ∧ a = parsed v := by
  unfold parseDtSafe orElse at h
  cases hparse : parseDt py raw with
  | ok v =>
      rw [hparse] at h
      exact .inr ⟨v, parseDt_isUtc hparse, (Except.ok.inj h).symm⟩
  | error error =>
      rw [hparse] at h
      simp only [Except.map] at h
      split at h
      · exact .inl (Except.ok.inj h).symm
      · cases h

theorem timeOr_isUtc {default v : Datetime} (hdefault : IsUtc default)
    (h : timeOr py raw default = .ok v) : IsUtc v := by
  unfold timeOr at h
  split at h
  · rcases parseDtSafe_isUtc h with rfl | ⟨v', hv', rfl⟩
    · exact hdefault
    · exact hv'
  · exact Except.ok.inj h ▸ hdefault

theorem timeOrAbsent_isUtc {o : Option Datetime} (h : timeOrAbsent py raw = .ok o) :
    ∀ d ∈ o, IsUtc d := by
  unfold timeOrAbsent at h
  split at h
  · rcases parseDtSafe_isUtc h with rfl | ⟨v, hv, rfl⟩
    · exact fun _ hd => by cases hd
    · exact fun d hd => Option.some.inj hd ▸ hv
  · obtain rfl := Except.ok.inj h
    exact fun _ hd => by cases hd

theorem timeOr_written {default v : Datetime} (hv : IsUtc v) :
    timeOr (reading py) (.str v.isoformat) default = .ok v := by
  rw [timeOr_isoformat py hv.inRange, hv.shift]

theorem timeOrAbsent_written {o : Option Datetime} (ho : ∀ d ∈ o, IsUtc d) :
    timeOrAbsent (reading py) (timeColumn o) = .ok o := by
  rw [timeOrAbsent_timeColumn py fun d hd => (ho d hd).inRange, IsUtc.shiftOption ho]

end Times

theorem strUnder_written {py : Python} {data : Document} {key : EntryColumn} {default s : String}
    (h : data key = some (.str s)) : strUnder py data key default = .ok s := by
  rw [strUnder, h]
  rfl

theorem textOrAbsent_ne {py : Python} {raw : PyValue} {o : Option String}
    (htext : ∀ (v : PyValue) s, v.truthy = true → py.strOf v = .ok s → s ≠ "")
    (h : textOrAbsent py raw = .ok o) : textOrNone o = o := by
  unfold textOrAbsent at h
  split at h
  · rename_i htruthy
    cases hstr : py.strOf raw with
    | error error => rw [hstr] at h; cases h
    | ok s =>
        rw [hstr] at h
        obtain rfl := Except.ok.inj h
        rw [textOrNone, Option.filter_some, if_pos (bne_iff_ne.mpr (htext raw s htruthy hstr))]
  · obtain rfl := Except.ok.inj h
    rfl

/-- What is read of a list is read of its items. -/
theorem mem_parseItems {α : Type} {validate : Json → Except PyError α} {items : List Json}
    {parsed : List α × Nat} (h : parseItems validate items = .ok parsed) :
    ∀ a ∈ parsed.1, ∃ item ∈ items, validate item = .ok a := by
  induction items generalizing parsed with
  | nil =>
      obtain rfl := Except.ok.inj h
      exact fun _ ha => by cases ha
  | cons item items ih =>
      obtain ⟨first, hfirst, h⟩ := bind_eq_ok h
      obtain ⟨rest, hrest, h⟩ := bind_eq_ok h
      intro a ha
      cases first with
      | none =>
          obtain rfl := Except.ok.inj h
          obtain ⟨item', hitem', hread⟩ := ih hrest a ha
          exact ⟨item', List.mem_cons_of_mem item hitem', hread⟩
      | some b =>
          obtain rfl := Except.ok.inj h
          rcases List.mem_cons.mp ha with rfl | ha
          · refine ⟨item, List.mem_cons_self, ?_⟩
            unfold orElse at hfirst
            cases hvalid : validate item with
            | ok c =>
                rw [hvalid] at hfirst
                rw [Option.some.inj (Except.ok.inj hfirst)]
            | error error =>
                rw [hvalid] at hfirst
                simp only [Except.map] at hfirst
                split at hfirst
                · cases hfirst
                · cases hfirst
          · obtain ⟨item', hitem', hread⟩ := ih hrest a ha
            exact ⟨item', List.mem_cons_of_mem item hitem', hread⟩

theorem validateStr_valid {default : Option String} {valid : String → Bool} {o : Option Json}
    {s : String} (h : validateStr default valid o = some s) :
    default = some s ∨ valid s = true := by
  unfold validateStr at h
  split at h
  · exact .inl h
  · split at h
    · rename_i hvalid
      exact .inr (Option.some.inj h ▸ hvalid)
    · cases h
  · cases h

/-- What an option is validated to comes of its value. -/
theorem validateOption_some {α : Type} {f : Json → Option α} {o : Option Json} {read : Option α}
    (h : validateOption f o = some read) : ∀ a ∈ read, ∃ v, f v = some a := by
  unfold validateOption at h
  split at h
  · obtain rfl := Option.some.inj h
    exact fun _ ha => by cases ha
  · obtain rfl := Option.some.inj h
    exact fun _ ha => by cases ha
  · obtain ⟨a, ha, rfl⟩ := Option.map_eq_some_iff.mp h
    exact fun b hb => ⟨_, Option.some.inj hb ▸ ha⟩

theorem boundedStr_le {bound : Nat} {v : Json} {s : String}
    (h : Assertion.boundedStr bound v = some s) : s.toList.length ≤ bound := by
  unfold Assertion.boundedStr at h
  split at h
  · split at h
    · rename_i hbound
      exact Option.some.inj h ▸ hbound
    · cases h
  · cases h

theorem redate_read {pydantic : Pydantic} {o : Option Json} {read : Option Datetime}
    (hdate : ∀ v d, pydantic.laxDatetime v = some d →
      pydantic.laxDatetime (.str (pydantic.dumpDatetime d)) = some d)
    (h : validateOption pydantic.laxDatetime o = some read) :
    Assertion.redate pydantic read = some read := by
  refine validateOption_dumpOption read (fun _ _ => Json.noConfusion) fun d hd => ?_
  obtain ⟨v, hv⟩ := validateOption_some h d hd
  exact hdate v d hv

/-- An assertion that was read, and has the pattern that it needs, is read back. -/
theorem validate_dump_read {py : Python} {pydantic : Pydantic} (hb : ReadsBack py pydantic)
    {v : Json} {a : Assertion} (h : Assertion.validate pydantic v = some a)
    (hpattern : Assertion.validPattern (some a.type) a.pattern = true) :
    a.Valid ∧ Assertion.redated pydantic a = some a := by
  unfold Assertion.validate at h
  split at h
  · dsimp only at h
    split at h
    · simp only [Option.bind_eq_bind, Option.bind_eq_some_iff, Option.pure_def,
        Option.some.injEq] at h
      obtain ⟨type, -, pattern, -, target, htarget, lastResult, -, lastVerifiedAt, hverified,
        lastEvidence, -, firstFailedAt, hfailed, commitHash, hcommit, lineRange, -, gitUrl, hurl,
        rfl⟩ := h
      refine ⟨⟨hpattern, ?_, fun hash hhash => ?_, fun url hmem => ?_⟩, ?_⟩
      · exact (validateStr_valid htarget).resolve_left nofun
      · obtain ⟨raw, hraw⟩ := validateOption_some hcommit hash hhash
        exact boundedStr_le hraw
      · obtain ⟨raw, hraw⟩ := validateOption_some hurl url hmem
        exact boundedStr_le hraw
      · rw [Assertion.redated, redate_read hb.date hverified, redate_read hb.date hfailed]
        rfl
    · cases h
  · cases h

theorem sliceSignature_le {py : Python} {o : Option Json} {s : String}
    (h : Anchor.sliceSignature py o = .ok (some s)) : s.toList.length ≤ MAX_SIGNATURE := by
  unfold Anchor.sliceSignature at h
  split at h
  · obtain rfl := Option.some.inj (Except.ok.inj h)
    decide
  · obtain rfl := Option.some.inj (Except.ok.inj h)
    rw [String.toList_ofList]
    exact List.length_take_le _ _
  · cases h
  · split at h
    · cases h
    · cases h
  · cases h

theorem anchor_read_valid {py : Python} {v : Json} {a : Anchor}
    (h : Anchor.validate py v = .ok a) : a.Valid := by
  unfold Anchor.validate at h
  split at h
  · obtain ⟨signature, hsignature, h⟩ := bind_eq_ok h
    obtain ⟨lineRange, -, h⟩ := bind_eq_ok h
    have hbuilt := elim_eq_ok h
    simp only [Option.bind_eq_bind, Option.bind_eq_some_iff, Option.pure_def,
      Option.some.injEq] at hbuilt
    obtain ⟨file, hfile, symbolName, hname, symbolText, -, symbolType, -, cut, hcut, range, -,
      rfl⟩ := hbuilt
    refine ⟨(validateStr_valid hfile).resolve_left nofun, ?_, ?_⟩
    · simpa using (validateStr_valid hname).resolve_left nofun
    · exact sliceSignature_le (hcut ▸ hsignature)
  · cases h

theorem elim_recursion {α : Type} {o : Option α} {a : α}
    (h : o.elim (Except.error PyError.recursion) Except.ok = .ok a) : o = some a := by
  cases o with
  | none => cases h
  | some b => rw [Except.ok.inj h]

/-- `serialize_update_value` leaves what is no dictionary. -/
theorem serializeUpdateValue_plain {py : Python} {val v : PyValue}
    (h : serializeUpdateValue py val = .ok v) (hplain : ∀ fields, val ≠ .dict fields) :
    val = v := by
  unfold serializeUpdateValue at h
  split at h
  · rename_i fields
    exact absurd rfl (hplain fields)
  · exact Except.ok.inj h

section Documents

variable {py : Python} {pydantic : Pydantic} {now : Datetime} {data : Document} {e : MemoryEntry}
  {val v : PyValue} {k : EntryColumn}

theorem Document.get_of (h : data k = some v) : data.get k = v := by
  rw [Document.get, h]
  rfl

theorem mapM_texts {items : List (String × String)} {written : List (String × Json)}
    (h : (items.map fun item => (item.1, Json.str item.2)).mapM (fun item => do
      return (item.1, Json.str (← py.strOfJson item.2))) = Except.ok written) :
    written = items.map fun item => (item.1, Json.str item.2) := by
  induction items generalizing written with
  | nil => exact (Except.ok.inj h).symm
  | cons item items ih =>
      rw [List.map_cons, List.mapM_cons] at h
      obtain ⟨first, hfirst, h⟩ := bind_eq_ok h
      obtain ⟨rest, hrest, h⟩ := bind_eq_ok h
      obtain rfl := Except.ok.inj hfirst
      obtain rfl := Except.ok.inj h
      rw [List.map_cons, ih hrest]

theorem mapM_integers (hb : ReadsBack py pydantic) {items : List (String × Int)}
    {written : List (String × Json)}
    (h : (items.map fun item => (item.1, Json.int item.2)).mapM (fun item => do
      return (item.1, Json.str (← py.strOfJson item.2))) = Except.ok written) :
    comprehend py.intOfJson written = .ok items := by
  induction items generalizing written with
  | nil =>
      obtain rfl := Except.ok.inj h
      rfl
  | cons item items ih =>
      rw [List.map_cons, List.mapM_cons] at h
      obtain ⟨first, hfirst, h⟩ := bind_eq_ok h
      obtain ⟨rest, hrest, h⟩ := bind_eq_ok h
      obtain ⟨text, htext, hfirst⟩ := bind_eq_ok hfirst
      obtain rfl := Except.ok.inj hfirst
      obtain rfl := Except.ok.inj h
      have hint : py.intOfJson (.str text) = .ok item.2 := by
        rw [Python.intOfJson, hb.integer item.2 text (elim_recursion htext)]
        rfl
      rw [comprehend, List.mapM_cons]
      dsimp only
      rw [hint]
      change (comprehend py.intOfJson rest >>= _) = _
      rw [ih hrest]
      rfl

theorem metadata_serialized {m : Metadata}
    (h : serializeUpdateValue py (plainDict .str m) = .ok v) : v = plainDict .str m := by
  obtain ⟨items, hitems, h⟩ := bind_eq_ok h
  obtain rfl := Except.ok.inj h
  exact congrArg PyValue.dict (mapM_texts hitems)

/-- A clock is written with its numbers as texts, which are read as the same numbers. -/
theorem parseJsonDictInt_serialized (hb : ReadsBack py pydantic) {m : VectorClock}
    (h : serializeUpdateValue py (plainDict .int m) = .ok v) :
    parseJsonDictInt py v = .ok (dictItems m) := by
  obtain ⟨items, hitems, h⟩ := bind_eq_ok h
  obtain rfl := Except.ok.inj h
  have hread := mapM_integers hb hitems
  cases items with
  | nil => exact hread
  | cons item items =>
      change orElse _ _ (comprehend py.intOfJson (item :: items)) = _
      rw [hread]
      rfl

theorem map_eq_ok {α β : Type} {x : Except PyError α} {f : α → β} {b : β} (h : x.map f = .ok b) :
    ∃ a, x = .ok a ∧ f a = b := by
  cases x with
  | error error => cases h
  | ok a => exact ⟨a, rfl, Except.ok.inj h⟩

theorem truncated_again {line s : String} (h : truncateNudgeLine line = s) :
    truncateNudgeLine s = s := by
  rw [← h, truncateNudgeLine_truncateNudgeLine]

theorem optionalRat_finite (o : Option Rat) : optionalRat (o.map PyFloat.finite) = some o := by
  cases o with
  | none => rfl
  | some x => rfl

theorem floatColumn_plain (o : Option Rat) (fields : List (String × Json)) :
    (o.elim PyValue.none fun x => .float (.finite x)) ≠ .dict fields := by
  cases o with
  | none => nofun
  | some x => nofun

theorem kept_eq_self {assertions : List Assertion}
    (h : ∀ a ∈ assertions, Assertion.redated pydantic a = some a) :
    kept pydantic assertions = assertions := by
  rw [kept]
  induction assertions with
  | nil => rfl
  | cons a assertions ih =>
      rw [List.forall_mem_cons] at h
      rw [List.filterMap_cons_some h.1, ih h.2]

theorem assertion_read {raw : PyValue} {assertions : List Assertion}
    (h : (parseAssertions pydantic raw).map Prod.fst = .ok assertions) {a : Assertion}
    (ha : a ∈ assertions) : ∃ item, Assertion.validate pydantic item = some a := by
  obtain ⟨parsed, hparsed, rfl⟩ := map_eq_ok h
  unfold parseAssertions at hparsed
  split at hparsed
  · obtain ⟨item, -, hitem⟩ := mem_parseItems hparsed a ha
    exact ⟨item, elim_eq_ok hitem⟩
  · obtain rfl := Except.ok.inj hparsed
    cases ha

theorem anchor_read {raw : PyValue} {anchors : List Anchor}
    (h : (parseAnchors py raw).map Prod.fst = .ok anchors) {a : Anchor} (ha : a ∈ anchors) :
    a.Valid := by
  obtain ⟨parsed, hparsed, rfl⟩ := map_eq_ok h
  unfold parseAnchors at hparsed
  split at hparsed
  · obtain ⟨item, -, hitem⟩ := mem_parseItems hparsed a ha
    exact anchor_read_valid hitem
  · obtain rfl := Except.ok.inj hparsed
    cases ha

theorem timeColumn_plain (o : Option Datetime) (fields : List (String × Json)) :
    timeColumn o ≠ .dict fields := by
  cases o with
  | none => nofun
  | some d => nofun

theorem textColumn_plain (o : Option String) (fields : List (String × Json)) :
    textColumn o ≠ .dict fields := by
  cases o with
  | none => nofun
  | some s => nofun

theorem intUnder_written {data : Document} {key : EntryColumn} {default n : Int}
    (h : data key = some (.int n)) : intUnder py data key default = .ok n := by
  rw [intUnder, h]
  rfl

theorem count_written {data : Document} {key : EntryColumn} {default : Int} {n : Nat}
    (h : data key = some (.int n)) :
    (intUnder py data key default >>= fun n => orRefused (toCount n)) = .ok n :=
  bind_orRefused (intUnder_written h) (toCount_natCast n)

theorem member_written {α : Type} {ofText : String → Option α} {fallback member : α}
    {data : Document} {key : EntryColumn} {default text : String} (hempty : ofText "" = none)
    (hmember : ofText text = some member) (h : data key = some (.str text)) :
    (strUnder py data key default >>= fun text =>
      orRefused (coerceStrEnum ofText fallback text)) = .ok member :=
  bind_orRefused (strUnder_written h) (coerceStrEnum_member hempty hmember)

/-- A field that was read of a document, of whatever shape, is read the same once it is written
under its name. -/
theorem documentReading_written {data' : Document} (hb : ReadsBack (reading py) pydantic)
    (hnow : IsUtc now)
    (hread : documentReading (reading py) pydantic now data k = .ok (fieldOf e k))
    (hcreated : k = .of .validFrom →
      ∃ d, documentReading (reading py) pydantic now data' .createdAt = .ok d)
    (hpattern : k = .of .assertions →
      ∀ a ∈ e.assertions, Assertion.validPattern (some a.type) a.pattern = true)
    (hserial : serializeUpdateValue (reading py) (memoryEntryToDict pydantic e k) = .ok v)
    (hwritten : data' k = some v) :
    documentReading (reading py) pydantic now data' k = .ok (fieldOf e k) := by
  cases k with
  | id =>
      obtain rfl := serializeUpdateValue_plain hserial (by rintro _ ⟨⟩)
      exact strUnder_written hwritten
  | ns =>
      obtain rfl := serializeUpdateValue_plain hserial (by rintro _ ⟨⟩)
      exact strUnder_written hwritten
  | createdAt =>
      obtain rfl := serializeUpdateValue_plain hserial (by rintro _ ⟨⟩)
      change timeOr _ (data'.get _) _ = _
      rw [Document.get_of hwritten]
      exact timeOr_written (timeOr_isUtc hnow hread)
  | of c =>
      cases c with
      | content | detail | sourceIdentity | clientProfile | modelId | expires | taskType
      | phaseOrigin | teamOrigin | syncHash =>
          obtain rfl := serializeUpdateValue_plain hserial (by rintro _ ⟨⟩)
          exact strUnder_written hwritten
      | tags | evidence | mergedFrom | consolidatedFrom | outcomeHistory | domain
      | phaseAffinity =>
          obtain rfl := serializeUpdateValue_plain hserial (by rintro _ ⟨⟩)
          change parseJsonList _ (data'.get _) = _
          rw [Document.get_of hwritten]
          exact parseJsonList_plainList _ _
      | importance =>
          obtain rfl := serializeUpdateValue_plain hserial (by rintro _ ⟨⟩)
          refine bind_orRefused (a := .finite e.importance) ?_ rfl
          rw [floatUnder, hwritten]
          rfl
      | status =>
          obtain rfl := serializeUpdateValue_plain hserial (by rintro _ ⟨⟩)
          refine (map_ok _ (strUnder_written hwritten)).trans (congrArg Except.ok ?_)
          rw [memberOr, MemoryStatus.ofText_text]
          rfl
      | recurrence | accessCount | sessionCount =>
          obtain rfl := serializeUpdateValue_plain hserial (by rintro _ ⟨⟩)
          exact count_written hwritten
      | updatedAt =>
          obtain rfl := serializeUpdateValue_plain hserial (by rintro _ ⟨⟩)
          change timeOr _ (data'.get _) _ = _
          rw [Document.get_of hwritten]
          exact timeOr_written (timeOr_isUtc hnow hread)
      | lastAccessedAt | invalidFrom | lastSyncedAt =>
          obtain rfl := serializeUpdateValue_plain hserial (timeColumn_plain _)
          change timeOrAbsent _ (data'.get _) = _
          rw [Document.get_of hwritten]
          exact timeOrAbsent_written (timeOrAbsent_isUtc hread)
      | validFrom =>
          obtain rfl := serializeUpdateValue_plain hserial (by rintro _ ⟨⟩)
          obtain ⟨createdAt, hcreatedAt⟩ := hcreated rfl
          obtain ⟨opened, hopened, hsafe⟩ := bind_eq_ok hread
          have hutc : IsUtc e.validFrom := by
            rcases parseDtSafe_isUtc hsafe with hdefault | ⟨d, hd, hparsed⟩
            · exact hdefault.symm.subst (timeOr_isUtc hnow hopened)
            · exact hparsed.symm.subst hd
          change (timeOr _ (data'.get _) _ >>= _) = _
          rw [show timeOr (reading py) (data'.get .createdAt) now = .ok createdAt from hcreatedAt]
          change parseDtSafe _ (data'.get _) _ _ = _
          rw [Document.get_of hwritten]
          exact (parseDtSafe_isoformat py hutc.inRange _ _).trans (map_ok _ hutc.shift)
      | invalidatedBy | consolidatedInto | remoteId =>
          obtain rfl := serializeUpdateValue_plain hserial (textColumn_plain _)
          change textOrAbsent _ (data'.get _) = _
          rw [Document.get_of hwritten]
          exact (textOrAbsent_textColumn _ _).trans (congrArg _ (textOrAbsent_ne hb.text hread))
      | source =>
          obtain rfl := serializeUpdateValue_plain hserial (by rintro _ ⟨⟩)
          exact (map_ok _ (strUnder_written hwritten)).trans (congrArg _ (Source.ofText_text _))
      | metadata =>
          obtain rfl := metadata_serialized hserial
          change (parseJsonDictStr _ (data'.get _)).map _ = _
          rw [Document.get_of hwritten]
          exact (map_ok _ (parseJsonDictStr_plainDict _ _)).trans
            (congrArg _ (ofItems_dictItems _))
      | vectorClock =>
          change (parseJsonDictInt _ (data'.get _)).map _ = _
          rw [Document.get_of hwritten]
          exact (map_ok _ (parseJsonDictInt_serialized hb hserial)).trans
            (congrArg _ (ofItems_dictItems _))
      | publishedToPlatform | pendingDelete | crossValidated =>
          obtain rfl := serializeUpdateValue_plain hserial (by rintro _ ⟨⟩)
          exact congrArg (fun raw => Except.ok (PyValue.truthy raw)) (Document.get_of hwritten)
      | assertions =>
          obtain rfl := serializeUpdateValue_plain hserial (by rintro _ ⟨⟩)
          have hkept : ∀ a ∈ e.assertions, a.Valid ∧ Assertion.redated pydantic a = some a := by
            intro a ha
            obtain ⟨item, hitem⟩ := assertion_read hread ha
            exact validate_dump_read hb hitem (hpattern rfl a ha)
          change (parseAssertions _ (data'.get _)).map _ = _
          rw [Document.get_of hwritten]
          refine (map_ok _ (parseAssertions_plain pydantic fun a ha => (hkept a ha).1)).trans
            (congrArg _ ?_)
          exact kept_eq_self fun a ha => (hkept a ha).2
      | anchors =>
          obtain rfl := serializeUpdateValue_plain hserial (by rintro _ ⟨⟩)
          change (parseAnchors _ (data'.get _)).map _ = _
          rw [Document.get_of hwritten]
          exact map_ok _ (parseAnchors_plain _ fun a ha => anchor_read hread ha)
      | anchorValidity =>
          obtain rfl := serializeUpdateValue_plain hserial (floatColumn_plain _)
          change (parseOptionalFloat _ (data'.get _) >>= _) = _
          rw [Document.get_of hwritten]
          exact bind_orRefused (parseOptionalFloat_column _ _) (optionalRat_finite _)
      | type =>
          obtain rfl := serializeUpdateValue_plain hserial (by rintro _ ⟨⟩)
          exact member_written rfl (MemoryType.ofText_text _) hwritten
      | nudgeLine =>
          obtain rfl := serializeUpdateValue_plain hserial (by rintro _ ⟨⟩)
          refine (map_ok _ (strUnder_written hwritten)).trans (congrArg Except.ok ?_)
          obtain ⟨line, -, hline⟩ := map_eq_ok hread
          exact truncated_again hline
      | confidence =>
          obtain rfl := serializeUpdateValue_plain hserial (by rintro _ ⟨⟩)
          exact member_written rfl (Confidence.ofText_text _) hwritten
      | protectionTier =>
          obtain rfl := serializeUpdateValue_plain hserial (by rintro _ ⟨⟩)
          exact member_written rfl (ProtectionTier.ofText_text _) hwritten
      | syncSeq =>
          obtain rfl := serializeUpdateValue_plain hserial (by rintro _ ⟨⟩)
          exact intUnder_written hwritten
      | recallCount =>
          exact hread
      | verificationStatus =>
          obtain rfl := serializeUpdateValue_plain hserial (textColumn_plain _)
          change Except.ok (parseVerificationStatus (data'.get _)) = _
          rw [Document.get_of hwritten]
          exact congrArg Except.ok (parseVerificationStatus_column _)
      | verificationCheckedAt =>
          obtain rfl := serializeUpdateValue_plain hserial (by rintro _ ⟨⟩)
          change textOf _ (data'.get _) = _
          rw [Document.get_of hwritten]
          exact textOf_str _ _
      | evidenceLevel =>
          obtain rfl := serializeUpdateValue_plain hserial (by rintro _ ⟨⟩)
          exact member_written rfl (EvidenceLevel.ofText_text _) hwritten

end Documents

end TrwMemory.Codec

import TrwMemory.Lifecycle.WarmSidecar
import TrwMemory.Storage.CodecRoundTrips

/-!
Every call on the sidecar keeps file, cache and map in step, and what it leaves: the parse in
the cache, the number of dead lines, and no line of a purged id.
-/
namespace TrwMemory.Lifecycle

open Library Library.RowLog Codec Storage Library.Transition

variable {json : SidecarJson}

/-- The cache holds parses of what the file begins with. -/
def CacheValid (json : SidecarJson) (s : SidecarState) : Prop :=
  ∀ key p, s.cache = some (key, p) →
    ∃ old, old <+: s.data ∧ key.2.1 = old.length ∧ parseSidecar json old = .ok p

theorem put_valid {s : SidecarState} {p : ParsedSidecar} (hp : parseSidecar json s.data = .ok p) :
    CacheValid json (s.put p) := by
  intro key q hcache
  obtain ⟨key', hkey, heq⟩ := Option.map_eq_some_iff.mp hcache
  cases heq
  obtain ⟨data, hfile, hstamp⟩ := Option.bind_eq_some_iff.mp hkey
  obtain ⟨stamp, -, rfl⟩ := Option.map_eq_some_iff.mp hstamp
  refine ⟨s.data, List.prefix_rfl, ?_, hp⟩
  rw [SidecarState.data, hfile, Option.getD_some]

/-- What was put is found where the file can be asked for its key. -/
theorem put_cached {s : SidecarState} {p : ParsedSidecar} (hfile : s.file.isSome = true)
    (hstamp : s.stamp.isSome = true) : (s.put p).cached = some p := by
  obtain ⟨data, hfile⟩ := Option.isSome_iff_exists.mp hfile
  obtain ⟨stamp, hstamp⟩ := Option.isSome_iff_exists.mp hstamp
  have hkey : s.key = some (stamp.1, data.length, stamp.2) := by
    rw [SidecarState.key, hfile, hstamp]
    rfl
  have hput : (s.put p).key = s.key := rfl
  rw [SidecarState.cached, hput, hkey, SidecarState.put, hkey]
  simp

theorem currentParse_spec {s : SidecarState} {m : SidecarMap} (h : InStep json (s, m)) :
    ∃ p s', s.currentParse json = .ok (p, s') ∧ parseSidecar json s.data = .ok p ∧
      s'.file = s.file ∧ CacheValid json s' := by
  rw [SidecarState.currentParse]
  cases hcached : s.cached with
  | some p => exact ⟨p, s, rfl, h.cached hcached, rfl, h.cache⟩
  | none =>
      obtain ⟨p, hp⟩ := h.parses
      refine ⟨p, s.put p, ?_, hp, rfl, put_valid hp⟩
      rw [hp]
      rfl

/-- What a write leaves: the parse of the file, in the cache where the file can be asked for
its key, with few dead lines. -/
structure Written (json : SidecarJson) (t : SidecarState) (stamp : Stamp) (live : List SidecarRow) :
    Prop where
  valid : CacheValid json t
  parse : ∃ p, parseSidecar json t.data = .ok p ∧ p.live = live ∧
    (stamp.isSome = true → t.cached = some p) ∧ p.dead ≤ max p.size COMPACT_MIN_DEAD
  map : LastWrites.ofText (sidecarFormat json) t.data = ⟨live, []⟩

theorem replace_written (s : SidecarState) (stamp : Stamp) {rows : List SidecarRow}
    (hrows : ∀ row ∈ rows, (sidecarFormat json).Rereads row)
    (hdistinct : (sidecarFormat json).Distinct rows) :
    Written json (s.replace json stamp rows) stamp rows := by
  have hlaw := sidecarFormat_lawful json
  have hparse : parseSidecar json (s.replace json stamp rows).data =
      .ok ((sidecarFormat json).extend Parsed.empty rows) := Format.parse_rewritten hlaw hrows
  obtain ⟨hdead, hsize⟩ := Format.foldl_extendRow_counts
    (p := (Parsed.empty : ParsedSidecar)) (Format.indexed_empty) hdistinct
  have hfresh : (sidecarFormat json).superseded Parsed.empty rows = 0 := by
    rw [Format.superseded, List.countP_eq_zero]
    intro row _
    cases (sidecarFormat json).name row <;> exact Bool.false_ne_true
  refine ⟨put_valid hparse, ⟨_, hparse, ?_, fun hstamp => put_cached rfl hstamp, ?_⟩,
    LastWrites.ofText_rewritten hlaw hrows hdistinct⟩
  · rw [Format.live_extend Format.indexed_empty]
    exact Format.lastWrites_distinct hdistinct
  · rw [hfresh] at hdead
    exact Nat.le_trans (Nat.le_of_eq hdead) (Nat.zero_le _)

theorem append_written {s s' : SidecarState} {p : ParsedSidecar} (stamp : Stamp)
    (hp : parseSidecar json s.data = .ok p) (hfile : s'.file = s.file) {rows : List SidecarRow}
    (hrows : ∀ row ∈ rows, (sidecarFormat json).Rereads row)
    (hdistinct : (sidecarFormat json).Distinct rows)
    (hdue : compactionDueAfter json p rows = false) :
    Written json (s'.append json stamp p rows) stamp
      ((sidecarFormat json).lastWrites p.live rows) := by
  have hlaw := sidecarFormat_lawful json
  have hindexed := Format.parse_indexed hlaw hp
  have hdata : s'.data = s.data := by rw [SidecarState.data, hfile, SidecarState.data]
  have hafter : (s'.append json stamp p rows).data =
      s.data ++ (sidecarFormat json).terminator p ++ (sidecarFormat json).lines rows := by
    rw [← hdata, List.append_assoc]
    rfl
  have hparse : parseSidecar json (s'.append json stamp p rows).data =
      .ok ((sidecarFormat json).extend p rows) := by
    rw [hafter]
    exact Format.parse_appended hlaw hp hrows
  obtain ⟨hdead, hsize⟩ := Format.foldl_extendRow_counts hindexed hdistinct
  refine ⟨put_valid hparse, ⟨_, hparse, Format.live_extend hindexed rows,
    fun hstamp => put_cached rfl hstamp, ?_⟩, ?_⟩
  · rw [compactionDueAfter, compactionDue, decide_eq_false_iff_not, Nat.not_lt, ← hdead] at hdue
    refine Nat.le_trans hdue (max_le_max_right _ ?_)
    change _ ≤ (rows.foldl (sidecarFormat json).extendRow p).size
    omega
  · rw [hafter, LastWrites.ofText_appended hlaw hp hrows, LastWrites.record,
      LastWrites.live_parsed hlaw hp]

theorem SidecarBatch.rows_reread (batch : SidecarBatch json) :
    ∀ row ∈ batch.rows, (sidecarFormat json).Rereads row := by
  intro row hrow
  obtain ⟨record, -, rfl⟩ := List.mem_map.mp hrow
  exact record.rereads

theorem live_map {s : SidecarState} {m : SidecarMap} (h : InStep json (s, m)) {p : ParsedSidecar}
    (hp : parseSidecar json s.data = .ok p) : m.live (sidecarFormat json) = p.live := by
  have hmap : m = LastWrites.ofText (sidecarFormat json) s.data := h.map
  rw [hmap, LastWrites.live_parsed (sidecarFormat_lawful json) hp]

theorem upsertMany_written {s : SidecarState} {m : SidecarMap} (h : InStep json (s, m))
    (stamp : Stamp) (batch : SidecarBatch json) :
    ∃ t, upsertMany json s stamp batch = .ok t ∧
      Written json t stamp (m.record (sidecarFormat json) batch.rows).closed := by
  obtain ⟨p, s', hcurrent, hp, hfile, -⟩ := currentParse_spec h
  have hdistinct : (sidecarFormat json).Distinct batch.rows := batch.distinct
  rw [LastWrites.record, live_map h hp, upsertMany]
  cases hnone : s.file with
  | none =>
      -- an absent file has no rows
      have hdata : s.data = [] := by rw [SidecarState.data, hnone, Option.getD_none]
      have hlive : p.live = [] := by
        rw [Format.live_parse (sidecarFormat_lawful json) hp, hdata]
        rfl
      refine ⟨_, rfl, ?_⟩
      rw [hlive, Format.lastWrites_distinct hdistinct]
      exact replace_written s stamp batch.rows_reread hdistinct
  | some data =>
      rw [hcurrent]
      refine ⟨_, rfl, ?_⟩
      dsimp only
      split
      · rw [Format.lastWrites_eq_merged hdistinct]
        refine replace_written s' stamp ?_
          ((Format.live_distinct (sidecarFormat_lawful json) hp).merged hdistinct)
        intro row hrow
        rcases List.mem_append.mp hrow with hkept | hnew
        · exact Format.live_rereads (sidecarFormat_lawful json) hp row
            (List.mem_of_mem_filter hkept)
        · exact batch.rows_reread row hnew
      · rename_i hkeep
        rw [Bool.or_eq_true, not_or, Bool.not_eq_true, Bool.not_eq_true] at hkeep
        exact append_written stamp hp hfile batch.rows_reread hdistinct hkeep.2

theorem name_eq_some {row : SidecarRow} {id : String} (hid : id ≠ "") :
    (sidecarFormat json).name row = some id ↔ row.id = id := by
  change (if row.id = "" then none else some row.id) = some id ↔ _
  split
  · rename_i hempty
    rw [hempty]
    exact iff_of_false nofun fun h => hid h.symm
  · exact Option.some_inj

theorem name_ne_empty (row : SidecarRow) : (sidecarFormat json).name row ≠ some "" := by
  change (if row.id = "" then none else some row.id) ≠ some ""
  split
  · nofun
  · rename_i hne
    exact fun h => hne (Option.some.inj h)

/-- No line of the file is one of the id. -/
def Purged (json : SidecarJson) (t : SidecarState) (id : String) : Prop :=
  ∀ line ∈ t.data.splitOn 0x0a, ∀ row, readLine json.py line = .ok (.row row) →
    (sidecarFormat json).name row ≠ some id

theorem purged_of_find {t : SidecarState} {p : ParsedSidecar} {id : String}
    (hp : parseSidecar json t.data = .ok p)
    (h : ∀ row ∈ p.live, (sidecarFormat json).name row ≠ some id) :
    Purged json t id := by
  intro line hline row hread hname
  have hfound := (Format.find_named_iff (sidecarFormat_lawful json) hp id).mpr
    ⟨line, hline, row, hread, hname⟩
  rw [(Format.parse_indexed (sidecarFormat_lawful json) hp).find_named, ← Format.live_eq] at hfound
  obtain ⟨row', hrow', hname'⟩ := hfound
  exact h row' hrow' hname'

/-- A purge rewrites the file without the id, or finds nothing of it. -/
theorem purge_spec {s : SidecarState} {m : SidecarMap} (h : InStep json (s, m)) (stamp : Stamp)
    (id : String) :
    ∃ wrote t, purgeSidecarEntry json s stamp id = .ok (wrote, t) ∧ Purged json t id ∧
      if wrote then
        Written json t stamp (m.remove (sidecarFormat json) id).closed ∧
          (m.remove (sidecarFormat json) id).tail = []
      else t.data = s.data ∧ CacheValid json t ∧ m.remove (sidecarFormat json) id = m := by
  obtain ⟨p, s', hcurrent, hp, hfile, hvalid⟩ := currentParse_spec h
  have hlaw := sidecarFormat_lawful json
  have hfind : (p.index.find (.named id)).isSome = true ↔
      ∃ row ∈ p.live, (sidecarFormat json).name row = some id := by
    rw [(Format.parse_indexed hlaw hp).find_named, ← Format.live_eq]
  have hany : (m.live (sidecarFormat json)).any
      (fun row => (sidecarFormat json).name row == some id) =
        (p.index.find (.named id)).isSome := by
    rw [live_map h hp, Bool.eq_iff_iff, hfind, List.any_eq_true]
    simp only [beq_iff_eq]
  have habsent : (p.index.find (.named id)).isSome = false → ∀ t : SidecarState,
      t.data = s.data → Purged json t id := by
    intro hnone t hdata
    refine purged_of_find (p := p) (by rw [hdata]; exact hp) fun row hrow hname => ?_
    rw [hfind.mpr ⟨row, hrow, hname⟩] at hnone
    cases hnone
  have hunchanged : (p.index.find (.named id)).isSome = false →
      m.remove (sidecarFormat json) id = m := by
    intro hnone
    rw [LastWrites.remove, hany, hnone]
    rfl
  rw [purgeSidecarEntry]
  cases hnone : s.file with
  | none =>
      have hdata : s.data = [] := by rw [SidecarState.data, hnone, Option.getD_none]
      have hlive : p.live = [] := by
        rw [Format.live_parse hlaw hp, hdata]
        rfl
      have hmissing : (p.index.find (.named id)).isSome = false := by
        rw [← Bool.not_eq_true, hfind, hlive]
        rintro ⟨row, hrow, -⟩
        cases hrow
      exact ⟨false, s, rfl, habsent hmissing s rfl, rfl, h.cache, hunchanged hmissing⟩
  | some data =>
      rw [hcurrent]
      have hdata : s'.data = s.data := by rw [SidecarState.data, hfile, SidecarState.data]
      dsimp only [Option.isNone_some, Except.map]
      rw [if_neg Bool.false_ne_true]
      cases hfound : (p.index.find (.named id)).isSome with
      | false =>
          rw [Bool.and_false, if_neg Bool.false_ne_true]
          exact ⟨false, s', rfl, habsent hfound s' hdata, hdata, hvalid, hunchanged hfound⟩
      | true =>
          have hid : id ≠ "" := by
            rintro rfl
            obtain ⟨row, -, hname⟩ := hfind.mp hfound
            exact name_ne_empty row hname
          have hwithout : p.live.filter (fun row => row.id != id) =
              (sidecarFormat json).without p.live id := by
            apply List.filter_congr
            intro row _
            rw [Bool.eq_iff_iff, bne_iff_ne, bne_iff_ne, not_iff_not, name_eq_some hid]
          have hremove : m.remove (sidecarFormat json) id =
              ⟨(sidecarFormat json).without p.live id, []⟩ := by
            rw [LastWrites.remove, hany, hfound, live_map h hp]
            rfl
          have hwritten : Written json
              (s'.replace json stamp ((sidecarFormat json).without p.live id)) stamp
              ((sidecarFormat json).without p.live id) :=
            replace_written s' stamp
              (fun row hrow => Format.live_rereads hlaw hp row (List.mem_of_mem_filter hrow))
              ((Format.live_distinct hlaw hp).without id)
          rw [bne_iff_ne.mpr hid, Bool.and_true, if_pos rfl, hwithout, hremove]
          refine ⟨true, _, rfl, ?_, hwritten, rfl⟩
          obtain ⟨q, hq, hlive, -⟩ := hwritten.parse
          refine purged_of_find hq fun row hrow => ?_
          rw [hlive] at hrow
          simpa using (List.mem_filter.mp hrow).2

theorem inStep_written {t : SidecarState} {stamp : Stamp} {live : List SidecarRow}
    (h : Written json t stamp live) : InStep json (t, ⟨live, []⟩) :=
  ⟨⟨_, h.parse.choose_spec.1⟩, h.valid, h.map.symm⟩

/-- Calls keep file, cache and map in step, and so do others whose lines can be read. -/
theorem inStep_preserved :
    (sidecarMachine json).Preserves (LeavesReadable json) (InStep json) := by
  rintro ⟨s, m⟩ event t h hguard hstep
  obtain rfl : (sidecarStep json s event, mapStep json m event) = t := Option.some.inj hstep
  cases event with
  | upsert batch stamp =>
      obtain ⟨t, hcall, hwritten⟩ := upsertMany_written h stamp batch
      rw [sidecarStep, hcall]
      exact inStep_written hwritten
  | purge id stamp =>
      obtain ⟨wrote, t, hcall, -, hleft⟩ := purge_spec h stamp id
      rw [sidecarStep, hcall, mapStep]
      cases wrote with
      | true =>
          obtain ⟨hwritten, htail⟩ := hleft
          have hmap : m.remove (sidecarFormat json) id =
              ⟨(m.remove (sidecarFormat json) id).closed, []⟩ := LastWrites.ext rfl htail
          rw [hmap]
          exact inStep_written hwritten
      | false =>
          obtain ⟨hdata, hvalid, hmap⟩ := hleft
          rw [hmap]
          obtain ⟨p, hp⟩ := h.parses
          have hsame : m = LastWrites.ofText (sidecarFormat json) s.data := h.map
          exact ⟨⟨p, hdata ▸ hp⟩, hvalid, hdata ▸ hsame⟩
  | read =>
      obtain ⟨p, s', hcurrent, hp, hfile, hvalid⟩ := currentParse_spec h
      rw [sidecarStep, hcurrent]
      have hdata : s'.data = s.data := by rw [SidecarState.data, hfile, SidecarState.data]
      have hsame : m = LastWrites.ofText (sidecarFormat json) s.data := h.map
      exact ⟨⟨p, hdata ▸ hp⟩, hvalid, hdata ▸ hsame⟩
  | others bytes stamp =>
      have hsame : m = LastWrites.ofText (sidecarFormat json) s.data := h.map
      refine ⟨parse_of_readable hguard, ?_, ?_⟩
      · intro key p hcache
        obtain ⟨old, hprefix, hsize, hparse⟩ := h.cache key p hcache
        exact ⟨old, hprefix.trans (List.prefix_append s.data bytes), hsize, hparse⟩
      · change mapStep json m (.others bytes stamp) = _
        rw [mapStep, hsame]
        exact LastWrites.receive_ofText s.data bytes

/-- What the sidecar owes to the map of its writes. -/
structure Refines (json : SidecarJson) (s : SidecarState × SidecarMap) : Prop where
  /-- The parse of the file says what the map does. -/
  live : ∃ p, parseSidecar json s.1.data = .ok p ∧ p.live = s.2.live (sidecarFormat json)
  /-- A parse that is found in the cache is the fresh one. -/
  cached : ∀ p, s.1.cached = some p → parseSidecar json s.1.data = .ok p
  /-- After an upsert the cache holds the parse, and dead lines are few. -/
  upserted : ∀ batch stamp, ∃ p,
    parseSidecar json (sidecarStep json s.1 (.upsert batch stamp)).data = .ok p ∧
      (stamp.isSome = true → (sidecarStep json s.1 (.upsert batch stamp)).cached = some p) ∧
      p.dead ≤ max p.size COMPACT_MIN_DEAD
  /-- A purge leaves no line of the id; where it has written, the same. -/
  purged : ∀ id stamp, Purged json (sidecarStep json s.1 (.purge id stamp)) id ∧
    ((∃ t, purgeSidecarEntry json s.1 stamp id = .ok (true, t)) → ∃ p,
      parseSidecar json (sidecarStep json s.1 (.purge id stamp)).data = .ok p ∧
        (stamp.isSome = true → (sidecarStep json s.1 (.purge id stamp)).cached = some p) ∧
        p.dead ≤ max p.size COMPACT_MIN_DEAD)

theorem InStep.refines {s : SidecarState × SidecarMap} (h : InStep json s) : Refines json s where
  live := by
    obtain ⟨p, hp⟩ := h.parses
    exact ⟨p, hp, (live_map h hp).symm⟩
  cached _ := h.cached
  upserted batch stamp := by
    obtain ⟨t, hcall, hwritten⟩ := upsertMany_written h stamp batch
    obtain ⟨p, hp, -, hcached, hdead⟩ := hwritten.parse
    rw [sidecarStep, hcall]
    exact ⟨p, hp, hcached, hdead⟩
  purged id stamp := by
    obtain ⟨wrote, t, hcall, hpurged, hleft⟩ := purge_spec h stamp id
    rw [sidecarStep, hcall]
    refine ⟨hpurged, ?_⟩
    rintro ⟨t', ht'⟩
    cases ht'
    obtain ⟨p, hp, -, hcached, hdead⟩ := hleft.1.parse
    exact ⟨p, hp, hcached, hdead⟩

/-- Any file to begin with, and no cache of it. -/
def opened (json : SidecarJson) (file : Option (List UInt8)) (stamp : Stamp) :
    SidecarState × SidecarMap :=
  (⟨file, stamp, none⟩, LastWrites.ofText (sidecarFormat json) (file.getD []))

/-- Along every run in which others leave readable lines, the sidecar refines the map of its
last writes. -/
theorem sidecar_refines {file : Option (List UInt8)} {stamp : Stamp}
    {events : List (SidecarEvent json)} (hfile : Readable json (file.getD []))
    (hguarded : (sidecarMachine json).Guarded (LeavesReadable json) (opened json file stamp)
      events) :
    (sidecarMachine json).Along (Refines json) (opened json file stamp) events :=
  (sidecarMachine json).along_of_guarded inStep_preserved (fun _ => InStep.refines)
    ⟨parse_of_readable hfile, nofun, rfl⟩ hguarded

/-- `{"id": "a"}`. -/
def recordFields : List (String × Json) := [("id", .str "a")]

/-- An object with a number of many digits. -/
def numberText (digits : Nat) : String :=
  braced ("\"id\": " ++ String.ofList (List.replicate digits '1'))

theorem recordText_ne (digits : Nat) : Json.dumps (.obj recordFields) ≠ numberText digits := by
  intro h
  have hlist := congrArg (fun text => (text.toList.drop 7).head?) h
  have hrecord : ((Json.dumps (.obj recordFields)).toList.drop 7).head? = some '"' := by
    decide +kernel
  have hnumber : (numberText digits).toList.drop 7 = List.replicate digits '1' ++ ['\x7d'] := by
    simp only [numberText, braced, String.toList_append, String.toList_ofList]
    rfl
  rw [hrecord, hnumber] at hlist
  cases digits with
  | zero => cases hlist
  | succ digits => cases hlist

/-- `int` does not take so many digits; other texts are no JSON here. -/
def limitedJson (digits : Nat) : SidecarJson where
  py := { plainPython with
    loads := fun text =>
      if text = numberText digits then .error .value
      else if text = Json.dumps (.obj recordFields) then .ok (.obj recordFields)
      else .error .decode }
  equal := fun _ _ => false
  reread := by
    intro text v h
    dsimp only at h ⊢
    split at h
    · cases h
    · split at h
      · cases h
        rw [if_neg (recordText_ne digits), if_pos rfl]
      · cases h
  oneLine := by
    intro text v h
    dsimp only at h
    split at h
    · cases h
    · split at h
      · cases h
        decide +kernel
      · cases h

theorem encodeUtf8_ones (n : Nat) :
    encodeUtf8 (String.ofList (List.replicate n '1')) = List.replicate n 0x31 := by
  induction n with
  | zero => rfl
  | succ n ih =>
      have hcons : String.ofList (List.replicate (n + 1) '1') =
          "1" ++ String.ofList (List.replicate n '1') := by
        apply String.toList_inj.mp
        simp only [String.toList_append, String.toList_ofList, List.replicate_succ]
        rfl
      rw [hcons, encodeUtf8_append, ih, List.replicate_succ]
      rfl

theorem number_oneLine (digits : Nat) : (0x0a : UInt8) ∉ encodeUtf8 (numberText digits) := by
  rw [numberText, braced, encodeUtf8_append, encodeUtf8_append, encodeUtf8_append, encodeUtf8_ones]
  have hfront : (0x0a : UInt8) ∉ encodeUtf8 "\x7b" ++ encodeUtf8 "\"id\": " := by decide +kernel
  have hend : (0x0a : UInt8) ∉ encodeUtf8 "\x7d" := by decide +kernel
  simp only [List.mem_append, not_or, List.mem_replicate] at hfront ⊢
  exact ⟨⟨hfront.1, hfront.2, fun h => absurd h.2 (by decide)⟩, hend⟩

theorem parseSidecar_number (digits : Nat) :
    parseSidecar (limitedJson digits) (encodeUtf8 (numberText digits)) = .error .value := by
  have hloads : (limitedJson digits).py.loads (numberText digits) = .error .value := if_pos rfl
  have hread :
      readLine (limitedJson digits).py (encodeUtf8 (numberText digits)) = .error .value := by
    rw [numberText, readLine_braced, ← numberText, hloads]
    rfl
  have hsplit : (encodeUtf8 (numberText digits)).splitOn
      (sidecarFormat (limitedJson digits)).separator = [encodeUtf8 (numberText digits)] :=
    List.splitOn_eq_singleton (number_oneLine digits)
  rw [parseSidecar, Format.parse, hsplit, Format.scan, Format.scanLine]
  change Except.map _ (Except.bind (Except.map _
    (readLine (limitedJson digits).py (encodeUtf8 (numberText digits)))) _) = _
  rw [hread]
  rfl

/-- Another writer's line ends every later call. -/
theorem number_unreadable :
    parseSidecar (limitedJson 4301) (encodeUtf8 (numberText 4301)) = .error .value ∧
      ¬ Refines (limitedJson 4301)
        ((sidecarMachine (limitedJson 4301)).endState (opened (limitedJson 4301) none none)
          [.others (encodeUtf8 (numberText 4301)) none]) := by
  generalize 4301 = digits
  refine ⟨parseSidecar_number digits, ?_⟩
  intro h
  obtain ⟨p, hp, -⟩ := h.live
  have hdata : ((sidecarMachine (limitedJson digits)).endState
      (opened (limitedJson digits) none none)
      [.others (encodeUtf8 (numberText digits)) none]).1.data = encodeUtf8 (numberText digits) :=
        rfl
  rw [hdata, parseSidecar_number] at hp
  cases hp

theorem record_rereads (digits : Nat) :
    (sidecarFormat (limitedJson digits)).Rereads ⟨recordFields, "a"⟩ := by
  have hloads : (limitedJson digits).py.loads (Json.dumps (.obj recordFields)) =
      .ok (.obj recordFields) := by
    change (if _ then _ else _) = _
    rw [if_neg (recordText_ne digits), if_pos rfl]
  have hread : readLine (limitedJson digits).py (encodeUtf8 (Json.dumps (.obj recordFields))) =
      .ok (.row ⟨recordFields, "a"⟩) := by
    rw [dumps_obj, readLine_braced, ← dumps_obj, hloads]
    rfl
  exact (rereads_iff _ _).mpr hread

/-- A row that is written and purged. -/
def recordBatch : SidecarBatch (limitedJson 4301) where
  records := [⟨⟨recordFields, "a"⟩, record_rereads 4301⟩]
  distinct := List.nodup_singleton "a"

theorem sidecar_refines_record :
    (sidecarMachine (limitedJson 4301)).Along (Refines (limitedJson 4301))
      (opened (limitedJson 4301) none none)
      [.upsert recordBatch (some (1, 1)), .purge "a" (some (2, 2))] := by
  refine sidecar_refines ?_ ⟨trivial, fun _ _ => ⟨trivial, fun _ _ => trivial⟩⟩
  intro line hline
  obtain rfl : line = [] := List.mem_singleton.mp hline
  exact ⟨.blank, rfl⟩

end TrwMemory.Lifecycle

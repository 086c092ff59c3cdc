import TrwMemory.Library.RowLogWrites
import TrwMemory.Library.Transition
import TrwMemory.Storage.TemporalFetch

/-!
The sidecar of the warm tier (`lifecycle/tiers/_warm_sidecar_cache.py`, the sidecar's writers
in `_warm.py`): a file of JSON lines, the cache of its parse, and the calls that write it. One
process makes the calls, under the file's lock; others append to the file in between. The sidecar
is a map of last writes along every run: what its parse says, what the cache holds, and what a
call leaves.

What `json.loads` raises besides `JSONDecodeError` ends the call, and every later one. Maxima of
scores, the directory, modes and links are left out.
-/
namespace TrwMemory.Lifecycle

open Library Library.RowLog Codec Storage

/-- `bytes.strip` strips these. -/
def byteSpace (b : UInt8) : Bool := b == 0x20 || (0x09 ≤ b && b ≤ 0x0d)

def encodeUtf8 (text : String) : List UInt8 := text.toUTF8.data.toList

/-- The interpreter: `json` and `==` of JSON values. What was read is written on one line, and
reads back. -/
structure SidecarJson where
  py : Python
  equal : Json → Json → Bool
  reread : ∀ text v, py.loads text = .ok v → py.loads (Json.dumps v) = .ok v
  oneLine : ∀ text v, py.loads text = .ok v → (0x0a : UInt8) ∉ encodeUtf8 (Json.dumps v)

/-- A record, and its id as a text. -/
structure SidecarRow where
  fields : List (String × Json)
  id : String

/-- `bool` of a value. -/
def jsonTruthy (py : Python) : Json → Bool
  | .null => false
  | .bool b => b
  | .int n => n != 0
  | .float text => py.float text != some (.finite 0)
  | .str s => s != ""
  | .arr items => !items.isEmpty
  | .obj fields => !fields.isEmpty

/-- `_row_namespace`. -/
def rowNamespace (py : Python) (row : SidecarRow) : Option String :=
  match Json.field? "id" row.fields, Json.field? "entry" row.fields with
  | some id, some (.obj entry) =>
      if jsonTruthy py id then
        match Json.field? "namespace" entry with
        | some (.str ns) => some ns
        | _ => none
      else none
  | _, _ => none

/-- `str(rec.get("id", ""))`. -/
def recordId (py : Python) (fields : List (String × Json)) : Except PyError String :=
  match Json.field? "id" fields with
  | none => .ok ""
  | some id => py.strOfJson id

/-- One line of `parse_sidecar`. -/
def readLine (py : Python) (line : List UInt8) : Except PyError (Reading SidecarRow) :=
  if line.all byteSpace then .ok .blank
  else
    match decodeUtf8 line with
    | none => .ok .ignored
    | some text =>
        if pyStrip text = "" then .ok .ignored
        else
          match py.loads (pyStrip text) with
          | .error .decode => .ok .ignored
          | .error raised => .error raised.toPyError
          | .ok (.obj fields) => (recordId py fields).map fun id => .row ⟨fields, id⟩
          | .ok _ => .ok .ignored

variable (json : SidecarJson)

/-- The sidecar as a log: rows supersede each other by id. -/
def sidecarFormat : Format UInt8 SidecarRow String String PyError where
  separator := 0x0a
  read := readLine json.py
  write row := encodeUtf8 (Json.dumps (.obj row.fields))
  name row := if row.id = "" then none else some row.id
  tag := rowNamespace json.py

abbrev ParsedSidecar := Parsed SidecarRow String String

/-- `parse_sidecar`. -/
def parseSidecar (data : List UInt8) : Except PyError ParsedSidecar :=
  (sidecarFormat json).parse data

/-- A record that a caller hands over, as it reads back from its line. -/
structure SidecarRecord where
  row : SidecarRow
  rereads : (sidecarFormat json).Rereads row

def COMPACT_MIN_DEAD : Nat := 256

/-- `_compaction_due`. -/
def compactionDue (dead live : Nat) : Bool := decide (max live COMPACT_MIN_DEAD < dead)

/-- `compaction_due_after`. -/
def compactionDueAfter (p : ParsedSidecar) (rows : List SidecarRow) : Bool :=
  let superseded := (sidecarFormat json).superseded p rows
  compactionDue (p.dead + superseded) (p.size + rows.length - superseded)

def ACCESS_FIELDS : List String :=
  ["last_accessed_at", "access_count", "recall_count", "sync_seq", "last_synced_at"]

/-- `_without_access_fields`. -/
def withoutAccessFields (fields : List (String × Json)) : List (String × Json) :=
  match Json.field? "entry" fields with
  | some (.obj entry) =>
      fields.map fun field =>
        if field.1 = "entry" then
          ("entry", .obj (entry.filter fun f => !ACCESS_FIELDS.contains f.1))
        else field
  | _ => fields

/-- `access_only_change`. -/
def accessOnlyChange (old new : SidecarRow) : Bool :=
  json.equal (.obj (withoutAccessFields old.fields)) (.obj (withoutAccessFields new.fields))

/-- Time of the last change, size, and inode. -/
abbrev SidecarKey := Nat × Nat × Nat

/-- What the file system tells of the file besides its size, where it can be asked. -/
abbrev Stamp := Option (Nat × Nat)

structure SidecarState where
  file : Option (List UInt8)
  stamp : Stamp
  cache : Option (SidecarKey × ParsedSidecar)

namespace SidecarState

variable (s : SidecarState)

def data : List UInt8 := s.file.getD []

/-- `sidecar_key`. -/
def key : Option SidecarKey :=
  s.file.bind fun data => s.stamp.map fun stamp => (stamp.1, data.length, stamp.2)

/-- `SidecarCache.get` of the file's key. -/
def cached : Option ParsedSidecar :=
  s.key.bind fun key => (s.cache.filter fun entry => entry.1 == key).map Prod.snd

/-- `SidecarCache.put` under the file's key. -/
def put (p : ParsedSidecar) : SidecarState := { s with cache := s.key.map (·, p) }

/-- `_current_parse`. -/
def currentParse : Except PyError (ParsedSidecar × SidecarState) :=
  match s.cached with
  | some p => .ok (p, s)
  | none => (parseSidecar json s.data).map fun p => (p, s.put p)

/-- `_replace_sidecar`. -/
def replace (stamp : Stamp) (rows : List SidecarRow) : SidecarState :=
  let written := { s with file := some ((sidecarFormat json).lines rows), stamp }
  written.put ((sidecarFormat json).extend Parsed.empty rows)

/-- `append_beneath`, and `record_append`. -/
def append (stamp : Stamp) (p : ParsedSidecar) (rows : List SidecarRow) : SidecarState :=
  let text := (sidecarFormat json).terminator p ++ (sidecarFormat json).lines rows
  let written := { s with file := some (s.data ++ text), stamp }
  written.put ((sidecarFormat json).extend p rows)

end SidecarState

/-- Records of one call, as `_warm_sidecar_upsert_many` is given them: one for each id. -/
structure SidecarBatch where
  records : List (SidecarRecord json)
  distinct : (sidecarFormat json).Distinct (records.map SidecarRecord.row)

def SidecarBatch.rows (batch : SidecarBatch json) : List SidecarRow :=
  batch.records.map SidecarRecord.row

/-- `_warm_sidecar_upsert_many`. -/
def upsertMany (s : SidecarState) (stamp : Stamp) (batch : SidecarBatch json) :
    Except PyError SidecarState :=
  let rows := batch.rows
  if s.file.isNone then .ok (s.replace json stamp rows)
  else
    (s.currentParse json).map fun (parsed, s) =>
      let changed := rows.any fun row =>
        (((sidecarFormat json).name row).bind fun id => parsed.index.find (.named id)).any
          fun old => !accessOnlyChange json old.2 row
      if changed || compactionDueAfter json parsed rows then
        s.replace json stamp ((sidecarFormat json).merged parsed.live rows)
      else s.append json stamp parsed rows

/-- `purge_sidecar_entry`, and whether it has written. -/
def purgeSidecarEntry (s : SidecarState) (stamp : Stamp) (id : String) :
    Except PyError (Bool × SidecarState) :=
  if s.file.isNone then .ok (false, s)
  else
    (s.currentParse json).map fun (parsed, s) =>
      if id != "" && (parsed.index.find (.named id)).isSome then
        (true, s.replace json stamp ((parsed.live).filter fun row => row.id != id))
      else (false, s)

open Library.Transition

theorem decodeUtf8_encodeUtf8 (text : String) : decodeUtf8 (encodeUtf8 text) = some text := by
  rw [decodeUtf8, encodeUtf8]
  have hbytes : (⟨text.toUTF8.data.toList.toArray⟩ : ByteArray) = text.toByteArray := rfl
  rw [hbytes, String.fromUTF8?, dif_pos text.isValidUTF8]
  rfl

theorem encodeUtf8_append (s t : String) : encodeUtf8 (s ++ t) = encodeUtf8 s ++ encodeUtf8 t := by
  rw [encodeUtf8, encodeUtf8, encodeUtf8]
  change (s ++ t).toByteArray.data.toList = s.toByteArray.data.toList ++ t.toByteArray.data.toList
  rw [String.toByteArray_append]
  simp

/-- The text of an object. -/
def braced (text : String) : String := "\x7b" ++ text ++ "\x7d"

theorem pyStrip_braced (text : String) : pyStrip (braced text) = braced text := by
  have hlist : (braced text).toList = '\x7b' :: (text.toList ++ ['\x7d']) := by
    rw [braced, String.toList_append, String.toList_append]
    rfl
  have hreverse : ('\x7b' :: (text.toList ++ ['\x7d'])).reverse =
      '\x7d' :: (text.toList.reverse ++ ['\x7b']) := by simp
  have hfront : ('\x7b' :: (text.toList ++ ['\x7d'])).dropWhile pySpace =
      '\x7b' :: (text.toList ++ ['\x7d']) := List.dropWhile_cons_of_neg (by decide)
  have hback : ('\x7d' :: (text.toList.reverse ++ ['\x7b'])).dropWhile pySpace =
      '\x7d' :: (text.toList.reverse ++ ['\x7b']) := List.dropWhile_cons_of_neg (by decide)
  rw [pyStrip, hlist, hfront, hreverse, hback, ← hreverse, List.reverse_reverse, ← hlist,
    String.ofList_toList]

theorem braced_ne_empty (text : String) : braced text ≠ "" := by
  intro h
  have hlist := congrArg String.toList h
  rw [braced, String.toList_append, String.toList_append] at hlist
  cases hlist

theorem not_blank_braced (text : String) : (encodeUtf8 (braced text)).all byteSpace = false := by
  rw [braced, encodeUtf8_append, encodeUtf8_append, List.append_assoc, List.all_append]
  rfl

/-- What is made of the line of an object. -/
theorem readLine_braced (py : Python) (text : String) :
    readLine py (encodeUtf8 (braced text)) =
      match py.loads (braced text) with
      | .error .decode => .ok .ignored
      | .error raised => .error raised.toPyError
      | .ok (.obj fields) => (recordId py fields).map fun id => .row ⟨fields, id⟩
      | .ok _ => .ok .ignored := by
  rw [readLine, not_blank_braced, if_neg Bool.false_ne_true, decodeUtf8_encodeUtf8]
  dsimp only
  rw [pyStrip_braced]
  exact if_neg (braced_ne_empty text)

theorem dumps_obj (fields : List (String × Json)) :
    Json.dumps (.obj fields) = braced (Json.dumpsFields fields) := rfl

variable (json : SidecarJson)

/-- A row was loaded from a text. -/
theorem readLine_row {line : List UInt8} {row : SidecarRow}
    (h : readLine json.py line = .ok (.row row)) :
    ∃ text, json.py.loads text = .ok (.obj row.fields) ∧
      recordId json.py row.fields = .ok row.id := by
  unfold readLine at h
  split at h
  · cases h
  · split at h
    · cases h
    · rename_i text _
      split at h
      · cases h
      · split at h
        · cases h
        · cases h
        · rename_i fields hloads
          cases hid : recordId json.py fields with
          | error raised =>
              rw [hid] at h
              cases h
          | ok id =>
              rw [hid] at h
              cases h
              exact ⟨_, hloads, hid⟩
        · cases h

theorem rereads_iff (row : SidecarRow) : (sidecarFormat json).Rereads row ↔
    readLine json.py (encodeUtf8 (Json.dumps (.obj row.fields))) = .ok (.row row) := Iff.rfl

theorem sidecarFormat_lawful : (sidecarFormat json).Lawful where
  read_nil := rfl
  rewrite line row h := by
    obtain ⟨text, hloads, hid⟩ := readLine_row json h
    refine ⟨?_, json.oneLine text _ hloads⟩
    change readLine json.py (encodeUtf8 (Json.dumps (.obj row.fields))) = _
    rw [dumps_obj, readLine_braced, ← dumps_obj, json.reread text _ hloads]
    dsimp only
    rw [hid]
    rfl

inductive SidecarEvent where
  | upsert (batch : SidecarBatch json) (stamp : Stamp)
  | purge (id : String) (stamp : Stamp)
  | read
  | others (bytes : List UInt8) (stamp : Stamp)

abbrev SidecarMap := LastWrites SidecarRow UInt8

/-- A call that raises changes nothing. -/
def sidecarStep (s : SidecarState) : SidecarEvent json → SidecarState
  | .upsert batch stamp => (upsertMany json s stamp batch).toOption.getD s
  | .purge id stamp => ((purgeSidecarEntry json s stamp id).map Prod.snd).toOption.getD s
  | .read => ((s.currentParse json).map Prod.snd).toOption.getD s
  | .others bytes stamp => { s with file := some (s.data ++ bytes), stamp }

/-- The same writes on the map. -/
def mapStep (m : SidecarMap) : SidecarEvent json → SidecarMap
  | .upsert batch _ => m.record (sidecarFormat json) batch.rows
  | .purge id _ => m.remove (sidecarFormat json) id
  | .read => m
  | .others bytes _ => m.receive (sidecarFormat json) bytes

/-- The sidecar, and the map beside it. -/
def sidecarMachine : Machine (SidecarState × SidecarMap) (SidecarEvent json) where
  step s event := some (sidecarStep json s.1 event, mapStep json s.2 event)

/-- No line makes `json.loads`, or `str` of its id, raise what the parser does not catch. -/
def Readable (data : List UInt8) : Prop :=
  ∀ line ∈ data.splitOn 0x0a, ∃ reading, readLine json.py line = .ok reading

/-- The bytes of others leave readable lines. -/
def LeavesReadable (s : SidecarState × SidecarMap) : SidecarEvent json → Prop
  | .others bytes _ => Readable json (s.1.data ++ bytes)
  | _ => True

/-- The cache is of a parse that the file still begins with. -/
structure InStep (s : SidecarState × SidecarMap) : Prop where
  parses : ∃ p, parseSidecar json s.1.data = .ok p
  cache : ∀ key p, s.1.cache = some (key, p) →
    ∃ old, old <+: s.1.data ∧ key.2.1 = old.length ∧ parseSidecar json old = .ok p
  map : s.2 = LastWrites.ofText (sidecarFormat json) s.1.data

variable {json}

theorem parse_of_readable {data : List UInt8} (h : Readable json data) :
    ∃ p, parseSidecar json data = .ok p := Format.parse_isOk h

theorem InStep.cached {s : SidecarState × SidecarMap} (h : InStep json s) {p : ParsedSidecar}
    (hp : s.1.cached = some p) : parseSidecar json s.1.data = .ok p := by
  obtain ⟨key, hkey, hfound⟩ := Option.bind_eq_some_iff.mp hp
  obtain ⟨entry, hentry, rfl⟩ := Option.map_eq_some_iff.mp hfound
  obtain ⟨hcache, hsame⟩ := Option.filter_eq_some_iff.mp hentry
  obtain ⟨old, hprefix, hsize, hparse⟩ := h.cache entry.1 entry.2 hcache
  obtain ⟨data, hfile, hstamp⟩ := Option.bind_eq_some_iff.mp hkey
  obtain ⟨stamp, -, rfl⟩ := Option.map_eq_some_iff.mp hstamp
  have hdata : s.1.data = data := by rw [SidecarState.data, hfile, Option.getD_some]
  rw [beq_iff_eq.mp hsame] at hsize
  have hold : old = s.1.data := hprefix.eq_of_length (by rw [hdata]; exact hsize.symm)
  rw [← hold]
  exact hparse

end TrwMemory.Lifecycle

import Mathlib.Order.Lattice
import TrwMemory.Library.OrderedDict
import TrwMemory.Models.Entry
import TrwMemory.Storage.Database

/-!
The label policy (`labels/_levels.py`, `labels/_file.py`, `labels/_policy.py`): levels, the keys of
tags, the rules that `labels.yaml` is read as, and the policy that is made of them. A rule that was
read is bound by a namespace or by tags, and its tags are keys. Rules are compiled into a table of
tags and, for a namespace that a row has, into a level and a table that are cached; a call gives
its answer and the policy with the cache that it leaves.

The glob matcher, Unicode's normal form, case folding and format characters, and the loader of YAML
are parameters. No call raises. How the file is found, opened and judged, and the identity that
decides when a policy is built anew, are not modelled.
-/
namespace TrwMemory.Labels

inductive Level where
  | PUBLIC | TEAM | PERSONAL | SENSITIVE
  deriving DecidableEq, Repr

namespace Level

def value : Level → Nat
  | PUBLIC => 0
  | TEAM => 1
  | PERSONAL => 2
  | SENSITIVE => 3

instance : LinearOrder Level :=
  LinearOrder.lift' value fun a b h => by cases a <;> cases b <;> first | rfl | cases h

instance : OrderBot Level where
  bot := PUBLIC
  bot_le a := Nat.zero_le a.value

/-- `level.name.lower()`. -/
def text : Level → String
  | PUBLIC => "public"
  | TEAM => "team"
  | PERSONAL => "personal"
  | SENSITIVE => "sensitive"

end Level

/-- `STAMP_VALUES`, with what any other stamp counts as. -/
def stampValue (stamp : String) : Level :=
  ([Level.PUBLIC, .TEAM, .PERSONAL, .SENSITIVE].find? (·.text == stamp)).getD .SENSITIVE

theorem stampValue_text (level : Level) : stampValue level.text = level := by
  cases level <;> rfl

inductive Surface where
  | AUTO | AGENT
  deriving DecidableEq, Repr

inductive Sink where
  | PLATFORM | PROJECT_FILES
  deriving DecidableEq, Repr

/-- What `unicodedata` and `str.casefold` say. -/
structure UnicodeTables where
  nfkc : List Char → List Char
  casefold : List Char → List Char
  isFormat : Char → Bool

def DEFAULT_IGNORABLE_RANGES : List (Nat × Nat) :=
  [(0x00AD, 0x00AD), (0x034F, 0x034F), (0x061C, 0x061C), (0x115F, 0x1160), (0x17B4, 0x17B5),
    (0x180B, 0x180F), (0x200B, 0x200F), (0x202A, 0x202E), (0x2060, 0x206F), (0x3164, 0x3164),
    (0xFE00, 0xFE0F), (0xFEFF, 0xFEFF), (0xFFA0, 0xFFA0), (0xFFF0, 0xFFF8), (0x1BCA0, 0x1BCA3),
    (0x1D173, 0x1D17A), (0xE0000, 0xE0FFF)]

/-- `_ignorable`: the last range that starts at the character or before it. -/
def ignorable (u : UnicodeTables) (c : Char) : Bool :=
  u.isFormat c ||
    match (DEFAULT_IGNORABLE_RANGES.takeWhile (·.1 ≤ c.toNat)).getLast? with
    | none => false
    | some (_, high) => decide (c.toNat ≤ high)

/-- `" ".join(text.split())`. -/
def collapseSpace (text : List Char) : String :=
  " ".intercalate
    (((text.splitOnP Storage.pySpace).filter fun word => !word.isEmpty).map String.ofList)

def tagKey (u : UnicodeTables) (tag : String) : String :=
  if tag.toList.all fun c => c.toNat < 128 then collapseSpace (tag.toList.map Char.toLower)
  else collapseSpace (u.casefold ((u.nfkc tag.toList).filter fun c => !ignorable u c))

/-- `Rule`. It raises only, and is bound. -/
structure Rule where
  ns : Option String
  tags : List String
  level : Level
  bound : ns.isSome = true ∨ tags ≠ []
  raises : Level.PERSONAL ≤ level

def MAX_RULES : Nat := 200
def MAX_TAGS : Nat := 64
def MAX_TEXT : Nat := 256

structure FileData where
  autoSurfaceMax : Level
  agentMax : Level
  rules : List Rule
  ordered : autoSurfaceMax ≤ agentMax
  few : rules.length ≤ MAX_RULES

/-- What `YAML(typ="safe").load` returns. A number is an integer or a finite float. -/
inductive YamlValue where
  | null
  | bool (b : Bool)
  | number (q : Rat)
  | str (s : String)
  | list (items : List YamlValue)
  | dict (fields : List (YamlValue × YamlValue))
  | other

abbrev YamlFields := List (YamlValue × YamlValue)

/-- `set(d) <= keys`. -/
def keysAmong (fields : YamlFields) (keys : List String) : Bool :=
  fields.all fun field =>
    match field.1 with
    | .str key => keys.contains key
    | _ => false

/-- `d.get(key)`. -/
def field (key : String) : YamlFields → Option YamlValue
  | [] => none
  | (.str key', value) :: rest => if key' = key then some value else field key rest
  | _ :: rest => field key rest

def surfaceLevel (document : YamlFields) (key : String) (default : Level) :
    Except String Level :=
  match (field key document).getD (.str default.text) with
  | .str "team" => .ok .TEAM
  | .str "personal" => .ok .PERSONAL
  | _ => .error "bad_surface_level"

/-- `item.get("level")`, of the levels that a rule can have. -/
def ruleLevel (item : YamlFields) : Except String { level : Level // Level.PERSONAL ≤ level } :=
  match field "level" item with
  | some (.str "personal") => .ok ⟨.PERSONAL, by decide⟩
  | some (.str "sensitive") => .ok ⟨.SENSITIVE, by decide⟩
  | _ => .error "bad_rule_level"

/-- A text that is not empty and not too long. -/
def ruleText : YamlValue → Option String
  | .str s => if s ≠ "" ∧ s.length ≤ MAX_TEXT then some s else none
  | _ => none

/-- The namespace of a rule: absent, a text, or refused. -/
def ruleNamespace (item : YamlFields) : Except String (Option String) :=
  match (field "namespace" item).getD .null with
  | .null => .ok none
  | value =>
      match ruleText value with
      | none => .error "bad_rule"
      | some ns => .ok (some ns)

/-- The keys of its tags, without repetition. -/
def ruleTags (u : UnicodeTables) (item : YamlFields) : Except String (Option (List String)) :=
  match (field "tags_any" item).getD .null with
  | .null => .ok none
  | .list tags =>
      if tags = [] ∨ MAX_TAGS < tags.length then .error "bad_rule"
      else
        match tags.mapM ruleText with
        | none => .error "bad_rule"
        | some texts => .ok (some (texts.map (tagKey u)).eraseDups)
  | _ => .error "bad_rule"

/-- `_rule`. -/
def readRule (u : UnicodeTables) : YamlValue → Except String Rule
  | .dict item =>
      if !keysAmong item ["namespace", "tags_any", "level"] then .error "bad_rule"
      else do
        let level ← ruleLevel item
        let ns ← ruleNamespace item
        let tags ← ruleTags u item
        if h : ns.isSome = true ∨ tags.getD [] ≠ [] then
          .ok ⟨ns, tags.getD [], level.1, h, level.2⟩
        else .error "bad_rule"
  | _ => .error "bad_rule"

/-- The rules of a document, and the levels of the surfaces. -/
def readDocument (u : UnicodeTables) (document : YamlFields) : Except String FileData := do
  let autoSurfaceMax ← surfaceLevel document "auto_surface_max" .TEAM
  let agentMax ← surfaceLevel document "agent_max" .PERSONAL
  if hordered : autoSurfaceMax ≤ agentMax then
    match (field "rules" document).getD (.list []) with
    | .list items =>
        if MAX_RULES < items.length then .error "too_many_rules"
        else
          let rules ← items.mapM (readRule u)
          -- as many rules as items
          if hfew : rules.length ≤ MAX_RULES then
            .ok ⟨autoSurfaceMax, agentMax, rules, hordered, hfew⟩
          else .error "too_many_rules"
    | _ => .error "bad_rule"
  else .error "auto_above_agent"

/-- `parse`, of what the loader makes of a text. -/
def parse (u : UnicodeTables) (load : String → Option YamlValue) (text : String) :
    Except String FileData :=
  match load text with
  | none => .error "unparseable"
  | some .null => .error "empty"
  | some (.dict document) =>
      if !keysAmong document ["version", "auto_surface_max", "agent_max", "rules"] then
        .error "unknown_key"
      else
        match field "version" document with
        | some (.number version) =>
            if version = 1 then readDocument u document else .error "bad_version"
        | _ => .error "bad_version"
  | some _ => .error "unknown_key"

open Library

inductive LabelSource where
  | default | file | strict
  deriving DecidableEq, Repr

/-- Levels by tag. -/
abbrev TagLevels := List (String × Level)

/-- `table.get(key, Level.PUBLIC)`. -/
def levelOf (table : TagLevels) (key : String) : Level := (Dict.get table key).getD .PUBLIC

structure LabelPolicy where
  source : LabelSource
  clearance : Surface ⊕ Sink → Level
  tagLevels : TagLevels
  namespaced : List Rule
  nsCache : List (String × Level × TagLevels)

def NS_CACHE_MAX : Nat := 4096

def STAMP_KEY : String := "trw_label"

/-- The loop over the tags of a rule. -/
def raiseTags (table : TagLevels) (rule : Rule) : TagLevels :=
  rule.tags.foldl (fun table tag => Dict.assign table tag (max (levelOf table tag) rule.level))
    table

namespace LabelPolicy

/-- `__init__`. -/
def init (source : LabelSource) (data : Option FileData) : LabelPolicy where
  source
  clearance
    | .inl .AUTO => data.elim .TEAM FileData.autoSurfaceMax
    | .inl .AGENT => data.elim .PERSONAL FileData.agentMax
    | .inr _ => .TEAM
  tagLevels := (data.elim [] FileData.rules).foldl
    (fun table rule => if rule.ns.isSome then table else raiseTags table rule) []
  namespaced := (data.elim [] FileData.rules).filter (·.ns.isSome)
  nsCache := []

variable (globMatches : String → String → Bool) (u : UnicodeTables) (p : LabelPolicy)

def strict : Bool := p.source == .strict

def hasRules : Bool := !p.tagLevels.isEmpty || !p.namespaced.isEmpty

/-- What the rules of a namespace are compiled to. -/
def compile (ns : String) : Level × TagLevels :=
  p.namespaced.foldl (fun (floor, byTag) rule =>
    if !rule.ns.any (globMatches ns) then (floor, byTag)
    else if rule.tags.isEmpty then (max floor rule.level, byTag)
    else (floor, raiseTags byTag rule)) (.PUBLIC, [])

/-- `_for_namespace`. -/
def forNamespace (ns : String) : (Level × TagLevels) × LabelPolicy :=
  match Dict.get p.nsCache ns with
  | some cached => (cached, p)
  | none =>
      let compiled := p.compile globMatches ns
      let kept := if NS_CACHE_MAX ≤ p.nsCache.length then [] else p.nsCache
      (compiled, { p with nsCache := Dict.assign kept ns compiled })

/-- The floor of a namespace: every `user:` namespace is personal, but for `user:local` where
the policy is not strict. -/
def namespaceFloor (ns : String) : Level :=
  if ns.startsWith "user:" && (p.strict || ns != "user:local") then .PERSONAL else .TEAM

/-- The level of a stamp, if there is one. -/
def stampLevel (metadata : Metadata) : Option Level := (metadata.lookup STAMP_KEY).map stampValue

/-- `label_of`. -/
def labelOf (entry : MemoryEntry) : Level × LabelPolicy :=
  let level := p.namespaceFloor entry.ns
  let (level, p) :=
    if p.hasRules then
      let ((floor, byTag), after) := p.forNamespace globMatches entry.ns
      (entry.tags.foldl (fun level tag =>
        let key := tagKey u tag
        max level (max (levelOf p.tagLevels key) (levelOf byTag key))) (max level floor), after)
    else (level, p)
  ((stampLevel entry.metadata).elim level (max level), p)

/-- `_higher_stamp`. -/
def higherStamp (existing : Option String) (mark : Level) : String :=
  match existing with
  | none => mark.text
  | some stamp => (max (stampValue stamp) mark).text

def stamped (metadata : Metadata) (mark entryLevel : Level) : Metadata :=
  if entryLevel < mark then
    metadata.insert STAMP_KEY (higherStamp (metadata.lookup STAMP_KEY) mark)
  else metadata

def joined (base other : Metadata) : Metadata :=
  match ([base.lookup STAMP_KEY, other.lookup STAMP_KEY].filterMap id).map stampValue with
  | [] => base
  | level :: levels => base.insert STAMP_KEY (levels.foldl max level).text

/-- `Admission`. -/
structure Admission where
  admitted : List MemoryEntry
  withheld : Nat
  top : Level

/-- `admit`. -/
def admitEntries (entries : List MemoryEntry) (place : Surface ⊕ Sink) : Admission × LabelPolicy :=
  let clearance := p.clearance place
  let (admitted, top, after) := entries.foldl (fun (admitted, top, p) entry =>
    let (level, p) := labelOf globMatches u p entry
    if level ≤ clearance then (admitted ++ [entry], max top level, p) else (admitted, top, p))
    (([] : List MemoryEntry), Level.TEAM, p)
  (⟨admitted, entries.length - admitted.length, top⟩, after)

/-- The policy after some calls. -/
def afterCalls (entries : List MemoryEntry) : LabelPolicy :=
  entries.foldl (fun p entry => (labelOf globMatches u p entry).2) p

end LabelPolicy

end TrwMemory.Labels

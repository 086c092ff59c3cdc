import TrwMemory.Models.Entry

/-!
The texts of the enumerations, by which their members are stored.
-/
namespace TrwMemory

/-- The member with this text. -/
def byText {α : Type} (members : List α) (text : α → String) (v : String) : Option α :=
  members.find? fun m => text m == v

namespace MemoryStatus

def text : MemoryStatus → String
  | active => "active"
  | resolved => "resolved"
  | obsolete => "obsolete"
  | obsoletePoisoned => "obsolete_poisoned"
  | archived => "archived"

def ofText : String → Option MemoryStatus :=
  byText [active, resolved, obsolete, obsoletePoisoned, archived] text

@[simp]
theorem ofText_text (m : MemoryStatus) : ofText m.text = some m := by
  cases m <;> rfl

end MemoryStatus

namespace MemoryType

def text : MemoryType → String
  | incident => "incident"
  | pattern => "pattern"
  | convention => "convention"
  | hypothesis => "hypothesis"
  | workaround => "workaround"
  | decision => "decision"

def ofText : String → Option MemoryType :=
  byText [incident, pattern, convention, hypothesis, workaround, decision] text

@[simp]
theorem ofText_text (m : MemoryType) : ofText m.text = some m := by
  cases m <;> rfl

end MemoryType

namespace Confidence

def text : Confidence → String
  | unverified => "unverified"
  | low => "low"
  | medium => "medium"
  | high => "high"
  | verified => "verified"

def ofText : String → Option Confidence := byText [unverified, low, medium, high, verified] text

@[simp]
theorem ofText_text (m : Confidence) : ofText m.text = some m := by
  cases m <;> rfl

end Confidence

namespace EvidenceLevel

def text : EvidenceLevel → String
  | observed => "observed"
  | verified => "verified"
  | inferred => "inferred"
  | unknown => "unknown"

def ofText : String → Option EvidenceLevel := byText [observed, verified, inferred, unknown] text

@[simp]
theorem ofText_text (m : EvidenceLevel) : ofText m.text = some m := by
  cases m <;> rfl

end EvidenceLevel

namespace ProtectionTier

def text : ProtectionTier → String
  | critical => "critical"
  | high => "high"
  | normal => "normal"
  | low => "low"
  | «protected» => "protected"
  | permanent => "permanent"

def ofText : String → Option ProtectionTier :=
  byText [critical, high, normal, low, «protected», permanent] text

@[simp]
theorem ofText_text (m : ProtectionTier) : ofText m.text = some m := by
  cases m <;> rfl

end ProtectionTier

namespace Source

def text : Source → String
  | human => "human"
  | agent => "agent"
  | tool => "tool"
  | consolidated => "consolidated"
  | distill => "distill"
  | teamSync => "team_sync"
  | companySync => "company_sync"

/-- `_coerce_unknown_source`. -/
def ofText (v : String) : Source :=
  (byText [human, agent, tool, consolidated, distill, teamSync, companySync] text v).getD .agent

@[simp]
theorem ofText_text (m : Source) : ofText m.text = m := by
  cases m <;> rfl

end Source

namespace VerificationStatus

def text : VerificationStatus → String
  | verified => "verified"
  | stale => "stale"

def ofText : String → Option VerificationStatus := byText [verified, stale] text

@[simp]
theorem ofText_text (m : VerificationStatus) : ofText m.text = some m := by
  cases m <;> rfl

end VerificationStatus

namespace AssertionType

def text : AssertionType → String
  | grepPresent => "grep_present"
  | grepAbsent => "grep_absent"
  | globExists => "glob_exists"
  | globAbsent => "glob_absent"

def ofText : String → Option AssertionType :=
  byText [grepPresent, grepAbsent, globExists, globAbsent] text

@[simp]
theorem ofText_text (m : AssertionType) : ofText m.text = some m := by
  cases m <;> rfl

end AssertionType

namespace SymbolType

def text : SymbolType → String
  | function => "function"
  | method => "method"
  | «class» => "class"
  | const => "const"
  | type => "type"
  | impl => "impl"

def ofText : String → Option SymbolType :=
  byText [function, method, «class», const, type, impl] text

@[simp]
theorem ofText_text (m : SymbolType) : ofText m.text = some m := by
  cases m <;> rfl

end SymbolType

end TrwMemory

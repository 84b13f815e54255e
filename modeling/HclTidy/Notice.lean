/-!
# Notices

What a run tells its user besides its result: one line of text with a severity.
-/

set_option autoImplicit false

namespace HclTidy

inductive Severity where
  | debug | info | warning
deriving Repr, DecidableEq

structure Notice where
  severity : Severity
  text : String
deriving Repr, DecidableEq

namespace Severity

def rank : Severity → Nat
  | .debug => 0
  | .info => 1
  | .warning => 2

end Severity

namespace Notice

def debug (text : String) : Notice := ⟨.debug, text⟩

def info (text : String) : Notice := ⟨.info, text⟩

def warning (text : String) : Notice := ⟨.warning, text⟩

/-- The notice is at least as severe as a threshold. -/
def reaches (threshold : Severity) (n : Notice) : Bool := threshold.rank ≤ n.severity.rank

end Notice

end HclTidy

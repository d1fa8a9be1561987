/-!
# Log entries

The parts of the library report what they do as entries of a journal: a severity and a message.
-/

namespace TreeGrowth

inductive Severity
  | debug
  | info
  | warning
  | error
  deriving Repr, DecidableEq

/-- The rank of a severity; entries below a threshold are not shown. -/
def Severity.rank : Severity → Nat
  | .debug => 10
  | .info => 20
  | .warning => 30
  | .error => 40

def Severity.name : Severity → String
  | .debug => "DEBUG"
  | .info => "INFO"
  | .warning => "WARNING"
  | .error => "ERROR"

structure LogEntry where
  severity : Severity
  message : String
  deriving Repr, DecidableEq

/-- Entries in the order in which they were reported. -/
abbrev Journal := Array LogEntry

end TreeGrowth

import RateLedger.Text.Wide

/-!
# The journal

What happens is reported as lines with a level and the part of the program that speaks. The newest
line stands first.
-/

namespace RateLedger

/-- How much a line matters. -/
inductive Level
  | debug
  | info
  | warning
  | error
  deriving DecidableEq, Repr

/-- The name of a level. -/
def Level.name : Level → String
  | .debug => "DEBUG"
  | .info => "INFO"
  | .warning => "WARNING"
  | .error => "ERROR"

/-- The rank of a level. -/
def Level.rank : Level → Nat
  | .debug => 10
  | .info => 20
  | .warning => 30
  | .error => 40

/-- The least rank that is shown, by its name in capitals. -/
def Level.threshold? (name : String) : Option Nat :=
  [("CRITICAL", 50), ("FATAL", 50), ("ERROR", 40), ("WARN", 30), ("WARNING", 30), ("INFO", 20),
    ("DEBUG", 10), ("NOTSET", 0)].lookup name

/-- A line of the journal. -/
structure Line where
  level : Level
  speaker : String
  text : Text.Wide
  deriving DecidableEq, Repr

/-- The lines so far, the newest first. -/
abbrev Journal := List Line

end RateLedger

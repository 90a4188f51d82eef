/-!
# Log lines
-/

namespace HeatWatch

/-- How important a log line is. -/
inductive Level where
  | debug
  | info
  | warn
  deriving DecidableEq, Repr

def Level.name : Level → String
  | .debug => "DEBUG"
  | .info => "INFO"
  | .warn => "WARN"

/-- The levels from the least important one on. -/
def Level.rank : Level → Nat
  | .debug => 0
  | .info => 1
  | .warn => 2

/-- One line of the log. -/
structure LogLine where
  level : Level
  text : String
  deriving DecidableEq, Repr

namespace LogLine

def debug (text : String) : LogLine := ⟨.debug, text⟩
def info (text : String) : LogLine := ⟨.info, text⟩
def warn (text : String) : LogLine := ⟨.warn, text⟩

/-- The line as it is written, after its level. -/
def print (l : LogLine) : String := l.level.name ++ " " ++ l.text

/-- The line is at least as important as the level. -/
def reaches (lowest : Level) (l : LogLine) : Bool := lowest.rank ≤ l.level.rank

end LogLine

end HeatWatch

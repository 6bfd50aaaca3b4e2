/-!
# What an audit says on the way

Entries for one who wants to follow the work. Each has a level and the part of the program it comes
from, by both of which a host may choose what to show.
-/

namespace AndroidAudit

/-- How much an entry matters, most first. -/
inductive LogLevel where
  | error
  | warn
  | info
  | debug
  | trace
  deriving DecidableEq, Repr

namespace LogLevel

/-- The place of a level, the most important first. -/
def rank : LogLevel → Nat
  | error => 1
  | warn => 2
  | info => 3
  | debug => 4
  | trace => 5

/-- The word for a level. -/
def text : LogLevel → String
  | error => "ERROR"
  | warn => "WARN"
  | info => "INFO"
  | debug => "DEBUG"
  | trace => "TRACE"

end LogLevel

/-- The parts of the program that make entries. -/
inductive LogSource where
  | audit
  | scanCommand
  deriving DecidableEq, Repr

/-- The name of a part, outer parts first. -/
def LogSource.target : LogSource → String
  | audit => "droidlint_core::services::scan"
  | scanCommand => "droidlint::commands::scan"

/-- One entry. -/
structure LogEntry where
  level : LogLevel
  source : LogSource
  text : String
  deriving DecidableEq, Repr

/-- An entry as a line. -/
def LogEntry.line (e : LogEntry) : String := "[" ++ e.level.text ++ "] " ++ e.text

end AndroidAudit

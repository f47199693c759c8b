/-!
# TapeText.Log — diagnostics

A record has a level and a topic. A filter says which records are shown.
-/

namespace TapeText.Log

/-- How serious a record is. -/
inductive Level where
  | error
  | warn
  | info
  | debug
  | trace
deriving DecidableEq, Repr

namespace Level

/-- The rank of a level: the more detailed, the higher. -/
def rank : Level → Nat
  | error => 1
  | warn => 2
  | info => 3
  | debug => 4
  | trace => 5

/-- The level as it is printed with a record. -/
def label : Level → String
  | error => "ERROR"
  | warn => "WARN"
  | info => "INFO"
  | debug => "DEBUG"
  | trace => "TRACE"

end Level

/-- One message of the program about itself. -/
structure Record where
  level : Level
  topic : String
  text : String
deriving DecidableEq, Repr

def Record.line (r : Record) : String := s!"[{r.level.label}] {r.text}\n"

/-- Which records are shown. -/
abbrev Filter := Record → Bool

namespace Filter

/-- The filter that applies where nothing else is said: errors and warnings. -/
def standard : Filter := fun r => r.level.rank ≤ Level.warn.rank

/-- The records that a filter lets through. -/
def select (filter : Filter) (records : List Record) : List Record := records.filter filter

end Filter

end TapeText.Log

/-! # Log messages

What happens is reported in messages of five levels. A reader chooses the most detailed level
that is still shown. -/

namespace Blanking.Log

/-- Weight of a message, the most severe first. -/
inductive Level where
  | error
  | warn
  | info
  | debug
  | trace
deriving DecidableEq, Repr

namespace Level

/-- Severe levels come first. -/
def rank : Level → Nat
  | .error => 1
  | .warn => 2
  | .info => 3
  | .debug => 4
  | .trace => 5

def name : Level → String
  | .error => "ERROR"
  | .warn => "WARN"
  | .info => "INFO"
  | .debug => "DEBUG"
  | .trace => "TRACE"

end Level

structure Entry where
  level : Level
  message : String
deriving DecidableEq, Repr

namespace Entry

def warn (message : String) : Entry := ⟨.warn, message⟩

def info (message : String) : Entry := ⟨.info, message⟩

def debug (message : String) : Entry := ⟨.debug, message⟩

def trace (message : String) : Entry := ⟨.trace, message⟩

def display (entry : Entry) : String := entry.level.name ++ " " ++ entry.message

end Entry

/-- The messages up to a level of detail; no level shows none. -/
def upTo (level : Option Level) (entries : List Entry) : List Entry :=
  match level with
  | none => []
  | some level => entries.filter (·.level.rank ≤ level.rank)

end Blanking.Log

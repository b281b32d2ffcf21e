namespace Colloquy

inductive Level
  | notSet
  | debug
  | info
  | warning
  | error
  | critical
deriving DecidableEq

namespace Level

def name : Level → String
  | notSet => "NOTSET"
  | debug => "DEBUG"
  | info => "INFO"
  | warning => "WARNING"
  | error => "ERROR"
  | critical => "CRITICAL"

def severity : Level → Nat
  | notSet => 0
  | debug => 10
  | info => 20
  | warning => 30
  | error => 40
  | critical => 50

/-- The names under which levels are asked for. Two levels have a second name. -/
def names : List (String × Level) :=
  [("NOTSET", notSet), ("DEBUG", debug), ("INFO", info), ("WARNING", warning), ("WARN", warning),
   ("ERROR", error), ("CRITICAL", critical), ("FATAL", critical)]

def ofName? (s : String) : Option Level :=
  names.lookup s

def isShown (threshold level : Level) : Bool :=
  threshold.severity ≤ level.severity

end Level

/-- A line of a log. Its text is missing if it would show a query that has no written form. -/
structure LogLine where
  level : Level
  text : Option String

namespace LogLine

def debug (text : Option String) : LogLine :=
  ⟨.debug, text⟩

def info (text : String) : LogLine :=
  ⟨.info, some text⟩

def text? (line : LogLine) : Option String :=
  line.text.map fun text => line.level.name ++ " " ++ text

end LogLine

end Colloquy

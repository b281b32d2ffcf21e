import Colloquy.Entries
import Colloquy.Log
import Colloquy.Numeral
import Colloquy.Text.Upper

namespace Colloquy

namespace Path

def splitSlashes : List Char → List (List Char)
  | [] => [[]]
  | c :: rest =>
    if c == '/' then [] :: splitSlashes rest
    else
      match splitSlashes rest with
      | [] => [[c]]
      | part :: parts => (c :: part) :: parts

/-- The slashes at the start of a path: exactly two are kept, any other number counts as one. -/
def rootOf (cs : List Char) : String :=
  match (cs.takeWhile (· == '/')).length with
  | 0 => ""
  | 2 => "//"
  | _ => "/"

def normalize (path : String) : String :=
  let parts := (splitSlashes path.toList).map String.ofList
  let kept := parts.filter fun part => part != "" && part != "."
  let text := rootOf path.toList ++ String.intercalate "/" kept
  if text.isEmpty then "." else text

end Path

/-- How a run is set up. A limit of zero is none. The level keeps the name it was given by. -/
structure Settings where
  outputPath : Option String
  limit : Nat
  noStream : Bool
  level : Level
  levelName : String

namespace Settings

inductive Error
  | negativeLimit
  | unknownLevel (name : String)
  | badLimit
  | noOutputPath
deriving DecidableEq

/-- A limit that is no number has no message. -/
def Error.message? : Error → Option String
  | negativeLimit => some "max_examples_per_context must be zero or positive"
  | unknownLevel name => some ("Unknown log level '" ++ name ++ "'")
  | badLimit => none
  | noOutputPath => some "No output path given and none configured"

def make (outputPath : Option String) (limit : Int) (noStream : Bool) (levelName : String) :
    Except Error Settings :=
  if limit < 0 then .error .negativeLimit
  else
    match Level.ofName? levelName with
    | some level => .ok ⟨outputPath, limit.toNat, noStream, level, levelName⟩
    | none => .error (.unknownLevel levelName)

def switchWords : List String :=
  ["1", "true", "yes", "on"]

def isOn (text : String) : Bool :=
  switchWords.contains (String.ofList ((Text.strip text.toList).map Char.toLower))

/-- Settings from an environment. An empty path counts as none. -/
def ofEnvironment (env : Entries String) : Except Error Settings := do
  let path := (env.get? "OUTPUT_PATH").bind fun p =>
    if p.isEmpty then none else some (Path.normalize p)
  let limit ←
    match Numeral.readInt? ((env.get? "MAX_EXAMPLES_PER_CONTEXT").getD "0") with
    | some n => .ok n
    | none => .error .badLimit
  let levelName := Text.upper ((env.get? "LOG_LEVEL").getD "INFO")
  make path limit ((env.get? "NO_STREAM").any isOn) levelName

def requirePath (s : Settings) : Except Error String :=
  match s.outputPath with
  | some path => .ok path
  | none => .error .noOutputPath

end Settings

end Colloquy

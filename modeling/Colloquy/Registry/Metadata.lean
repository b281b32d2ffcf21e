import Colloquy.Data.Reading
import Colloquy.Registry.Basic
import Colloquy.Ty.Text

namespace Colloquy

structure ArgumentSpec where
  name : String
  ty : Ty
  direction : Direction
  canonical : Option String
  annotations : Entries Data

structure FunctionSpec where
  arguments : List ArgumentSpec
  canonical : Option String
  isList : Bool
  annotations : Entries Data

structure ClassSpec where
  kind : String
  queries : Entries FunctionSpec
  actions : Entries FunctionSpec

structure Metadata where
  classes : List ClassSpec

namespace Metadata

variable {α : Type}

def requiredField (data : Data) (name : String) (decode : Data → Option α) : Option α :=
  (data.field? name).bind decode

/-- A field that may be missing. One that is present has to decode. -/
def optionalField (data : Data) (name : String) (default : α) (decode : Data → Option α) :
    Option α :=
  match data.field? name with
  | some value => decode value
  | none => some default

def decodeRecord : Data → Option (Entries Data)
  | .record fields => some fields
  | _ => none

def decodeList (decode : Data → Option α) : Data → Option (List α)
  | .list items => items.mapM decode
  | _ => none

def decodeFields (decode : Data → Option α) (data : Data) : Option (Entries α) := do
  (← decodeRecord data).mapM fun (name, value) => (decode value).map (name, ·)

def decodeOptionalText : Data → Option (Option String)
  | .null => some none
  | .text s => some (some s)
  | _ => none

def yesWords : List String :=
  ["1", "t", "true", "y", "yes", "on"]

def noWords : List String :=
  ["0", "f", "false", "n", "no", "off"]

/-- A truth value, one of the numbers one and zero, or a word for yes or no in any case. -/
def decodeFlag : Data → Option Bool
  | .flag b => some b
  | .int n => if n = 1 then some true else if n = 0 then some false else none
  | .real x => if x.isInt 1 then some true else if x.isInt 0 then some false else none
  | .text s =>
    let word := String.ofList (s.toList.map Char.toLower)
    if yesWords.contains word then some true
    else if noWords.contains word then some false
    else none
  | _ => none

def decodeTy (data : Data) : Option Ty := do
  (Ty.ofText (← data.text?)).toOption

def decodeDirection (data : Data) : Option Direction := do
  Direction.ofText? (← data.text?)

/-- A text with some character that is not blank. -/
def decodeKind (data : Data) : Option String := do
  let s ← data.text?
  if (Text.strip s.toList).isEmpty then none else some s

def decodeArgument (data : Data) : Option ArgumentSpec := do
  let name ← requiredField data "name" Data.text?
  let ty ← requiredField data "type" decodeTy
  let direction ← optionalField data "direction" .output decodeDirection
  let canonical ← optionalField data "canonical" none decodeOptionalText
  let annotations ← optionalField data "annotations" [] decodeRecord
  some ⟨name, ty, direction, canonical, annotations⟩

def decodeFunction (data : Data) : Option FunctionSpec := do
  let _ ← decodeRecord data
  let arguments ← optionalField data "args" [] (decodeList decodeArgument)
  let canonical ← optionalField data "canonical" none decodeOptionalText
  let isList ← optionalField data "is_list" true decodeFlag
  let annotations ← optionalField data "annotations" [] decodeRecord
  some ⟨arguments, canonical, isList, annotations⟩

def decodeClass (data : Data) : Option ClassSpec := do
  let kind ← requiredField data "kind" decodeKind
  let queries ← optionalField data "queries" [] (decodeFields decodeFunction)
  let actions ← optionalField data "actions" [] (decodeFields decodeFunction)
  some ⟨kind, queries, actions⟩

def ofData? (data : Data) : Option Metadata := do
  some ⟨← requiredField data "classes" (decodeList decodeClass)⟩

def spokenName (name : String) : String :=
  name.map fun c => if c == '_' then ' ' else c

/-- An empty canonical form counts as none. -/
def canonicalOr (canonical : Option String) (name : String) : String :=
  match canonical with
  | some s => if s.isEmpty then spokenName name else s
  | none => spokenName name

def ArgumentSpec.toArgument (a : ArgumentSpec) : Argument :=
  ⟨a.direction, a.name, a.ty, a.annotations, canonicalOr a.canonical a.name⟩

/-- The signature of a declared function. Actions return no lists. -/
def signatureOf (kind name : String) (isAction : Bool) (f : FunctionSpec) :
    Except Registry.Error Signature :=
  let arguments := f.arguments.map ArgumentSpec.toArgument
  if h : (arguments.map Argument.name).Nodup then
    .ok ⟨isAction, kind, name, arguments, f.isList && !isAction, f.annotations,
      canonicalOr f.canonical name, h⟩
  else
    .error (.duplicateArguments (kind ++ ":" ++ name))

/-- Adds declared functions one after another and stops at the first that is refused. -/
def register (kind : String) (isAction : Bool) (r : Registry) :
    List (String × FunctionSpec) → Except Registry.Error Registry
  | [] => .ok r
  | (name, f) :: rest => do
    let s ← signatureOf kind name isAction f
    let r ← r.add s
    register kind isAction r rest

def registerClasses (r : Registry) : List ClassSpec → Except Registry.Error Registry
  | [] => .ok r
  | c :: rest => do
    let r ← register c.kind false r c.queries
    let r ← register c.kind true r c.actions
    registerClasses r rest

def toRegistry (m : Metadata) : Except Registry.Error Registry :=
  registerClasses .empty m.classes

def loadedText (m : Metadata) (r : Registry) : String :=
  "Loaded " ++ toString r.size ++ " functions from " ++ toString m.classes.length ++
    " classes (" ++ toString r.idTypes.length ++ " id types)"

def load (data : Data) : Except Registry.Error (Metadata × Registry) :=
  match ofData? data with
  | none => .error .invalidMetadata
  | some m => (m.toRegistry).map (m, ·)

def loadText (source : Option String) : Except Registry.Error (Metadata × Registry) :=
  match source.map Data.ofJson with
  | some (.ok data) => load data
  | some (.error .longInteger) => .error .longInteger
  | _ => .error .unreadableMetadata

end Metadata

end Colloquy

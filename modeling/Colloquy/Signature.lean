import Colloquy.Data.Basic
import Colloquy.Ty.Basic

namespace Colloquy

inductive Direction
  | required
  | optional
  | output
deriving DecidableEq

namespace Direction

def text : Direction → String
  | required => "in req"
  | optional => "in opt"
  | output => "out"

def all : List Direction :=
  [required, optional, output]

def ofText? (s : String) : Option Direction :=
  all.find? (·.text == s)

end Direction

structure Argument where
  direction : Direction
  name : String
  ty : Ty
  annotations : Entries Data
  canonical : String

namespace Argument

def isInput (a : Argument) : Bool :=
  a.direction != .output

def isRequired (a : Argument) : Bool :=
  a.direction == .required

/-- Outputs may be filtered on unless the annotation says false. -/
def allowsFilter (a : Argument) : Bool :=
  match a.annotations.get? "filterable" with
  | some (.flag false) => false
  | _ => true

def isFilterable (a : Argument) : Bool :=
  !a.isInput && a.allowsFilter

end Argument

structure Signature where
  isAction : Bool
  className : String
  name : String
  arguments : List Argument
  isList : Bool
  annotations : Entries Data
  canonical : String
  nodup : (arguments.map Argument.name).Nodup

namespace Signature

def qualifiedName (s : Signature) : String :=
  s.className ++ ":" ++ s.name

def argument? (s : Signature) (name : String) : Option Argument :=
  s.arguments.find? (·.name == name)

def has (s : Signature) (name : String) : Bool :=
  (s.argument? name).isSome

def ty? (s : Signature) (name : String) : Option Ty :=
  (s.argument? name).map Argument.ty

def typed (s : Signature) (p : Argument → Bool) : List (String × Ty) :=
  (s.arguments.filter p).map fun a => (a.name, a.ty)

def outputs (s : Signature) : List (String × Ty) :=
  s.typed (!·.isInput)

def inputs (s : Signature) : List (String × Ty) :=
  s.typed (·.isInput)

def hasOutput (s : Signature) (name : String) : Bool :=
  s.arguments.any fun a => !a.isInput && a.name == name

def idTy? (s : Signature) : Option Ty :=
  s.ty? "id"

def takes (s : Signature) (ty : Ty) : Bool :=
  s.arguments.any fun a => a.isInput && a.ty == ty

def isFilterable (s : Signature) (name : String) : Bool :=
  match s.argument? name with
  | some a => a.isFilterable
  | none => false

def isSameFunction (s t : Signature) : Bool :=
  s.qualifiedName == t.qualifiedName

/-- Keeps the inputs, the identifier and the named outputs. -/
def project (s : Signature) (names : List String) : Signature :=
  { s with
    arguments := s.arguments.filter fun a => a.isInput || a.name == "id" || names.contains a.name
    nodup := s.nodup.sublist (List.filter_sublist.map _) }

end Signature

end Colloquy

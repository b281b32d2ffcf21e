import Colloquy.Signature
import Colloquy.Value.Basic

namespace Colloquy

structure Param where
  name : String
  value : Value

namespace Param

def text (p : Param) : String :=
  p.name ++ "=" ++ p.value.text

def sameBy (lenient : Bool) (p q : Param) : Bool :=
  p.name == q.name && p.value.sameBy lenient q.value

def sameAll (lenient : Bool) : List Param → List Param → Bool
  | [], [] => true
  | p :: ps, q :: qs => p.sameBy lenient q && sameAll lenient ps qs
  | _, _ => false

end Param

/-- The written form of a call, without the function it means. -/
def callText (selector channel : String) (params : List Param) : String :=
  "@" ++ selector ++ "." ++ channel ++ "(" ++ String.intercalate ", " (params.map Param.text) ++ ")"

structure Call where
  selector : String
  channel : String
  signature : Signature
  params : List Param

namespace Call

def functionName (c : Call) : String :=
  c.selector ++ ":" ++ c.channel

def text (c : Call) : String :=
  callText c.selector c.channel c.params

def ofSignature (s : Signature) (params : List Param) : Call :=
  ⟨s.className, s.name, s, params⟩

def functionPart : String :=
  "schema"

/-- A call of a function by its own name, made from named values. No value can take the name of the
part that is the function. -/
def ofEntries? (s : Signature) (entries : Entries Value) : Option Call :=
  if entries.has functionPart then none
  else some (ofSignature s (entries.map fun (name, value) => ⟨name, value⟩))

def get? (c : Call) (name : String) : Option Value :=
  (c.params.find? (·.name == name)).map Param.value

/-- Binds a parameter anew. It moves behind the others. -/
def set (c : Call) (name : String) (value : Value) : Call :=
  { c with params := c.params.filter (·.name != name) ++ [⟨name, value⟩] }

/-- Whether a parameter is a declared input and, if constant, of an accepted type. -/
def acceptsParam (s : Signature) (p : Param) : Bool :=
  match s.argument? p.name with
  | some a => a.isInput && (!p.value.isConstant || a.ty.accepts p.value.ty)
  | none => false

/-- Checks the parameters in order, where `seen` holds the names that came before. -/
def checkParams (s : Signature) (seen : List String) : List Param → Bool
  | [] => true
  | p :: rest =>
    !seen.contains p.name && acceptsParam s p && checkParams s (p.name :: seen) rest

/-- Whether no parameter is bound twice and each is accepted by the signature. -/
def isWellTyped (c : Call) : Bool :=
  checkParams c.signature [] c.params

end Call

end Colloquy

import Colloquy.Filter.Basic

namespace Colloquy

structure SlotBag where
  signature : Option Signature
  slots : Row

namespace SlotBag

def empty (signature : Option Signature) : SlotBag :=
  ⟨signature, []⟩

def functionName? (bag : SlotBag) : Option String :=
  bag.signature.map Signature.qualifiedName

def get? (bag : SlotBag) (name : String) : Option Value :=
  bag.slots.get? name

def has (bag : SlotBag) (name : String) : Bool :=
  bag.slots.has name

def set (bag : SlotBag) (name : String) (value : Value) : SlotBag :=
  { bag with slots := bag.slots.put name value }

def names (bag : SlotBag) : List String :=
  bag.slots.names

def size (bag : SlotBag) : Nat :=
  bag.slots.length

/-- Bags are equal when they are about one function and hold the same facts, in any order. -/
def same (a b : SlotBag) : Bool :=
  a.functionName? == b.functionName? && a.size == b.size &&
    a.slots.all fun (name, value) =>
      match b.get? name with
      | some other => value.same other
      | none => false

def text (bag : SlotBag) : String :=
  let slots := bag.slots.map fun (name, value) => name ++ "=" ++ value.text
  "SlotBag(" ++ bag.functionName?.getD "None" ++ ": " ++ String.intercalate ", " slots ++ ")"

/-- States that a field has a value. A field that already has another value refuses it. -/
def addEquality (bag : SlotBag) (ty : Ty) (field : String) (value : Value) : Option SlotBag :=
  if !ty.accepts value.ty then none
  else
    match bag.get? field with
    | some present => if present.same value then some (bag.set field value) else none
    | none => some (bag.set field value)

def knownItems (bag : SlotBag) (field : String) : List Value :=
  ((bag.get? field).bind Value.items?).getD []

def addElement (bag : SlotBag) (ty : Ty) (field : String) (value : Value) : Option SlotBag :=
  match ty with
  | .array elem =>
    if !elem.accepts value.ty then none
    else
      let known := bag.knownItems field
      let items := if value.isIn known then known else known ++ [value]
      some (bag.set field (.array items))
  | _ => none

/-- Adds the fact that an atom states about an output field. Other atoms state no fact. -/
def addAtom (bag : SlotBag) (a : Atom) : Option SlotBag := do
  let signature ← bag.signature
  let argument ← signature.argument? a.field
  if argument.isInput then
    none
  else
    match a.op.family with
    | .equality => bag.addEquality argument.ty a.field a.value
    | .containment => bag.addElement argument.ty a.field a.value
    | _ => none

def add (bag : SlotBag) : Filter → Option SlotBag
  | .atom a => bag.addAtom a
  | _ => none

inductive FillError
  | wrongCount (expected given : Nat)
  | notConstant (name : String)
deriving DecidableEq

def FillError.message : FillError → String
  | wrongCount expected given =>
    "Expected " ++ toString expected ++ " placeholder values, got " ++ toString given
  | notConstant name => "Placeholder '" ++ name ++ "' must be bound to a constant"

/-- Fills named placeholders one after another. A value without a name is passed over. -/
def fillAll (bag : SlotBag) : List (Option String × Value) → Except FillError SlotBag
  | [] => .ok bag
  | (none, _) :: rest => fillAll bag rest
  | (some name, value) :: rest =>
    if value.isConstant then fillAll (bag.set name value) rest else .error (.notConstant name)

def fill (bag : SlotBag) (names : List (Option String)) (values : List Value) :
    Except FillError SlotBag :=
  if names.length = values.length then bag.fillAll (names.zip values)
  else .error (.wrongCount names.length values.length)

end SlotBag

end Colloquy

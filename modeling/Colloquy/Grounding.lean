import Colloquy.Dialogue.Builder
import Colloquy.Filter.Verdict
import Colloquy.Typing

namespace Colloquy

/-- A result that the agent recommends, with what it says about it and the call it proposes. -/
structure Recommendation where
  top : Row
  info : Option SlotBag
  action : Option Call

structure ListProposal where
  rows : List Row
  info : SlotBag
  action : Option Call

namespace Row

def id? (row : Row) : Option Value :=
  row.get? "id"

end Row

namespace SlotBag

/-- Whether a fact holds of a field's value. Of an array, the fact may name some elements. -/
def factHolds (found stated : Value) : Bool :=
  match found, stated with
  | .array items, .array named => Value.allIn named items
  | _, _ => found.same stated

def describes (bag : SlotBag) (row : Row) : Bool :=
  bag.slots.all fun (name, stated) =>
    match row.get? name with
    | some found => factHolds found stated
    | none => false

/-- How many of the first results the agent may talk about. -/
def window : Nat :=
  3

def describesSome (bag : SlotBag) (rows : List Row) : Bool :=
  (rows.take window).any bag.describes

def isAbout (bag : SlotBag) (id : Value) : Bool :=
  match bag.signature.bind Signature.idTy? with
  | some ty => ty == id.ty
  | none => false

end SlotBag

namespace Signature

def allowsQuestions (s : Signature) (questions : List String) : Bool :=
  questions.all s.isFilterable

end Signature

namespace State

/-- Whether the agent can say what is in a bag: about the fields that the user asked for, or else
about those of the first result. -/
def allowsInfo (s : State) (info : SlotBag) : Bool :=
  s.currentFunction? == info.functionName? &&
    (match s.projection?, s.rows.head? with
     | some fields, _ => info.names.all fields.contains
     | none, some top => info.names.all top.has
     | none, none => false) &&
    info.describesSome s.rows

end State

/-- The first argument of a call's function that has the type of a result's identifier. -/
def chainParam (top : Row) (c : Call) : Except Breach (Value × String) :=
  match top.id? with
  | none => .error .noIdentifier
  | some id =>
    match c.signature.arguments.find? (·.ty == id.ty) with
    | some a => .ok (id, a.name)
    | none => .error (.noChainArgument c.functionName id.ty)

namespace Recommendation

/-- Recommends the first result by a call that already names it. -/
def ofCall? (s : State) (c : Call) : Option Recommendation := do
  let top ← s.rows.head?
  let id ← top.id?
  if c.params.any (·.value.same id) then some ⟨top, none, some c⟩ else none

/-- Recommends the first result by its identifier, with the call that is pending. -/
def ofName? (s : State) (name : Value) : Option Recommendation := do
  let top ← s.rows.head?
  let id ← top.id?
  if id.same name then some ⟨top, none, s.nextCall?⟩ else none

/-- Adds what is said about the recommended result, if it is true of it. -/
def withInfo? (r : Recommendation) (info : SlotBag) : Option Recommendation := do
  let id ← r.top.id?
  if info.isAbout id && info.describes r.top then some { r with info := some info } else none

def withAnswer? (r : Recommendation) (s : State) (answer : Filter) : Option Recommendation := do
  let info ← (SlotBag.empty s.currentSignature?).add answer
  if s.allowsInfo info then r.withInfo? info else none

/-- Proposes a call that can take the recommended result, unless another function is proposed. -/
def withCall? (r : Recommendation) (c : Call) : Option Recommendation := do
  let id ← r.top.id?
  let isOther := r.action.any fun a => !a.signature.isSameFunction c.signature
  if !isOther && c.signature.takes id.ty then some { r with action := some c } else none

end Recommendation

/-- Proposes results of which all that is said is true. -/
def ListProposal.make? (s : State) (rows : List Row) (info : SlotBag) : Option ListProposal := do
  let id ← (← rows.head?).id?
  if info.isAbout id && rows.all info.describes then some ⟨rows, info, s.nextCall?⟩ else none

namespace State

/-- Whether the agent may announce its results: of the current function, in the stated number, with
or without more to come. -/
def allowsAnnouncement (s : State) (function : Option String) (number : Option Value)
    (more : Bool) : Except EvalError Bool :=
  if s.currentFunction? != function then .ok false
  else
    match number, s.results? with
    | none, _ => .ok true
    | some _, none => .ok false
    | some n, some results =>
      n.plain.map fun p => p.isInt results.count && more == results.more

/-- Whether two values of a field both occur before the first row that lacks it. The flags tell which
was found so far. -/
def bothOccur (field : String) (v w : Value) (foundV foundW : Bool) : List Row → Bool
  | [] => foundV && foundW
  | row :: rest =>
    match row.get? field with
    | none => false
    | some found =>
      let foundV := foundV || found.same v
      let foundW := foundW || found.same w
      (foundV && foundW) || bothOccur field v w foundV foundW rest

/-- The field and type of a question between two values, if both occur in the results. -/
def disjunctiveQuestion? (s : State) (a b : Atom) : Option (String × Ty) := do
  if a.field != b.field then none
  else
    let ty ← (← s.currentSignature?).ty? a.field
    if ty.accepts a.value.ty && ty.accepts b.value.ty && !a.value.same b.value &&
        bothOccur a.field a.value b.value false false s.rows then
      some (a.field, ty)
    else none

/-- Why two clauses cannot be compared: one is about no field, or leaves the value of its field
open. -/
inductive ClauseError
  | noField
  | noValue
deriving DecidableEq

/-- The question between two clauses. Clauses on different fields, or on a field that the current
function lacks, make no question; any others have to be atoms. -/
def clauseQuestion (s : State) (f g : Filter) : Except ClauseError (Option (String × Ty)) :=
  match f, g, f.slotField?, g.slotField? with
  | .atom a, .atom b, _, _ => .ok (s.disjunctiveQuestion? a b)
  | _, _, some m, some n =>
    match if m != n then none else s.currentSignature?.bind (·.ty? m), f with
    | none, _ => .ok none
    | some ty, .atom a => if ty.accepts a.value.ty then .error .noValue else .ok none
    | some _, _ => .error .noValue
  | _, _, _, _ => .error .noField

def allowsQuestions (s : State) (questions : List (String × Option Ty)) : Bool :=
  match s.currentSignature? with
  | none => false
  | some signature =>
    questions.all fun (name, ty) =>
      match signature.ty? name with
      | none => false
      | some found => ty.all (found == ·)

end State

def Table.answersQuestions (t : Table) (questions : List String) : Bool :=
  questions.isEmpty || t.filterNodes.any fun (_, f) => f.fields.any questions.contains

end Colloquy

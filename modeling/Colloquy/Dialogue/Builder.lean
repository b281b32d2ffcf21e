import Colloquy.Dialogue.Context
import Colloquy.Ty.Text

namespace Colloquy

/-- How a template breaks what rules and builders expect of it. -/
inductive Breach
  | unknownAct (label : String)
  | wrongPayload (label : String) (payload : Payload)
  | addedAsExecuted
  | noIdentifier
  | noChainArgument (function : String) (ty : Ty)
  | notAFilteredCall (fragment : Table)
  | unexpectedAnswer (answer : Filter)
  | notASingleQuestion
  | actionOnQuestion
  | notACall (action : Action)

namespace Breach

/-- The message, unless it would show a query that has no written form. -/
def message? : Breach → Option String
  | unknownAct label => some ("Unknown dialogue act '" ++ label ++ "'")
  | wrongPayload label payload =>
    some ("Dialogue act '" ++ label ++ "' does not take a " ++ payload.text ++ " payload")
  | addedAsExecuted => some "New history items cannot be added as executed"
  | noIdentifier => some "Cannot chain a result that has no identifier"
  | noChainArgument function ty => some (function ++ " takes no argument of type " ++ ty.text)
  | notAFilteredCall fragment => do
    some ("Expected a filtered invocation, got " ++ (← fragment.text?))
  | unexpectedAnswer answer => some ("Unexpected imprecise answer " ++ answer.text)
  | notASingleQuestion => some "A bare value can only answer a single question"
  | actionOnQuestion => some "A learn-more question cannot propose an action"
  | notACall action => some ("Cannot split a statement acting with " ++ action.text)

end Breach

namespace Act

def checkPayload (act : Act) (payload : Payload) : Except Breach Unit :=
  match act.payloads? with
  | none => .error (.unknownAct act.label)
  | some payloads =>
    if payloads.contains payload then .ok () else .error (.wrongPayload act.label payload)

end Act

namespace State

def unproposed (items : List Item) : List Item :=
  items.takeWhile (!·.isProposed)

def makeSimple (s : State) (act : Act) (questions : List String) : Except Breach State := do
  act.checkPayload (if questions.isEmpty then .none else .questions)
  .ok ⟨transaction, act, if questions.isEmpty then none else some questions,
    unproposed s.history⟩

def pendingAfter (s : State) (replaceNext : Bool) : List Item :=
  if replaceNext then s.pending.drop 1 else s.pending

/-- The history with new items of a status. Proposals stand at the end, after all that precedes the
first proposal; accepted items stand right after the executed ones. -/
def addedHistory (s : State) (status : Status) (items : List Item) (replaceNext : Bool) :
    List Item :=
  if status == .proposed then
    let kept := unproposed s.pending
    s.executed ++ (if replaceNext then kept.drop 1 else kept) ++ items
  else
    s.executed ++ items ++ (s.pendingAfter replaceNext).filter (!·.isProposed)

def addItems (s : State) (act : Act) (status : Status) (items : List Item) (payload : Payload)
    (replaceNext : Bool) : Except Breach State := do
  act.checkPayload payload
  if status == .executed then
    .error .addedAsExecuted
  else
    let items := items.map fun i => { i with status := status, results := none }
    .ok ⟨transaction, act, none, s.addedHistory status items replaceNext⟩

def addQuery (s : State) (act : Act) (t : Table) (status : Status) : Except Breach State :=
  s.addItems act status [.pending (.ofTable t) status] .query false

def addCall (s : State) (act : Act) (c : Call) (status : Status) : Except Breach State :=
  s.addItems act status [.pending (.ofCalls [c]) status] .action false

def bindFirstCall (name : String) (value : Value) : List Action → List Action
  | [] => []
  | .call c :: rest => .call (c.set name value) :: rest
  | .notify :: rest => .notify :: bindFirstCall name value rest

def bindParam (i : Item) (name : String) (value : Value) : Item :=
  { i with statement :=
      { i.statement with actions := bindFirstCall name value i.statement.actions } }

def mergeable? (s : State) (c : Call) : Option Item :=
  match s.nextCall? with
  | some n => if n.signature.isSameFunction c.signature then s.next? else none
  | none => none

/-- Adds a call with a parameter bound. A pending call of the same function takes the parameter
instead. -/
def addCallParam (s : State) (act : Act) (c : Call) (name : String) (value : Value)
    (status : Status) : Except Breach State :=
  match s.mergeable? c with
  | some next => s.addItems act status [bindParam next name value] .action true
  | none => s.addItems act status [.pending (.ofCalls [c.set name value]) status] .action false

def executeFirst (rows : List Row) (count : Option Nat) (more : Bool) :
    List Item → Option (List Item)
  | [] => none
  | i :: rest =>
    if i.isExecuted then (executeFirst rows count more rest).map (i :: ·)
    else some (.executed i.statement rows count more :: rest)

def execute? (s : State) (rows : List Row) (count : Option Nat) (more : Bool) : Option State :=
  (executeFirst rows count more s.history).map fun history => { s with history := history }

end State

end Colloquy

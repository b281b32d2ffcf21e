import Colloquy.Dialogue.Context
import Colloquy.Typing

namespace Colloquy

/-- What is wrong with a state. Items are counted from zero. -/
inductive Problem
  | policy (name : String)
  | act (label : String)
  | executedLate (index : Nat)
  | noResults (index : Nat)
  | earlyResults (index : Nat)
  | emptyStatement (index : Nat)
  | illTypedQuery (index : Nat) (table : Table)
  | illTypedCall (index : Nat) (call : Call)
  | unboundVariable (index : Nat) (name function : String)

namespace Problem

def message : Problem → String
  | policy name => "Unexpected policy '" ++ name ++ "'."
  | act label => "Unknown dialogue act '" ++ label ++ "'."
  | executedLate i => "Item " ++ toString i ++ " was executed after a pending item."
  | noResults i => "Item " ++ toString i ++ " is executed but carries no results."
  | earlyResults i => "Item " ++ toString i ++ " carries results but was not executed."
  | emptyStatement i => "Item " ++ toString i ++ " has neither a query nor an action."
  | illTypedQuery i _ => "Item " ++ toString i ++ " has an ill-typed query."
  | illTypedCall i _ => "Item " ++ toString i ++ " has an ill-typed action."
  | unboundVariable i name function =>
    "Item " ++ toString i ++ " passes unbound variable '" ++ name ++ "' to " ++ function ++ "."

def detail? : Problem → Option (String × Option String)
  | illTypedQuery _ t => some ("query", t.text?)
  | illTypedCall _ c => some ("action", some c.text)
  | _ => none

end Problem

namespace Statement

/-- The first parameter that refers to no output of the statement's query. -/
def unboundVariable? (s : Statement) (c : Call) : Option String :=
  c.params.findSome? fun p =>
    match p.value with
    | .varRef name => if s.provides name then none else some name
    | _ => none

def checkCalls (s : Statement) (index : Nat) : List Call → Except Problem Unit
  | [] => .ok ()
  | c :: rest =>
    if !c.isWellTyped then .error (.illTypedCall index c)
    else
      match s.unboundVariable? c with
      | some name => .error (.unboundVariable index name c.functionName)
      | none => checkCalls s index rest

def check (s : Statement) (index : Nat) : Except Problem Unit :=
  match s.table with
  | none => if s.hasCall then s.checkCalls index s.calls else .error (.emptyStatement index)
  | some t => if t.isValid then s.checkCalls index s.calls else .error (.illTypedQuery index t)

end Statement

namespace State

/-- Checks the items from an index on. The flag tells whether a pending item came before. -/
def checkItems (index : Nat) (seenPending : Bool) : List Item → Except Problem Unit
  | [] => .ok ()
  | i :: rest =>
    if i.isExecuted && seenPending then .error (.executedLate index)
    else if i.isExecuted && i.results.isNone then .error (.noResults index)
    else if !i.isExecuted && i.results.isSome then .error (.earlyResults index)
    else
      match i.statement.check index with
      | .error p => .error p
      | .ok () => checkItems (index + 1) (seenPending || !i.isExecuted) rest

def check (s : State) : Except Problem Unit :=
  if s.policy != transaction then .error (.policy s.policy)
  else if !s.act.isKnown then .error (.act s.act.label)
  else checkItems 0 false s.history

def isValid (s : State) : Bool :=
  s.check.isOk

def validText : String :=
  "Dialogue state is valid."

end State

end Colloquy

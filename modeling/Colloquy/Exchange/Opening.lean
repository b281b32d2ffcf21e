import Colloquy.Exchange.Stop
import Colloquy.Registry.Basic

namespace Colloquy

namespace Value

/-- How the names of variables for constants start. They are not bound by a query. -/
def constantMark : String :=
  "__const_"

/-- Whether a value refers to an output of the query that a call belongs to. -/
def isThreaded : Value → Bool
  | varRef name => !constantMark.toList.isPrefixOf name.toList
  | _ => false

end Value

namespace Call

def deferThreaded (c : Call) : Call :=
  c.params.foldl
    (fun call p => if p.value.isThreaded then call.set p.name (.undefined true) else call) c

def idQueries (r : Registry) (c : Call) : List Signature :=
  c.params.filterMap fun p =>
    if p.value.isUndefined then (c.signature.ty? p.name).bind r.idQueryOf? else none

end Call

namespace Statement

def onlyCalls : List Action → Except Breach (List Call)
  | [] => .ok []
  | .call c :: rest => (onlyCalls rest).map (c :: ·)
  | .notify :: _ => .error (.notACall .notify)

/-- The turn for the query of a command, which is left out for a bare call of it. -/
def queryTurn : Table → List Statement
  | .invoke _ => []
  | t => [ofTable t]

def split (s : Statement) (t : Table) : Except Stop (List Statement) := do
  Stop.require t.isValid
  let calls ← Stop.ofBreach (onlyCalls s.actions)
  .ok (queryTurn t ++ [ofCalls (calls.map Call.deferThreaded)])

def entityQueries (s : Statement) (registry : Option Registry) : List Statement :=
  match s.table, registry with
  | none, some r =>
    (s.calls.flatMap (·.idQueries r)).map fun q => ofTable (.invoke (Call.ofSignature q []))
  | _, _ => []

def turns (s : Statement) (registry : Option Registry) : Except Stop (List Statement) :=
  match s.table with
  | some t =>
    if s.hasCall then s.split t
    else do
      Stop.require t.isValid
      .ok [s]
  | none => .ok (s.entityQueries registry ++ [s])

end Statement

namespace State

/-- The first state of a conversation. Commands on streams can be left out. -/
def opening (s : Statement) (registry : Option Registry) (noStream : Bool) :
    Except Stop State :=
  if s.stream.isSome && noStream then .error (.rejected (some (.streamSkipped s)))
  else do
    let statements ← s.turns registry
    .ok ⟨transaction, .execute, none, statements.map (.pending · .accepted)⟩

end State

end Colloquy

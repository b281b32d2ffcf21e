import Colloquy.Dialogue.State

namespace Colloquy.State

def executed (s : State) : List Item :=
  s.history.takeWhile Item.isExecuted

def pending (s : State) : List Item :=
  s.history.dropWhile Item.isExecuted

def current? (s : State) : Option Item :=
  s.executed.getLast?

def next? (s : State) : Option Item :=
  s.pending.head?

def currentIndex? (s : State) : Option Nat :=
  if s.executed.isEmpty then none else some (s.executed.length - 1)

def nextIndex? (s : State) : Option Nat :=
  if s.pending.isEmpty then none else some s.executed.length

def results? (s : State) : Option Results :=
  s.current?.bind Item.results

def rows (s : State) : List Row :=
  (s.results?.map Results.rows).getD []

def currentTable? (s : State) : Option Table :=
  s.current?.bind (·.statement.table)

/-- The fields that the user asked about in the current turn. -/
def projection? (s : State) : Option (List String) :=
  s.currentTable?.bind Table.projection?

def isAsking (s : State) : Bool :=
  s.projection?.isSome

/-- The last function of the current query, or that of the current call. -/
def currentFunction? (s : State) : Option String :=
  match s.currentTable? with
  | some t => t.functionNames.getLast?
  | none => (s.current?.bind Item.call?).map Call.functionName

def currentSignature? (s : State) : Option Signature :=
  match s.currentTable? with
  | some t => some t.signature
  | none => (s.current?.bind Item.call?).map Call.signature

def isBareCall (i : Item) : Bool :=
  i.statement.table.isNone && i.statement.hasCall

def nextIsCall (s : State) : Bool :=
  s.next?.any isBareCall

def nextCall? (s : State) : Option Call :=
  if s.nextIsCall then s.next?.bind Item.call? else none

end Colloquy.State

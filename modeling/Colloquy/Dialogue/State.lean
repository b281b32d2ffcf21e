import Colloquy.Dialogue.Act
import Colloquy.Table.Basic

namespace Colloquy

inductive Action
  | notify
  | call (c : Call)

namespace Action

def text : Action → String
  | notify => "notify"
  | call c => c.text

def call? : Action → Option Call
  | notify => none
  | call c => some c

def isCall : Action → Bool
  | notify => false
  | call _ => true

end Action

/-- A query with what is done on its results, once or whenever a stream brings new ones. -/
structure Statement where
  table : Option Table
  actions : List Action
  stream : Option Table

namespace Statement

def ofTable (t : Table) : Statement :=
  ⟨some t, [.notify], none⟩

def ofCalls (calls : List Call) : Statement :=
  ⟨none, calls.map .call, none⟩

def hasCall (s : Statement) : Bool :=
  s.actions.any Action.isCall

def calls (s : Statement) : List Call :=
  s.actions.filterMap Action.call?

def provides (s : Statement) (name : String) : Bool :=
  match s.table with
  | some t => t.signature.hasOutput name
  | none => false

def text? (s : Statement) : Option String := do
  let actions := String.intercalate ", " (s.actions.map Action.text) ++ ";"
  match s.stream, s.table with
  | some t, _ => some ("monitor(" ++ (← t.text?) ++ ") => " ++ actions)
  | none, some t => some ((← t.text?) ++ " => " ++ actions)
  | none, none => some actions

end Statement

inductive Status
  | proposed
  | accepted
  | executed
deriving DecidableEq

namespace Status

def text : Status → String
  | proposed => "proposed"
  | accepted => "accepted"
  | executed => "executed"

def ofText? (s : String) : Option Status :=
  [proposed, accepted, executed].find? (·.text == s)

end Status

/-- What came of a statement. There are at least as many results as rows are shown. -/
structure Results where
  rows : List Row
  count : Nat
  more : Bool
  error : Option String
  rows_le_count : rows.length ≤ count

namespace Results

def ofRows (rows : List Row) (count : Nat) (more : Bool) (error : Option String) : Results :=
  ⟨rows, max count rows.length, more, error, Nat.le_max_right _ _⟩

end Results

structure Item where
  statement : Statement
  results : Option Results
  status : Status
  confirmed : Bool

namespace Item

def pending (s : Statement) (status : Status) : Item :=
  ⟨s, none, status, false⟩

def executed (s : Statement) (rows : List Row) (count : Option Nat) (more : Bool) : Item :=
  ⟨s, some (.ofRows rows (count.getD rows.length) more none), .executed, true⟩

def isExecuted (i : Item) : Bool :=
  i.status == .executed

def isProposed (i : Item) : Bool :=
  i.status == .proposed

def call? (i : Item) : Option Call :=
  i.statement.calls.head?

def mark (i : Item) : String :=
  if i.isExecuted then
    "results=" ++ toString ((i.results.map Results.count).getD 0)
  else
    "confirm=" ++ if i.confirmed then "confirmed" else i.status.text

def text? (i : Item) : Option String := do
  some ((← i.statement.text?) ++ " #[" ++ i.mark ++ "]")

end Item

structure State where
  policy : String
  act : Act
  params : Option (List String)
  history : List Item

namespace State

def transaction : String :=
  "org.thingpedia.dialogue.transaction"

def headText (s : State) : String :=
  let params := s.params.getD []
  let suffix := if params.isEmpty then "" else "(" ++ String.intercalate ", " params ++ ")"
  "$dialogue @" ++ s.policy ++ "." ++ s.act.label ++ suffix ++ ";"

def text? (s : State) : Option String := do
  some (String.intercalate "\n" (s.headText :: (← s.history.mapM Item.text?)))

end State

end Colloquy

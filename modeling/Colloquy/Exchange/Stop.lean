import Colloquy.Dialogue.Builder
import Colloquy.Dialogue.Validity
import Colloquy.Log
import Colloquy.Table.Attachment

namespace Colloquy

inductive Note
  | noPlace (query : Table)
  | notAgentAct (label : String)
  | notUserAct (label : String)
  | invalidState (isAgent : Bool) (function : Option String) (problem : Problem)
  | streamSkipped (command : Statement)

namespace Note

def text? : Note → Option String
  | noPlace t => do some ("Query has no place for a filter: " ++ (← t.text?))
  | notAgentAct label => some ("Rejected pair: '" ++ label ++ "' is not a system act")
  | notUserAct label => some ("Rejected pair: '" ++ label ++ "' is not a user act")
  | invalidState isAgent function problem =>
    some ("Rejected " ++ (if isAgent then "system" else "user") ++ " state after " ++
      function.getD "None" ++ ": " ++ problem.message)
  | streamSkipped s => do some ("Skipping stream command: " ++ (← s.text?))

def toLogLine (n : Note) : LogLine :=
  .debug n.text?

end Note

/-- What keeps a rule from giving an answer at all. -/
inductive Fault
  | breach (b : Breach)
  | unsupported (u : Table.Unsupported)
  | noQuery
  | unknownRule (name : String)

namespace Fault

/-- A missing query has no message. -/
def message? : Fault → Option String
  | breach b => b.message?
  | unsupported u => some u.message
  | noQuery => none
  | unknownRule name => some ("Unknown transition rule '" ++ name ++ "'")

end Fault

theorem bind_eq_ok_iff {ε α β : Type} {x : Except ε α} {f : α → Except ε β} {b : β} :
    (x >>= f) = .ok b ↔ ∃ a, x = .ok a ∧ f a = .ok b := by
  cases x with
  | error e => simp [bind, Except.bind]
  | ok a => simp [bind, Except.bind]

theorem map_eq_ok_iff {ε α β : Type} {x : Except ε α} {f : α → β} {b : β} :
    x.map f = .ok b ↔ ∃ a, x = .ok a ∧ f a = b := by
  cases x <;> simp [Except.map]

inductive Stop
  | rejected (note : Option Note)
  | fault (f : Fault)

namespace Stop

variable {α : Type} {a : α}

def reject : Except Stop α :=
  .error (.rejected none)

def require (condition : Bool) : Except Stop Unit :=
  if condition then .ok () else reject

theorem require_eq_ok_iff {condition : Bool} {u : Unit} :
    require condition = .ok u ↔ condition = true := by
  cases condition <;> simp [require, reject]

def ofOption : Option α → Except Stop α
  | some a => .ok a
  | none => reject

theorem ofOption_eq_ok_iff {o : Option α} : ofOption o = .ok a ↔ o = some a := by
  cases o <;> simp [ofOption, reject]

def ofBreach : Except Breach α → Except Stop α
  | .ok a => .ok a
  | .error b => .error (.fault (.breach b))

theorem ofBreach_eq_ok_iff {x : Except Breach α} : ofBreach x = .ok a ↔ x = .ok a := by
  cases x <;> simp [ofBreach]

def ofUnsupported : Except Table.Unsupported α → Except Stop α
  | .ok a => .ok a
  | .error u => .error (.fault (.unsupported u))

theorem ofUnsupported_eq_ok_iff {x : Except Table.Unsupported α} :
    ofUnsupported x = .ok a ↔ x = .ok a := by
  cases x <;> simp [ofUnsupported]

/-- The outcome of a rule, with the lines that it leaves in the log. A rejection is no fault. -/
def outcome : Except Stop α → List LogLine × Except Fault (Option α)
  | .ok a => ([], .ok (some a))
  | .error (.rejected note) => (note.toList.map Note.toLogLine, .ok none)
  | .error (.fault f) => ([], .error f)

end Stop

end Colloquy

import Colloquy.Exchange.Rule

namespace Colloquy

inductive PhraseError
  | noPreamble
  | notFiltered
deriving DecidableEq

/-- What the user says to a question: a predicate, a bare value, or neither. -/
inductive Reply
  | filter (f : Filter)
  | value (v : Value)
  | nothing

namespace Reply

/-- The clause of a predicate, without a negation around it. -/
def clauseOf : Filter → Filter
  | .not f => f
  | f => f

/-- The filter of a loose answer to some questions. A text answers by likeness, any other value by
equality. -/
def answer (questions : List String) : Reply → Except Stop Filter
  | filter f =>
    match (clauseOf f).slotField? with
    | none => .error (.fault (.breach (.unexpectedAnswer f)))
    | some field => if questions.contains field then .ok f else Stop.reject
  | value v =>
    match questions with
    | [question] =>
      let op := if v.ty.isString then Operator.like else Operator.equal
      .ok (.atom ⟨question, op, v⟩)
    | _ => .error (.fault (.breach .notASingleQuestion))
  | nothing => .error (.fault (.breach .notASingleQuestion))

end Reply

def State.checkProposal (s : State) (proposal : Table) : Except Stop Unit := do
  let (t, f) ← s.matchFragment proposal
  let a ← Stop.ofOption (← Stop.ofUnsupported t.attachment)
  Stop.require (a.filter.answer f).isSome

namespace Table

def filtered : Table → Except PhraseError (Table × Filter)
  | filter t f => .ok (t, f)
  | _ => .error .notFiltered

/-- Joins "not this" and "that" into one request, if the request changes what is rejected. -/
def mergePreamble (preamble request : Table) : Except PhraseError (Option Table) :=
  if !preamble.signature.isSameFunction request.signature then .ok none
  else do
    let (_, rejected) ← preamble.filtered
    let (t, wanted) ← request.filtered
    if (rejected.change wanted).isNone then .ok none
    else .ok (some (filter t (.and [.not rejected, wanted])))

def mergeLast (phrases : List Table) (request : Table) : Except PhraseError (Option (List Table)) :=
  match phrases.getLast? with
  | none => .error .noPreamble
  | some preamble =>
    (preamble.mergePreamble request).map fun merged => merged.map (phrases.dropLast ++ [·])

def isPreambleFor (preamble : Table) (info : SlotBag) :
    Except PhraseError (Except EvalError Bool) :=
  preamble.filtered.map fun (_, f) => f.holdsForBag info

end Table

/-- Adds that a field may have any value, if it can be filtered on and is not mentioned yet. -/
def Statement.addDontCare (s : Statement) (field : String) : Except Stop Statement := do
  let t ← Stop.ofOption s.table
  Stop.require (t.signature.isFilterable field)
  let a ← Stop.ofOption (← Stop.ofUnsupported t.attachment)
  Stop.require (!a.filter.mentions field)
  .ok { s with table := some (a.withFilter (a.filter.conjoin (.dontCare field))) }

end Colloquy

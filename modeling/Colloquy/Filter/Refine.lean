import Colloquy.Filter.Simplify

namespace Colloquy.Filter

/-- The clause at the top for each field. Of several clauses on a field, the last counts. -/
def slots (f : Filter) : Entries Filter :=
  Entries.ofList (f.simplify.clauses.filterMap fun c => c.slotField?.map (·, c))

def negatedField? : Filter → Option String
  | not f => f.slotField?
  | _ => none

def negatedSlots (f : Filter) : Entries Filter :=
  Entries.ofList (f.simplify.clauses.filterMap fun c => c.negatedField?.map (·, c))

mutual

/-- Replaces each atom that pins the identifier by what is always true. -/
def neutralize : Filter → Filter
  | not f => not (neutralize f)
  | or fs => or (neutralizeAll fs)
  | and fs => and (neutralizeAll fs)
  | atom a => if a.isIdentity then always else atom a
  | f => f

def neutralizeAll : List Filter → List Filter
  | [] => []
  | f :: rest => neutralize f :: neutralizeAll rest

end

def conjoin (old new : Filter) : Filter :=
  (and [old, new]).simplify

/-- Adds constraints on fields that were not mentioned before. The identifier is let go, so that a
choice can be followed by a further search. -/
def answer (old new : Filter) : Option Filter :=
  if old.fields.any new.mentions then none else some (conjoin old.neutralize new)

/-- Whether a clause has nothing to do with other queries and with the fields of `new`. -/
def isUntouchedBy (new clause : Filter) : Bool :=
  !clause.hasExternal && !clause.fields.any new.mentions

/-- Replaces constraints. Every field of the new filter has to be constrained before, and none may
keep its clause. Predicates over other queries are dropped. -/
def change (old new : Filter) : Option Filter :=
  let old := old.simplify
  let new := new.simplify
  let restated := old.slots.any fun (field, clause) =>
    match new.slots.get? field with
    | some c => c.restates clause
    | none => false
  let unconstrained := new.slots.any fun (field, _) => !old.slots.has field
  if restated || unconstrained then none
  else some (and (old.clauses.filter (isUntouchedBy new) ++ [new])).simplify

/-- Whether a new filter may not follow a clause on the same field: it negates the field, the field
was of no interest before, or the clause stays the same. -/
def conflicts (new : Filter) (field : String) (clause : Filter) : Bool :=
  new.negatedSlots.has field ||
    match new.slots.get? field, clause with
    | none, _ => false
    | some _, dontCare _ => true
    | some c, _ => c.restates clause

def isReplacedBy (new clause : Filter) : Bool :=
  match clause.slotField? with
  | some field => new.slots.has field
  | none => false

/-- Adds constraints, and changes at most one that was there before. -/
def answerOrChange (old new : Filter) : Option Filter :=
  let old := old.simplify
  let new := new.simplify
  let refused := old.slots.any fun (field, clause) => conflicts new field clause
  let changed := old.slots.filter fun (field, _) => new.slots.has field
  if refused || 1 < changed.length then none
  else
    let kept := old.clauses.filter fun c => !isReplacedBy new c
    some (and (kept.map neutralize ++ [new])).simplify

inductive Strategy
  | answer
  | change
  | answerOrChange
  | conjoin
deriving DecidableEq

def Strategy.combine : Strategy → Filter → Filter → Option Filter
  | .answer => Filter.answer
  | .change => Filter.change
  | .answerOrChange => Filter.answerOrChange
  | .conjoin => fun old new => some (Filter.conjoin old new)

end Colloquy.Filter

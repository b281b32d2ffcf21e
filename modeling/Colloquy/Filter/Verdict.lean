import Colloquy.SlotBag
import Colloquy.Value.Plain

namespace Colloquy.Filter

section Verdict

variable {ε : Type} (test : Atom → Except ε Bool)

mutual

/-- The verdict of a filter, where `test` gives the verdicts of its atoms. Operands are looked at from the
left, only as far as needed, and what is not evaluated here counts as fulfilled. -/
def verdict : Filter → Except ε Bool
  | always => .ok true
  | never => .ok false
  | dontCare _ => .ok true
  | atom a => test a
  | not f => (verdict f).map (!·)
  | and fs => verdictAll fs
  | or fs => verdictAny fs
  | external _ _ _ _ => .ok true
  | compute _ _ _ => .ok true

def verdictAll : List Filter → Except ε Bool
  | [] => .ok true
  | f :: rest =>
    match verdict f with
    | .ok true => verdictAll rest
    | other => other

def verdictAny : List Filter → Except ε Bool
  | [] => .ok false
  | f :: rest =>
    match verdict f with
    | .ok false => verdictAny rest
    | other => other

end

end Verdict

def comparePlain (compare : Plain → Plain → Except EvalError Bool) (v w : Value) :
    Except EvalError Bool := do
  let p ← v.plain
  let q ← w.plain
  compare p q

/-- A row fulfils an atom if it has the field and does not show another value for it. -/
def testRow (row : Row) (a : Atom) : Except EvalError Bool :=
  match row.get? a.field with
  | none => .ok false
  | some found =>
    match a.op.family with
    | .equality => comparePlain (fun p q => .ok (p.same q)) found a.value
    | _ => .ok true

/-- A bag fulfils an atom if it has the field and the comparison holds of its value. -/
def testBag (bag : SlotBag) (a : Atom) : Except EvalError Bool :=
  match bag.get? a.field with
  | none => .ok false
  | some found =>
    match a.op.family with
    | .equality => .ok (a.value.same found)
    | .containment => .ok (a.value.isIn (found.items?.getD []))
    | .membership => .ok (found.isIn (a.value.items?.getD []))
    | .atLeast => comparePlain (fun p q => q.le p) found a.value
    | .atMost => comparePlain Plain.le found a.value
    | .unknown => .ok true

/-- Whether a row could have been returned for the filter. -/
def holdsForRow (row : Row) (f : Filter) : Except EvalError Bool :=
  f.verdict (testRow row)

/-- Whether the facts of a bag are in line with the filter. -/
def holdsForBag (bag : SlotBag) (f : Filter) : Except EvalError Bool :=
  f.verdict (testBag bag)

end Colloquy.Filter

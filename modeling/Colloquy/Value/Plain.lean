import Colloquy.Value.Basic

namespace Colloquy

inductive EvalError
  | unbound (name : String)
  | undefinedValue
  | unordered
deriving DecidableEq

/-- Operands without a common order have no message of their own. -/
def EvalError.message? : EvalError → Option String
  | unbound name => some ("Variable reference '" ++ name ++ "' has no constant value")
  | undefinedValue => some "Undefined value has no constant value"
  | unordered => none

/-- What constants denote, once units, codes and kinds are left aside. -/
inductive Plain
  | text (s : String)
  | number (x : Double)
  | flag (b : Bool)
  | day (d : Date)
  | point (x y : Double)
  | list (items : List Plain)

namespace Plain

/-- Truth values count as the numbers one and zero. -/
def amount? : Plain → Option Double
  | number x => some x
  | flag b => some (Double.ofInt (if b then 1 else 0))
  | _ => none

mutual

def same : Plain → Plain → Bool
  | text a, text b => a == b
  | day a, day b => a == b
  | point a b, point c d => a.same c && b.same d
  | list as, list bs => sameItems as bs
  | number a, number b => a.same b
  | number a, flag b => a.same (Double.ofInt (if b then 1 else 0))
  | flag a, number b => (Double.ofInt (if a then 1 else 0)).same b
  | flag a, flag b => a == b
  | _, _ => false

def sameItems : List Plain → List Plain → Bool
  | [], [] => true
  | a :: as, b :: bs => same a b && sameItems as bs
  | _, _ => false

end

def pointLe (a b c d : Double) : Bool :=
  if a.same c then (if b.same d then true else b.le d) else a.le c

mutual

/-- Whether the first is at most the second. Lists are compared at the first place where they
differ, and there only. -/
def le : Plain → Plain → Except EvalError Bool
  | text a, text b => .ok (decide (a ≤ b))
  | day a, day b => .ok (a.le b)
  | point a b, point c d => .ok (pointLe a b c d)
  | list as, list bs => leItems as bs
  | number a, number b => .ok (a.le b)
  | number a, flag b => .ok (a.le (Double.ofInt (if b then 1 else 0)))
  | flag a, number b => .ok ((Double.ofInt (if a then 1 else 0)).le b)
  | flag a, flag b => .ok (!a || b)
  | _, _ => .error .unordered

def leItems : List Plain → List Plain → Except EvalError Bool
  | [], _ => .ok true
  | _ :: _, [] => .ok false
  | a :: as, b :: bs => if same a b then leItems as bs else le a b

end

def isInt (n : Int) : Plain → Bool
  | number x => x.isInt n
  | flag b => (if b then 1 else 0) == n
  | _ => false

end Plain

namespace Value

mutual

/-- What a value denotes. In an array, the first element without a denotation gives the error. -/
def plain : Value → Except EvalError Plain
  | string s => .ok (.text s)
  | number x => .ok (.number x)
  | boolean b => .ok (.flag b)
  | enum entry => .ok (.text entry)
  | entity id _ _ => .ok (.text id)
  | currency x _ => .ok (.number x)
  | measure x _ => .ok (.number x)
  | date d => .ok (.day d)
  | location x y _ => .ok (.point x y)
  | array items => (plains items).map .list
  | varRef name => .error (.unbound name)
  | undefined _ => .error .undefinedValue

def plains : List Value → Except EvalError (List Plain)
  | [] => .ok []
  | item :: rest =>
    match plain item with
    | .error e => .error e
    | .ok p => (plains rest).map (p :: ·)

end

end Value

end Colloquy

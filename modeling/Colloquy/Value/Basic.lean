import Colloquy.Data.Writing
import Colloquy.Date
import Colloquy.Ty.Basic

namespace Colloquy

/-- Constants, references to an output of the preceding query, and parameters that are still to be
asked for. Labels and currency codes are kept as they stand in documents, which leave them free. -/
inductive Value
  | string (text : String)
  | number (amount : Double)
  | boolean (flag : Bool)
  | enum (entry : String)
  | entity (id kind : String) (label : Data)
  | currency (amount : Double) (code : Data)
  | measure (amount : Double) (unit : String)
  | date (day : Date)
  | location (latitude longitude : Double) (label : Data)
  | array (items : List Value)
  | varRef (name : String)
  | undefined (isLocal : Bool)

namespace Value

def defaultCode : Data :=
  .text "usd"

/-- Whether the value itself is neither a reference nor undefined. Elements are not looked at. -/
def isConstant : Value → Bool
  | varRef _ => false
  | undefined _ => false
  | _ => true

def isUndefined : Value → Bool
  | undefined _ => true
  | _ => false

def items? : Value → Option (List Value)
  | array items => some items
  | _ => none

/-- An array has the type of its first element, and an enumeration constant its own entry. -/
def ty : Value → Ty
  | string _ => .string
  | number _ => .number
  | boolean _ => .boolean
  | enum entry => .enum [entry]
  | entity _ kind _ => .entity kind
  | currency _ _ => .currency
  | measure _ unit => .measure unit
  | date _ => .date
  | location _ _ _ => .location
  | array [] => .array .any
  | array (item :: _) => .array item.ty
  | varRef _ => .any
  | undefined _ => .any

mutual

/-- Equality of values. Labels do not take part in it. Where `lenient`, a number that is none is equal
to itself. -/
def sameBy (lenient : Bool) : Value → Value → Bool
  | string a, string b => a == b
  | number a, number b => a.sameBy lenient b
  | boolean a, boolean b => a == b
  | enum a, enum b => a == b
  | entity a k _, entity b l _ => a == b && k == l
  | currency a c, currency b d => a.sameBy lenient b && c.sameBy lenient d
  | measure a u, measure b v => a.sameBy lenient b && u == v
  | date a, date b => a == b
  | location a b _, location c d _ => a.sameBy lenient c && b.sameBy lenient d
  | array as, array bs => sameItems lenient as bs
  | varRef a, varRef b => a == b
  | undefined a, undefined b => a == b
  | _, _ => false

def sameItems (lenient : Bool) : List Value → List Value → Bool
  | [], [] => true
  | a :: as, b :: bs => sameBy lenient a b && sameItems lenient as bs
  | _, _ => false

end

/-- A value that holds a NaN is not equal to itself, also where a value is held against the very one
that it was taken from. -/
def same : Value → Value → Bool :=
  sameBy false

def isIn (v : Value) (values : List Value) : Bool :=
  values.any v.same

def allIn (values others : List Value) : Bool :=
  values.all (·.isIn others)

mutual

def text : Value → String
  | string s => Text.quoteAscii s
  | number x => x.sixDigits
  | boolean b => if b then "true" else "false"
  | enum entry => "enum " ++ entry
  | entity id kind label =>
    let suffix := if label.isTruthy then "(" ++ label.toJson Text.quoteAscii ++ ")" else ""
    Text.quoteAscii id ++ "^^" ++ kind ++ suffix
  | currency x code => x.sixDigits ++ "$" ++ code.asText
  | measure x unit => x.sixDigits ++ unit
  | date d => "new Date(" ++ Text.quoteAscii d.text ++ ")"
  | location x y _ => "new Location(" ++ x.sixDigits ++ ", " ++ y.sixDigits ++ ")"
  | array items => Data.enclose "[" "]" (texts items)
  | varRef name => name
  | undefined _ => "$?"

def texts : List Value → List String
  | [] => []
  | item :: rest => text item :: texts rest

end

end Value

/-- A row of results: the value of each field that was returned. -/
abbrev Row := Entries Value

end Colloquy

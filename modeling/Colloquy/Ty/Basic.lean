namespace Colloquy

inductive Ty
  | any
  | boolean
  | string
  | number
  | currency
  | date
  | time
  | location
  | entity (name : String)
  | enum (entries : List String)
  | measure (unit : String)
  | array (elem : Ty)
deriving DecidableEq, Inhabited

namespace Ty

def isArray : Ty → Bool
  | array _ => true
  | _ => false

def isEntity : Ty → Bool
  | entity _ => true
  | _ => false

def isString : Ty → Bool
  | string => true
  | _ => false

def isEnum : Ty → Bool
  | enum _ => true
  | _ => false

def isComparable : Ty → Bool
  | number | currency | measure _ | date | time => true
  | _ => false

/-- A value of type `source` may stand where `target` is expected. Arrays follow their elements,
and an enumeration takes one with no further entries. -/
def accepts : (target source : Ty) → Bool
  | any, _ => true
  | _, any => true
  | array a, array b => accepts a b
  | enum entries, enum others => others.all entries.contains
  | a, b => a == b

end Ty

end Colloquy

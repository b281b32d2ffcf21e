import Colloquy.Double.Basic
import Colloquy.Entries

namespace Colloquy

inductive Data
  | null
  | flag (value : Bool)
  | int (value : Int)
  | real (value : Double)
  | text (value : String)
  | list (items : List Data)
  | record (fields : List (String × Data))
deriving Inhabited

namespace Data

/-- Nothing, false, zeros and empty texts, lists and records are not truthy. -/
def isTruthy : Data → Bool
  | null => false
  | flag b => b
  | int n => n != 0
  | real x => x.isNaN || x.magnitude != 0
  | text s => s != ""
  | list items => !items.isEmpty
  | record fields => !fields.isEmpty

def isNull : Data → Bool
  | null => true
  | _ => false

def text? : Data → Option String
  | text s => some s
  | _ => none

def field? (name : String) : Data → Option Data
  | record fields => Entries.get? fields name
  | _ => none

mutual

def sameBy (lenient : Bool) : Data → Data → Bool
  | null, null => true
  | flag a, flag b => a == b
  | int a, int b => a == b
  | real a, real b => a.sameBy lenient b
  | text a, text b => a == b
  | list a, list b => sameItems lenient a b
  | record a, record b => sameFields lenient a b
  | _, _ => false

def sameItems (lenient : Bool) : List Data → List Data → Bool
  | [], [] => true
  | a :: as, b :: bs => sameBy lenient a b && sameItems lenient as bs
  | _, _ => false

def sameFields (lenient : Bool) : List (String × Data) → List (String × Data) → Bool
  | [], [] => true
  | (m, a) :: as, (n, b) :: bs => m == n && sameBy lenient a b && sameFields lenient as bs
  | _, _ => false

end

end Data

end Colloquy

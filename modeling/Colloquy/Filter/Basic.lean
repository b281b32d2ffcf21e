import Colloquy.Call

namespace Colloquy

def Operator.symbols : List String :=
  ["==", "=~", "contains", "contains~", "in_array", "in_array~", ">=", "<="]

/-- The comparison of an atom. A symbol that stands for no comparison is kept as it is. -/
inductive Operator
  | equal
  | like
  | contains
  | containsLike
  | inArray
  | inArrayLike
  | atLeast
  | atMost
  | other (symbol : String) (isNew : symbol ∉ Operator.symbols)
deriving DecidableEq

namespace Operator

def symbol : Operator → String
  | equal => "=="
  | like => "=~"
  | contains => "contains"
  | containsLike => "contains~"
  | inArray => "in_array"
  | inArrayLike => "in_array~"
  | atLeast => ">="
  | atMost => "<="
  | other s _ => s

def known : List Operator :=
  [equal, like, contains, containsLike, inArray, inArrayLike, atLeast, atMost]

def ofSymbol : String → Operator :=
  ofName known symbol other

theorem ofSymbol_symbol (op : Operator) : ofSymbol op.symbol = op := by
  cases op with
  | other s isNew => exact ofName_of_not_mem known symbol other isNew
  | _ => rfl

theorem symbol_ofSymbol : ∀ s : String, (ofSymbol s).symbol = s :=
  name_ofName known symbol other fun _ _ => rfl

/-- Operators that differ in exactness alone belong to one family. -/
inductive Family
  | equality
  | containment
  | membership
  | atLeast
  | atMost
  | unknown
deriving DecidableEq

def family : Operator → Family
  | equal | like => .equality
  | contains | containsLike => .containment
  | inArray | inArrayLike => .membership
  | atLeast => .atLeast
  | atMost => .atMost
  | other _ _ => .unknown

end Operator

structure Atom where
  field : String
  op : Operator
  value : Value

/-- Predicates over another query or over computed values are carried along as they are. -/
inductive Filter
  | always
  | never
  | dontCare (field : String)
  | atom (a : Atom)
  | not (f : Filter)
  | and (fs : List Filter)
  | or (fs : List Filter)
  | external (selector channel : String) (params : List Param) (filter : Filter)
  | compute (lhs : Value) (op : String) (rhs : Value)

namespace Atom

def sameBy (lenient : Bool) (a b : Atom) : Bool :=
  a.field == b.field && a.op == b.op && a.value.sameBy lenient b.value

def text (a : Atom) : String :=
  a.field ++ " " ++ a.op.symbol ++ " " ++ a.value.text

def isIdentity (a : Atom) : Bool :=
  a.field == "id" && a.op == .equal

end Atom

namespace Filter

mutual

def sameBy (lenient : Bool) : Filter → Filter → Bool
  | always, always => true
  | never, never => true
  | dontCare m, dontCare n => m == n
  | atom a, atom b => a.sameBy lenient b
  | not f, not g => sameBy lenient f g
  | and fs, and gs => sameAll lenient fs gs
  | or fs, or gs => sameAll lenient fs gs
  | external s c ps f, external t d qs g =>
    s == t && c == d && Param.sameAll lenient ps qs && sameBy lenient f g
  | compute a o b, compute c p d => a.sameBy lenient c && o == p && b.sameBy lenient d
  | _, _ => false

def sameAll (lenient : Bool) : List Filter → List Filter → Bool
  | [], [] => true
  | f :: fs, g :: gs => sameBy lenient f g && sameAll lenient fs gs
  | _, _ => false

end

def same : Filter → Filter → Bool :=
  sameBy false

/-- Equality of clauses that may be one and the same clause, which is equal to itself whatever numbers
it holds. -/
def restates : Filter → Filter → Bool :=
  sameBy true

def needsParentheses : Filter → Bool
  | and _ => true
  | or _ => true
  | _ => false

mutual

def text : Filter → String
  | always => "true"
  | never => "false"
  | dontCare field => "true(" ++ field ++ ")"
  | atom a => a.text
  | not f => "!(" ++ text f ++ ")"
  | and fs => String.intercalate " && " (operandTexts fs)
  | or fs => String.intercalate " || " (operandTexts fs)
  | external selector channel params f =>
    "any(" ++ callText selector channel params ++ ", " ++ text f ++ ")"
  | compute lhs op rhs => lhs.text ++ " " ++ op ++ " " ++ rhs.text

def operandTexts : List Filter → List String
  | [] => []
  | f :: rest =>
    (if f.needsParentheses then "(" ++ text f ++ ")" else text f) :: operandTexts rest

end

/-- The operands of a conjunction at the top, or the filter itself. -/
def clauses : Filter → List Filter
  | and fs => fs
  | f => [f]

mutual

/-- The atoms and don't-cares of a filter in order, without those inside another query. -/
def slotClauses : Filter → List Filter
  | dontCare field => [dontCare field]
  | atom a => [atom a]
  | not f => slotClauses f
  | and fs => slotClausesAll fs
  | or fs => slotClausesAll fs
  | _ => []

def slotClausesAll : List Filter → List Filter
  | [] => []
  | f :: rest => slotClauses f ++ slotClausesAll rest

end

def slotField? : Filter → Option String
  | dontCare field => some field
  | atom a => some a.field
  | _ => none

/-- The fields that a filter mentions outside other queries, each once. -/
def fields (f : Filter) : List String :=
  (f.slotClauses.filterMap slotField?).eraseDups

def mentions (f : Filter) (field : String) : Bool :=
  f.fields.contains field

mutual

/-- Whether a predicate over another query occurs outside other queries. -/
def hasExternal : Filter → Bool
  | external _ _ _ _ => true
  | not f => hasExternal f
  | and fs => anyExternal fs
  | or fs => anyExternal fs
  | _ => false

def anyExternal : List Filter → Bool
  | [] => false
  | f :: rest => hasExternal f || anyExternal rest

end

end Filter

end Colloquy

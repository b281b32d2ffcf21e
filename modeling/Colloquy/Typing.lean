import Colloquy.Filter.Simplify
import Colloquy.Table.Basic

namespace Colloquy

namespace Atom

/-- Whether a constant fits the comparison with a field of type `ty`. A fuzzy comparison is for texts
and entities, and an entity may be compared with a text. -/
def fits (op : Operator) (ty : Ty) (value : Value) : Bool :=
  match op with
  | .equal => ty.accepts value.ty
  | .like =>
    match ty with
    | .string => ty.accepts value.ty
    | .entity _ => value.ty.isString || ty.accepts value.ty
    | _ => false
  | .contains | .containsLike =>
    match ty with
    | .array elem => elem.accepts value.ty
    | _ => false
  | .inArray | .inArrayLike =>
    match value with
    | .array items => items.all fun item => ty.accepts item.ty
    | _ => false
  | .atLeast | .atMost => ty.isComparable && ty.accepts value.ty
  | .other _ _ => false

/-- Whether an atom is about a filterable field, with a value of a fitting type. What is no constant
fits any field. -/
def isWellTyped (s : Signature) (a : Atom) : Bool :=
  match s.argument? a.field with
  | some argument => argument.isFilterable && (!a.value.isConstant || fits a.op argument.ty a.value)
  | none => false

end Atom

namespace Filter

mutual

def isWellTyped (s : Signature) : Filter → Bool
  | dontCare field => s.isFilterable field
  | atom a => a.isWellTyped s
  | not f => isWellTyped s f
  | and fs => allWellTyped s fs
  | or fs => allWellTyped s fs
  | _ => true

def allWellTyped (s : Signature) : List Filter → Bool
  | [] => true
  | f :: rest => isWellTyped s f && allWellTyped s rest

end

def pinned (f : Filter) : List (String × Value) :=
  f.simplify.clauses.filterMap fun
    | atom a => if a.op = .equal then some (a.field, a.value) else none
    | _ => none

/-- Whether some field is pinned to another value than the first one, where `seen` holds the first
values so far. -/
def clashes (seen : Row) : List (String × Value) → Bool
  | [] => false
  | (field, value) :: rest =>
    match seen.get? field with
    | none => clashes (seen.put field value) rest
    | some first => !first.same value || clashes seen rest

def isContradictory (f : Filter) : Bool :=
  clashes [] f.pinned

end Filter

/-- Whether each filter of a query fits the table that it filters and can be fulfilled. -/
def Table.isValid (t : Table) : Bool :=
  t.filterNodes.all fun (base, f) => f.isWellTyped base.signature && !f.isContradictory

end Colloquy

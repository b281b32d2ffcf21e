import Colloquy.Filter.Basic

namespace Colloquy

inductive Table
  | invoke (call : Call)
  | filter (table : Table) (filter : Filter)
  | project (table : Table) (fields : List String)
  | join (lhs rhs : Table) (params : List Param)
  | sort (table : Table) (field direction : String)
  | index (table : Table) (indices : List Value)
  | slice (table : Table) (base limit : Value)
  | compute (table : Table) (expression : Value) (label : Option String)
  | named (table : Table) (name : String)
  | aggregate (table : Table) (field operator : String) (label : Option String)
  | varRef (name : String) (function : Signature)
  | resultRef (kind channel : String) (index : Value) (function : Signature)
  | sequence (lhs rhs : Table)
  | history (table : Table) (base delta : Value)
  | window (table : Table) (base delta : Value)
  | timeSeries (table : Table) (base delta : Value)

namespace Table

def defaultDirection : String :=
  "asc"

def unprojected : Table → Table
  | project t _ => unprojected t
  | t => t

/-- Projects on fields. Of a projection of a projection, only the outer one stays. -/
def projectOn (t : Table) (fields : List String) : Table :=
  project t.unprojected fields

def projection? : Table → Option (List String)
  | project _ fields => some fields
  | _ => none

def signature : Table → Signature
  | invoke c => c.signature
  | project t fields => t.signature.project fields
  | join _ t _ => t.signature
  | varRef _ s => s
  | resultRef _ _ _ s => s
  | sequence _ t => t.signature
  | filter t _ => t.signature
  | sort t _ _ => t.signature
  | index t _ => t.signature
  | slice t _ _ => t.signature
  | compute t _ _ => t.signature
  | named t _ => t.signature
  | aggregate t _ _ _ => t.signature
  | history t _ _ => t.signature
  | window t _ _ => t.signature
  | timeSeries t _ _ => t.signature

def functionNames : Table → List String
  | invoke c => [c.functionName]
  | join l r _ => l.functionNames ++ r.functionNames
  | sequence l r => l.functionNames ++ r.functionNames
  | varRef _ _ => []
  | resultRef _ _ _ _ => []
  | filter t _ => t.functionNames
  | project t _ => t.functionNames
  | sort t _ _ => t.functionNames
  | index t _ => t.functionNames
  | slice t _ _ => t.functionNames
  | compute t _ _ => t.functionNames
  | named t _ => t.functionNames
  | aggregate t _ _ _ => t.functionNames
  | history t _ _ => t.functionNames
  | window t _ _ => t.functionNames
  | timeSeries t _ _ => t.functionNames

/-- The filters of a query with the tables that they filter, from the root down and from left to
right. -/
def filterNodes : Table → List (Table × Filter)
  | filter t f => (t, f) :: t.filterNodes
  | join l r _ => l.filterNodes ++ r.filterNodes
  | sequence l r => l.filterNodes ++ r.filterNodes
  | invoke _ => []
  | varRef _ _ => []
  | resultRef _ _ _ _ => []
  | project t _ => t.filterNodes
  | sort t _ _ => t.filterNodes
  | index t _ => t.filterNodes
  | slice t _ _ => t.filterNodes
  | compute t _ _ => t.filterNodes
  | named t _ => t.filterNodes
  | aggregate t _ _ _ => t.filterNodes
  | history t _ _ => t.filterNodes
  | window t _ _ => t.filterNodes
  | timeSeries t _ _ => t.filterNodes

def query (s : Signature) (f : Option Filter) : Table :=
  let call := invoke (Call.ofSignature s [])
  match f with
  | some f => filter call f
  | none => call

/-- The written form. Sequences, histories, windows and time series have none, and neither has a query
that holds one of them. -/
def text? : Table → Option String
  | invoke c => some c.text
  | filter t f => do some ("(" ++ (← t.text?) ++ "), " ++ f.text)
  | project t fields => do
    some ("[" ++ String.intercalate ", " fields ++ "] of (" ++ (← t.text?) ++ ")")
  | join l r _ => do some ("(" ++ (← l.text?) ++ ") join (" ++ (← r.text?) ++ ")")
  | sort t field direction => do
    some ("sort(" ++ field ++ " " ++ direction ++ " of (" ++ (← t.text?) ++ "))")
  | index t indices => do
    some ("(" ++ (← t.text?) ++ ")[" ++ String.intercalate ", " (indices.map Value.text) ++ "]")
  | slice t base limit => do
    some ("(" ++ (← t.text?) ++ ")[" ++ base.text ++ " : " ++ limit.text ++ "]")
  | compute t expression _ => do
    some ("compute " ++ expression.text ++ " of (" ++ (← t.text?) ++ ")")
  | named t name => do some ("(" ++ (← t.text?) ++ ") as " ++ name)
  | aggregate t field operator _ => do
    some ("aggregate " ++ operator ++ " " ++ field ++ " of (" ++ (← t.text?) ++ ")")
  | varRef name _ => some name
  | resultRef kind channel position _ =>
    some ("result(@" ++ kind ++ "." ++ channel ++ "[" ++ position.text ++ "])")
  | sequence _ _ => none
  | history _ _ _ => none
  | window _ _ _ => none
  | timeSeries _ _ _ => none

end Table

end Colloquy

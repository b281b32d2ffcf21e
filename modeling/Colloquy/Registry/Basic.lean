import Colloquy.Signature

namespace Colloquy

namespace Signature

def enumerates? (s : Signature) : Option String :=
  if s.isAction || !s.isList then none
  else
    match s.idTy? with
    | some (.entity name) => some name
    | _ => none

end Signature

structure Registry where
  table : Entries Signature
  idTable : Entries Signature

namespace Registry

def empty : Registry :=
  ⟨[], []⟩

def functions (r : Registry) : List Signature :=
  r.table.map Prod.snd

def get? (r : Registry) (name : String) : Option Signature :=
  r.table.get? name

def contains (r : Registry) (name : String) : Bool :=
  r.table.has name

def size (r : Registry) : Nat :=
  r.table.length

inductive Error
  | unknownFunction (name : String)
  | duplicateFunction (name : String)
  | duplicateArguments (name : String)
  | invalidMetadata
  | unreadableMetadata
  | longInteger
deriving DecidableEq

/-- An integer with too many digits has no message. -/
def Error.message? : Error → Option String
  | unknownFunction name => some ("Unknown function '" ++ name ++ "'")
  | duplicateFunction name => some ("Duplicate function '" ++ name ++ "'")
  | duplicateArguments name => some ("Duplicate argument names in " ++ name)
  | invalidMetadata => some "Invalid function metadata"
  | unreadableMetadata => some "Cannot read function metadata"
  | longInteger => none

def find (r : Registry) (name : String) : Except Error Signature :=
  match r.get? name with
  | some s => .ok s
  | none => .error (.unknownFunction name)

/-- Records a list query under the entity type that it enumerates. The first one of a type stays. -/
def recordIdQuery (idTable : Entries Signature) (s : Signature) : Entries Signature :=
  match s.enumerates? with
  | some entityType => idTable.putNew entityType s
  | none => idTable

def insert (s : Signature) : EStateM Error Registry Unit := do
  let r ← get
  if r.contains s.qualifiedName then
    throw (.duplicateFunction s.qualifiedName)
  set { r with table := r.table.put s.qualifiedName s }
  modify fun r => { r with idTable := recordIdQuery r.idTable s }

def add (r : Registry) (s : Signature) : Except Error Registry :=
  match (insert s).run r with
  | .ok _ r => .ok r
  | .error e _ => .error e

def ofEntries (functions : Entries Signature) : Registry :=
  ⟨functions, (functions.map Prod.snd).foldl recordIdQuery []⟩

/-- The registry of some functions under their own names. Of functions with one name, the last comes
in the place of the first. -/
def ofFunctions (functions : List Signature) : Registry :=
  ofEntries (Entries.ofList (functions.map fun s => (s.qualifiedName, s)))

def idTypes (r : Registry) : List String :=
  r.idTable.names

def idQuery? (r : Registry) (entityType : String) : Option Signature :=
  r.idTable.get? entityType

def idQueryOf? (r : Registry) : Ty → Option Signature
  | .entity name => r.idQuery? name
  | _ => none

end Registry

end Colloquy

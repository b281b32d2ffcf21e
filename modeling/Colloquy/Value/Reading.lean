import Colloquy.Data.Writing
import Colloquy.Numeral
import Colloquy.Ty.Text
import Colloquy.Value.Basic

namespace Colloquy.Value

inductive ReadError
  | notAList (expected : Ty) (found : Data)
  | notAnEntry (expected : Ty) (found : Data)
  | noConstants (expected : Ty)
  | badNumeral
  | notANumber
  | tooLarge
  | missingField
  | badDate
  | notASequence
  | notAPair

def kindOf : Data → String
  | .null => "NoneType"
  | .flag _ => "bool"
  | .int _ => "int"
  | .real _ => "float"
  | .text _ => "str"
  | .list _ => "list"
  | .record _ => "dict"

/-- The causes that concern the type have a message; those within a datum have none. -/
def ReadError.message? : ReadError → Option String
  | notAList expected found =>
    some ("Expected a list for " ++ expected.text ++ ", got " ++ kindOf found)
  | notAnEntry expected found =>
    some ("'" ++ found.asText ++ "' is not a valid entry of " ++ expected.text)
  | noConstants expected => some ("Cannot build a constant of type " ++ expected.text)
  | _ => none

/-- An integer that rounds beyond the finite numbers is refused. -/
def readInt (n : Int) : Except ReadError Double :=
  let x := Double.ofInt n
  if x.isInfinite then .error .tooLarge else .ok x

def readNumber : Data → Except ReadError Double
  | .flag b => .ok (Double.ofInt (if b then 1 else 0))
  | .int n => readInt n
  | .real x => .ok x
  | .text s =>
    match Numeral.readDouble? s with
    | some x => .ok x
    | none => .error .badNumeral
  | _ => .error .notANumber

def requireField (name : String) (data : Data) : Except ReadError Data :=
  match data.field? name with
  | some value => .ok value
  | none => .error .missingField

def labelOf (data : Data) : Data :=
  (data.field? "display").getD .null

def readEntity (kind : String) (data : Data) : Except ReadError Value :=
  match data with
  | .record _ => do
    let id ← requireField "value" data
    .ok (entity id.asText kind (labelOf data))
  | _ => .ok (entity data.asText kind .null)

def readCurrency (data : Data) : Except ReadError Value :=
  match data with
  | .record _ => do
    let amount ← readNumber (← requireField "value" data)
    .ok (currency amount ((data.field? "code").getD defaultCode))
  | _ => (readNumber data).map (currency · defaultCode)

def readPair (data : List Data) : Except ReadError Value :=
  match data with
  | [x, y] => do
    let latitude ← readNumber x
    let longitude ← readNumber y
    .ok (location latitude longitude .null)
  | _ => .error .notAPair

/-- A location is a record, a list of two coordinates, or a text of two characters. -/
def readLocation (data : Data) : Except ReadError Value :=
  match data with
  | .record _ => do
    let latitude ← readNumber (← requireField "latitude" data)
    let longitude ← readNumber (← requireField "longitude" data)
    .ok (location latitude longitude (labelOf data))
  | .list items => readPair items
  | .text s => readPair (s.toList.map fun c => .text c.toString)
  | _ => .error .notASequence

def readScalar (ty : Ty) (data : Data) : Except ReadError Value :=
  match ty with
  | .string => .ok (string data.asText)
  | .number => (readNumber data).map number
  | .boolean => .ok (boolean data.isTruthy)
  | .enum entries =>
    match data with
    | .text s => if entries.contains s then .ok (enum s) else .error (.notAnEntry ty data)
    | _ => .error (.notAnEntry ty data)
  | .entity kind => readEntity kind data
  | .currency => readCurrency data
  | .measure unit => (readNumber data).map (measure · unit)
  | .date =>
    match Date.ofText? data.asText with
    | some d => .ok (date d)
    | none => .error .badDate
  | .location => readLocation data
  | _ => .error (.noConstants ty)

def readItems (reader : Data → Except ReadError Value) :
    List Data → Except ReadError (List Value)
  | [] => .ok []
  | item :: rest =>
    match reader item with
    | .error e => .error e
    | .ok v => (readItems reader rest).map (v :: ·)

def ofData (ty : Ty) (data : Data) : Except ReadError Value :=
  match ty with
  | .array elem =>
    match data with
    | .list items => (readItems (ofData elem) items).map array
    | _ => .error (.notAList ty data)
  | _ => readScalar ty data

end Colloquy.Value

import Colloquy.Text.Basic
import Colloquy.Ty.Basic

namespace Colloquy.Ty

def simpleTypes : List (String × Ty) :=
  [("Any", any), ("Boolean", boolean), ("String", string), ("Number", number),
   ("Currency", currency), ("Date", date), ("Time", time), ("Location", location)]

def argumentHeads : List String :=
  ["Entity", "Enum", "Measure", "Array"]

def text : Ty → String
  | any => "Any"
  | boolean => "Boolean"
  | string => "String"
  | number => "Number"
  | currency => "Currency"
  | date => "Date"
  | time => "Time"
  | location => "Location"
  | entity name => "Entity(" ++ name ++ ")"
  | enum entries => "Enum(" ++ String.intercalate "," entries ++ ")"
  | measure unit => "Measure(" ++ unit ++ ")"
  | array elem => "Array(" ++ elem.text ++ ")"

/-- Why a text is no type. Each cause holds the text in question. -/
inductive TextError
  | unknown (text : String)
  | needsArgument (text : String)
  | malformed (text : String)
  | noEntries (text : String)
deriving DecidableEq

def TextError.message : TextError → String
  | unknown text => "Unknown type '" ++ text ++ "'"
  | needsArgument text => "Type '" ++ text ++ "' requires an argument"
  | malformed text => "Malformed type '" ++ text ++ "'"
  | noEntries text => "Enum type '" ++ text ++ "' has no entries"

def splitCommas : List Char → List (List Char)
  | [] => [[]]
  | c :: rest =>
    if c == ',' then [] :: splitCommas rest
    else
      match splitCommas rest with
      | [] => [[c]]
      | part :: parts => (c :: part) :: parts

/-- The entries of an enumeration, without blanks around them and without empty ones. -/
def readEntries (cs : List Char) : List String :=
  (((splitCommas cs).map Text.strip).filter (!·.isEmpty)).map String.ofList

def readSimple (text : String) : Except TextError Ty :=
  match simpleTypes.lookup text with
  | some ty => .ok ty
  | none =>
    if argumentHeads.contains text then .error (.needsArgument text) else .error (.unknown text)

def headOf (cs : List Char) : List Char :=
  cs.takeWhile (· != '(')

/-- What stands between the first opening parenthesis and the last character. -/
def argumentOf (cs : List Char) : List Char :=
  Text.strip (cs.dropWhile (· != '(')).tail.dropLast

theorem length_argumentOf_lt {cs : List Char} (h : '(' ∈ cs) :
    (argumentOf cs).length < cs.length := by
  have hdrop : (cs.dropWhile (· != '(')).length ≤ cs.length :=
    (List.dropWhile_suffix _).length_le
  have hstrip := Text.length_strip_le (cs.dropWhile (· != '(')).tail.dropLast
  have hpos : 0 < cs.length := List.length_pos_of_mem h
  simp only [argumentOf, List.length_dropLast, List.length_tail] at hstrip ⊢
  omega

def read (cs : List Char) : Except TextError Ty :=
  let trimmed := Text.strip cs
  if _h : '(' ∈ trimmed then
    let text := String.ofList trimmed
    let head := String.ofList (headOf trimmed)
    let argument := argumentOf trimmed
    if trimmed.getLast? != some ')' then
      .error (.malformed text)
    else if head = "Array" then
      (read argument).map array
    else if head = "Entity" && !argument.isEmpty then
      .ok (entity (String.ofList argument))
    else if head = "Measure" && !argument.isEmpty then
      .ok (measure (String.ofList argument))
    else if head = "Enum" then
      if (readEntries argument).isEmpty then .error (.noEntries text)
      else .ok (enum (readEntries argument))
    else
      .error (.unknown text)
  else
    readSimple (String.ofList trimmed)
termination_by cs.length
decreasing_by
  exact Nat.lt_of_lt_of_le (length_argumentOf_lt _h) (Text.length_strip_le cs)

def ofText (text : String) : Except TextError Ty :=
  read text.toList

end Colloquy.Ty

import Colloquy.Data.Basic
import Colloquy.Double.Significant
import Colloquy.Text.Basic
import Colloquy.Text.Printable

namespace Colloquy.Data

def enclose (opening closing : String) (parts : List String) : String :=
  opening ++ String.intercalate ", " parts ++ closing

def jsonReal (x : Double) : String :=
  if x.isNaN then "NaN"
  else if x.isInfinite then (if x.isNegative then "-Infinity" else "Infinity")
  else x.shortest

mutual

/-- JSON text, where `quote` decides which characters are escaped. -/
def toJson (quote : String → String) : Data → String
  | null => "null"
  | flag b => if b then "true" else "false"
  | int n => toString n
  | real x => jsonReal x
  | text s => quote s
  | list items => enclose "[" "]" (itemsToJson quote items)
  | record fields => enclose "\x7b" "\x7d" (fieldsToJson quote fields)

def itemsToJson (quote : String → String) : List Data → List String
  | [] => []
  | item :: rest => toJson quote item :: itemsToJson quote rest

def fieldsToJson (quote : String → String) : List (String × Data) → List String
  | [] => []
  | (name, value) :: rest => (quote name ++ ": " ++ toJson quote value) :: fieldsToJson quote rest

end

/-- A character of a literal: escapes for the quote, the backslash and line ends, a number of two,
four or eight digits for what has no visible form. -/
def literalChar (quote c : Char) : List Char :=
  if c == quote || c == '\\' then ['\\', c]
  else if c == '\n' then ['\\', 'n']
  else if c == '\r' then ['\\', 'r']
  else if c == '\t' then ['\\', 't']
  else if Text.isPrintable c then [c]
  else
    let n := c.toNat
    if n < 0x100 then '\\' :: 'x' :: Text.hexDigits 2 n
    else if n < 0x10000 then '\\' :: 'u' :: Text.hexDigits 4 n
    else '\\' :: 'U' :: Text.hexDigits 8 n

/-- A text stands between single quotes, unless it holds one and no double quote. -/
def literalText (s : String) : String :=
  let quote := if s.toList.contains '\'' && !s.toList.contains '"' then '"' else '\''
  String.ofList (quote :: s.toList.flatMap (literalChar quote) ++ [quote])

mutual

def literal : Data → String
  | null => "None"
  | flag b => if b then "True" else "False"
  | int n => toString n
  | real x => x.shortest
  | text s => literalText s
  | list items => enclose "[" "]" (literals items)
  | record fields => enclose "\x7b" "\x7d" (fieldLiterals fields)

def literals : List Data → List String
  | [] => []
  | item :: rest => literal item :: literals rest

def fieldLiterals : List (String × Data) → List String
  | [] => []
  | (name, value) :: rest => (literalText name ++ ": " ++ literal value) :: fieldLiterals rest

end

/-- A text stands for itself where data is taken as text; anything else is shown as a literal. -/
def asText : Data → String
  | text s => s
  | data => literal data

end Colloquy.Data

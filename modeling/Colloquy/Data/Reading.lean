import Colloquy.Data.Basic
import Colloquy.Numeral

/-!
Data read from JSON text. The names for infinity and for what is no number are read as well, and a
repeated field keeps its first place and its last value. Of the faults in a text, the first in
reading order counts.
-/

namespace Colloquy.Data

inductive TextError
  | malformed
  | longInteger
deriving DecidableEq

def skipSpace (cs : List Char) : List Char :=
  cs.dropWhile fun c => c == ' ' || c == '\t' || c == '\n' || c == '\r'

def hexValue? (c : Char) : Option Nat :=
  if c.isDigit then some (c.toNat - 48)
  else if 'a' ≤ c && c ≤ 'f' then some (c.toNat - 87)
  else if 'A' ≤ c && c ≤ 'F' then some (c.toNat - 55)
  else none

def hexUnit? (cs : List Char) : Option Nat :=
  cs.foldl (fun n c => do some (16 * (← n) + (← hexValue? c))) (some 0)

def escaped? : Char → Option Char
  | '"' => some '"'
  | '\\' => some '\\'
  | '/' => some '/'
  | 'b' => some '\x08'
  | 'f' => some '\x0c'
  | 'n' => some '\n'
  | 'r' => some '\r'
  | 't' => some '\t'
  | _ => none

def readUnits : List Char → Option (List Nat × List Char)
  | [] => none
  | '"' :: rest => some ([], rest)
  | '\\' :: 'u' :: a :: b :: c :: d :: rest => do
    let unit ← hexUnit? [a, b, c, d]
    let (units, rest) ← readUnits rest
    some (unit :: units, rest)
  | '\\' :: c :: rest => do
    let c ← escaped? c
    let (units, rest) ← readUnits rest
    some (c.toNat :: units, rest)
  | c :: rest =>
    if c.toNat < 32 then none
    else do
      let (units, rest) ← readUnits rest
      some (c.toNat :: units, rest)

def isHighSurrogate (n : Nat) : Bool :=
  0xd800 ≤ n && n < 0xdc00

def isLowSurrogate (n : Nat) : Bool :=
  0xdc00 ≤ n && n < 0xe000

/-- Joins surrogate pairs. A surrogate on its own becomes the replacement character. -/
def joinUnits : List Nat → List Char
  | [] => []
  | high :: low :: rest =>
    if isHighSurrogate high && isLowSurrogate low then
      Char.ofNat (0x10000 + (high - 0xd800) * 0x400 + (low - 0xdc00)) :: joinUnits rest
    else if isHighSurrogate high || isLowSurrogate high then
      '\uFFFD' :: joinUnits (low :: rest)
    else
      Char.ofNat high :: joinUnits (low :: rest)
  | [n] => [if isHighSurrogate n || isLowSurrogate n then '\uFFFD' else Char.ofNat n]

def readText (cs : List Char) : Except TextError (String × List Char) :=
  match readUnits cs with
  | some (units, rest) => .ok (String.ofList (joinUnits units), rest)
  | none => .error .malformed

def readWhole : List Char → Except TextError (List Char × List Char)
  | '0' :: rest => .ok (['0'], rest)
  | cs =>
    let digits := cs.takeWhile Char.isDigit
    if digits.isEmpty then .error .malformed else .ok (digits, cs.dropWhile Char.isDigit)

/-- The digits behind a point. A point without digits does not belong to the number. -/
def readFraction : List Char → List Char × List Char
  | '.' :: rest =>
    let digits := rest.takeWhile Char.isDigit
    if digits.isEmpty then ([], '.' :: rest) else (digits, rest.dropWhile Char.isDigit)
  | cs => ([], cs)

/-- The exponent, if there is one. A letter without digits does not belong to the number. -/
def readExponent : List Char → Option Int × List Char
  | c :: rest =>
    let (negative, cs) := Numeral.sign rest
    let digits := cs.takeWhile Char.isDigit
    if (c == 'e' || c == 'E') && !digits.isEmpty then
      let n : Int := Numeral.digitsValue digits
      (some (if negative then -n else n), cs.dropWhile Char.isDigit)
    else (none, c :: rest)
  | [] => (none, [])

def integer (negative : Bool) (digits : List Char) : Except TextError Int :=
  let n : Int := Numeral.digitsValue digits
  if Numeral.maxIntDigits < digits.length then .error .longInteger
  else .ok (if negative then -n else n)

/-- A number with a fraction or an exponent is real, any other an integer. -/
def readNumber (negative : Bool) (cs : List Char) : Except TextError (Data × List Char) := do
  let (whole, rest) ← readWhole cs
  let (fraction, rest) := readFraction rest
  let (exponent, rest) := readExponent rest
  if fraction.isEmpty && exponent.isNone then
    let n ← integer negative whole
    .ok (int n, rest)
  else
    let digits := Numeral.digitsValue (whole ++ fraction)
    .ok (real (Double.ofDecimal negative digits (exponent.getD 0 - fraction.length)), rest)

def words : List (String × Data) :=
  [("null", null), ("true", flag true), ("false", flag false), ("NaN", real (Double.nan false)),
   ("Infinity", real (Double.infinity false)), ("-Infinity", real (Double.infinity true))]

def readWord (cs : List Char) : Option (Data × List Char) :=
  (words.find? fun (word, _) => word.toList.isPrefixOf cs).map fun (word, data) =>
    (data, cs.drop word.length)

def readScalar (cs : List Char) : Except TextError (Data × List Char) :=
  match readWord cs with
  | some found => .ok found
  | none =>
    match cs with
    | '-' :: rest => readNumber true rest
    | _ => readNumber false cs

mutual

/-- Reads one value. The first argument bounds the depth of the recursion. -/
def readValue : Nat → List Char → Except TextError (Data × List Char)
  | 0, _ => .error .malformed
  | fuel + 1, cs =>
    match cs with
    | '"' :: rest => (readText rest).map fun (s, rest) => (text s, rest)
    | '[' :: rest =>
      match skipSpace rest with
      | ']' :: rest => .ok (list [], rest)
      | rest => (readItems fuel rest).map fun (items, rest) => (list items, rest)
    | '{' :: rest =>
      match skipSpace rest with
      | '}' :: rest => .ok (record [], rest)
      | rest =>
        (readFields fuel rest).map fun (fields, rest) => (record (Entries.ofList fields), rest)
    | _ => readScalar cs

def readItems : Nat → List Char → Except TextError (List Data × List Char)
  | 0, _ => .error .malformed
  | fuel + 1, cs => do
    let (item, rest) ← readValue fuel (skipSpace cs)
    match skipSpace rest with
    | ']' :: rest => .ok ([item], rest)
    | ',' :: rest =>
      let (items, rest) ← readItems fuel rest
      .ok (item :: items, rest)
    | _ => .error .malformed

def readFields : Nat → List Char → Except TextError (List (String × Data) × List Char)
  | 0, _ => .error .malformed
  | fuel + 1, cs =>
    match skipSpace cs with
    | '"' :: rest => do
      let (name, rest) ← readText rest
      match skipSpace rest with
      | ':' :: rest =>
        let (value, rest) ← readValue fuel (skipSpace rest)
        match skipSpace rest with
        | '}' :: rest => .ok ([(name, value)], rest)
        | ',' :: rest =>
          let (fields, rest) ← readFields fuel rest
          .ok ((name, value) :: fields, rest)
        | _ => .error .malformed
      | _ => .error .malformed
    | _ => .error .malformed

end

/-- Reads a whole text as one value. A level of the recursion comes with every second character at
most, so the bound is never met. -/
def ofJson (source : String) : Except TextError Data := do
  let cs := source.toList
  let (data, rest) ← readValue (2 * cs.length + 2) (skipSpace cs)
  if (skipSpace rest).isEmpty then .ok data else .error .malformed

end Colloquy.Data

import Colloquy.Double.Basic
import Colloquy.Text.Basic

namespace Colloquy

namespace Text

/-- The zeros of the decimal scripts of Unicode 14. The nine other digits follow each of them. -/
def digitZeros : List Nat :=
  [0x30, 0x660, 0x6f0, 0x7c0, 0x966, 0x9e6, 0xa66, 0xae6, 0xb66, 0xbe6, 0xc66, 0xce6, 0xd66,
   0xde6, 0xe50, 0xed0, 0xf20, 0x1040, 0x1090, 0x17e0, 0x1810, 0x1946, 0x19d0, 0x1a80, 0x1a90,
   0x1b50, 0x1bb0, 0x1c40, 0x1c50, 0xa620, 0xa8d0, 0xa900, 0xa9d0, 0xa9f0, 0xaa50, 0xabf0,
   0xff10, 0x104a0, 0x10d30, 0x11066, 0x110f0, 0x11136, 0x111d0, 0x112f0, 0x11450, 0x114d0,
   0x11650, 0x116c0, 0x11730, 0x118e0, 0x11950, 0x11c50, 0x11d50, 0x11da0, 0x16a60, 0x16ac0,
   0x16b50, 0x1d7ce, 0x1d7d8, 0x1d7e2, 0x1d7ec, 0x1d7f6, 0x1e140, 0x1e2f0, 0x1e950, 0x1fbf0]

def digit? (c : Char) : Option Nat :=
  (digitZeros.find? fun z => z ≤ c.toNat && c.toNat < z + 10).map (c.toNat - ·)

end Text

namespace Numeral

def plainDigit (c : Char) : Char :=
  match Text.digit? c with
  | some d => Char.ofNat (48 + d)
  | none => c

/-- Drops each underscore that stands between digits; fails at any other. -/
def joinDigits? (afterDigit : Bool) : List Char → Option (List Char)
  | [] => some []
  | '_' :: c :: rest =>
    if afterDigit && c.isDigit then (joinDigits? true rest).map (c :: ·) else none
  | c :: rest => if c == '_' then none else (joinDigits? c.isDigit rest).map (c :: ·)

def normalize? (text : String) : Option (List Char) :=
  joinDigits? false ((Text.trimBoth Text.isNumeralBlank text.toList).map plainDigit)

/-- Splits off a sign; true stands for minus. -/
def sign : List Char → Bool × List Char
  | '-' :: rest => (true, rest)
  | '+' :: rest => (false, rest)
  | cs => (false, cs)

def digitsValue (cs : List Char) : Nat :=
  cs.foldl (fun n c => 10 * n + (c.toNat - 48)) 0

def maxIntDigits : Nat :=
  4300

def readInt? (text : String) : Option Int := do
  let (negative, cs) := sign (← normalize? text)
  if cs.isEmpty || !cs.all Char.isDigit || maxIntDigits < cs.length then
    none
  else
    let n := digitsValue cs
    some (if negative then -(n : Int) else n)

/-- What follows the digits of a number: an exponent, or nothing. -/
def readExponent? : List Char → Option Int
  | [] => some 0
  | c :: rest =>
    if c == 'e' || c == 'E' then
      let (negative, cs) := sign rest
      if cs.isEmpty || !cs.all Char.isDigit then none
      else some (if negative then -(digitsValue cs : Int) else digitsValue cs)
    else none

/-- An unsigned number in digits, with an optional fraction and exponent. -/
def readDecimal? (negative : Bool) (cs : List Char) : Option Double :=
  let whole := cs.takeWhile Char.isDigit
  let rest := cs.dropWhile Char.isDigit
  let (fraction, rest) :=
    match rest with
    | '.' :: more => (more.takeWhile Char.isDigit, more.dropWhile Char.isDigit)
    | _ => ([], rest)
  if whole.isEmpty && fraction.isEmpty then
    none
  else
    (readExponent? rest).map fun e =>
      Double.ofDecimal negative (digitsValue (whole ++ fraction)) (e - fraction.length)

def readDouble? (text : String) : Option Double := do
  let (negative, cs) := sign (← normalize? text)
  let word := String.ofList (cs.map Char.toLower)
  if word == "inf" || word == "infinity" then
    some (Double.infinity negative)
  else if word == "nan" then
    some (Double.nan negative)
  else
    readDecimal? negative cs

end Numeral

end Colloquy

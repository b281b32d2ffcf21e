import Colloquy.Double.Basic

namespace Colloquy.Double

def scaleDecimal (num den : Nat) (e : Int) : Nat × Nat :=
  if 0 ≤ e then (num, den * Nat.pow 10 e.toNat) else (num * Nat.pow 10 (-e).toNat, den)

/-- The decimal exponent of the leading digit of a positive quotient. -/
def leadingExponent (num den : Nat) : Int :=
  let e : Int := (Nat.toDigits 10 num).length - (Nat.toDigits 10 den).length
  let (a, b) := scaleDecimal num den e
  if b ≤ a then e else e - 1

/-- Rounds a positive quotient to `count` significant digits, and gives their exponent. -/
def significant (count num den : Nat) : Nat × Int :=
  let e := leadingExponent num den
  let (a, b) := scaleDecimal num den (e - count + 1)
  let digits := roundDiv a b
  if digits = Nat.pow 10 count then (Nat.pow 10 (count - 1), e + 1) else (digits, e)

/-- When a number is written with an exponent, and whether an integer keeps a fraction. -/
structure Layout where
  lowest : Int
  highest : Int
  keepsFraction : Bool

def dropTrailingZeros (digits : List Char) : List Char :=
  (digits.reverse.dropWhile (· == '0')).reverse

def exponentText (e : Int) : String :=
  let digits := Nat.toDigits 10 e.natAbs
  let padded := List.replicate (2 - digits.length) '0' ++ digits
  (if e < 0 then "e-" else "e+") ++ String.ofList padded

/-- Writes digits whose first stands at ten to the `e`. -/
def Layout.write (layout : Layout) (digits : List Char) (e : Int) : String :=
  let digits := dropTrailingZeros digits
  if layout.lowest ≤ e && e < layout.highest then
    let (whole, fraction) :=
      if 0 ≤ e then
        let places := e.toNat + 1
        (digits.take places ++ List.replicate (places - digits.length) '0', digits.drop places)
      else
        (['0'], List.replicate ((-e).toNat - 1) '0' ++ digits)
    let fraction := if fraction.isEmpty && layout.keepsFraction then ['0'] else fraction
    String.ofList (if fraction.isEmpty then whole else whole ++ '.' :: fraction)
  else
    let fraction := digits.drop 1
    String.ofList (digits.take 1 ++ if fraction.isEmpty then [] else '.' :: fraction) ++
      exponentText e

/-- Texts with six digits turn to an exponent at a million, and an integer shows no fraction. -/
def sixDigitLayout : Layout :=
  ⟨-4, 6, false⟩

/-- Texts that read back turn to an exponent at ten to the sixteen and always show a fraction. -/
def exactLayout : Layout :=
  ⟨-4, 16, true⟩

def signed (x : Double) (zeroText : String) (text : Nat → Nat → String) : String :=
  if x.isNaN then
    "nan"
  else
    (if x.isNegative then "-" else "") ++
      (if x.isInfinite then "inf"
       else if x.magnitude = 0 then zeroText
       else text x.toRatio.1 x.toRatio.2)

def sixDigits (x : Double) : String :=
  x.signed "0" fun num den =>
    let (digits, e) := significant 6 num den
    sixDigitLayout.write (Nat.toDigits 10 digits) e

/-- The two neighbours of a quotient among the numbers with `count` digits, the nearer one first. -/
def neighbours (count num den : Nat) : List (Nat × Int) :=
  let e := leadingExponent num den
  let unit := e - count + 1
  let (a, b) := scaleDecimal num den unit
  let near := roundDiv a b
  let far := if near = a / b then near + 1 else a / b
  [(near, unit), (far, unit)]

def shortestDecimal (magnitude num den : Nat) : Nat × Int :=
  let candidates := (List.range 17).flatMap fun count => neighbours (count + 1) num den
  (candidates.find? fun (digits, unit) => (ofDecimal false digits unit).magnitude == magnitude).getD
    (0, 0)

def shortest (x : Double) : String :=
  x.signed "0.0" fun num den =>
    let (digits, unit) := shortestDecimal x.magnitude num den
    let text := Nat.toDigits 10 digits
    exactLayout.write text (unit + text.length - 1)

end Colloquy.Double

/-!
Double-precision numbers, held by their 64 bits. Numbers are compared through an integer key that
rises with the value, and a quotient of naturals is rounded to the nearest number.
-/

namespace Colloquy

structure Double where
  bits : UInt64
deriving DecidableEq, Inhabited

namespace Double

/-- The bits without the sign. They rise with the absolute value. -/
def magnitude (x : Double) : Nat :=
  x.bits.toNat % Nat.pow 2 63

def isNegative (x : Double) : Bool :=
  Nat.pow 2 63 ≤ x.bits.toNat

def infiniteMagnitude : Nat :=
  0x7ff0000000000000

def isNaN (x : Double) : Bool :=
  infiniteMagnitude < x.magnitude

def isInfinite (x : Double) : Bool :=
  x.magnitude == infiniteMagnitude

/-- Rises with the value of a number. Both zeros have the key zero. -/
def key (x : Double) : Int :=
  if x.isNegative then -(x.magnitude : Int) else x.magnitude

/-- Equality of values: the zeros are equal, and what is no number differs from itself. Nothing here
tells whether both sides are one object, so this is also said of a NaN beside itself. -/
def same (x y : Double) : Bool :=
  !x.isNaN && !y.isNaN && x.key == y.key

/-- Where `lenient`, what is no number is equal to itself, as one object is to itself. -/
def sameBy (lenient : Bool) (x y : Double) : Bool :=
  x.same y || (lenient && x == y)

def le (x y : Double) : Bool :=
  !x.isNaN && !y.isNaN && decide (x.key ≤ y.key)

/-- Attaches a sign to a magnitude. A magnitude beyond the infinite one is cut to it. -/
def ofMagnitude (negative : Bool) (magnitude : Nat) : Double :=
  let m := min magnitude infiniteMagnitude
  ⟨UInt64.ofNat (if negative then Nat.pow 2 63 + m else m)⟩

def nan (negative : Bool) : Double :=
  ⟨if negative then 0xfff8000000000000 else 0x7ff8000000000000⟩

def infinity (negative : Bool) : Double :=
  ofMagnitude negative infiniteMagnitude

def zero (negative : Bool) : Double :=
  ofMagnitude negative 0

/-- A finite absolute value is the first component times two to the second. -/
def decompose (x : Double) : Nat × Int :=
  let e : Nat := x.magnitude / Nat.pow 2 52
  let m : Nat := x.magnitude % Nat.pow 2 52
  if e = 0 then (m, -1074) else (m + Nat.pow 2 52, (e : Int) - 1075)

def toRatio (x : Double) : Nat × Nat :=
  let (m, e) := x.decompose
  if 0 ≤ e then (m * Nat.pow 2 e.toNat, 1) else (m, Nat.pow 2 (-e).toNat)

/-- Rounds a quotient to the nearest natural, a half to the even neighbour. -/
def roundDiv (num den : Nat) : Nat :=
  let q := num / den
  let r := 2 * (num % den)
  if r < den || (r == den && q % 2 == 0) then q else q + 1

/-- `num / den` in units of two to the `e`, as a quotient. -/
def scaleBinary (num den : Nat) (e : Int) : Nat × Nat :=
  if 0 ≤ e then (num, den * Nat.pow 2 e.toNat) else (num * Nat.pow 2 (-e).toNat, den)

/-- The number nearest to a signed quotient, a tie going to the even neighbour. -/
def ofRatio (negative : Bool) (num den : Nat) : Double :=
  if num = 0 then
    zero negative
  else
    let e : Int := (num.log2 : Int) - den.log2
    let (a, b) := scaleBinary num den e
    let unit := max (-1074) ((if b ≤ a then e else e - 1) - 52)
    let (a, b) := scaleBinary num den unit
    ofMagnitude negative ((unit + 1074).toNat * Nat.pow 2 52 + roundDiv a b)

def ofInt (n : Int) : Double :=
  ofRatio (n < 0) n.natAbs 1

def ofDecimal (negative : Bool) (digits : Nat) (exponent : Int) : Double :=
  let width : Int := (Nat.toDigits 10 digits).length
  if digits = 0 || width + exponent < -400 then
    zero negative
  else if 400 < width + exponent then
    infinity negative
  else if 0 ≤ exponent then
    ofRatio negative (digits * Nat.pow 10 exponent.toNat) 1
  else
    ofRatio negative digits (Nat.pow 10 (-exponent).toNat)

def isInt (x : Double) (n : Int) : Bool :=
  !x.isNaN && !x.isInfinite &&
    (let (num, den) := x.toRatio
     (if x.isNegative then -(num : Int) else num) == n * den)

def hex (x : Double) : String :=
  let digits := Nat.toDigits 16 x.bits.toNat
  String.ofList (List.replicate (16 - digits.length) '0' ++ digits)

end Double

end Colloquy

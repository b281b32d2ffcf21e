import Colloquy.Text.Basic

namespace Colloquy

namespace Calendar

def isLeap (year : Nat) : Bool :=
  (year % 4 == 0 && year % 100 != 0) || year % 400 == 0

def daysInMonth (year month : Nat) : Nat :=
  if month == 2 then (if isLeap year then 29 else 28)
  else if month == 4 || month == 6 || month == 9 || month == 11 then 30
  else 31

def isDay (year month day : Nat) : Bool :=
  1 ≤ year && year ≤ 9999 && 1 ≤ month && month ≤ 12 && 1 ≤ day && day ≤ daysInMonth year month

def daysBeforeYear (year : Nat) : Nat :=
  let y := year - 1
  365 * y + y / 4 - y / 100 + y / 400

/-- The weekday of the first of January, counted from Monday as zero. -/
def firstWeekday (year : Nat) : Nat :=
  daysBeforeYear year % 7

/-- A year has 53 weeks when it starts on a Thursday, or on a Wednesday before a leap day. -/
def weeksInYear (year : Nat) : Nat :=
  if firstWeekday year == 3 || (firstWeekday year == 2 && isLeap year) then 53 else 52

/-- How many days after the first of January the first week starts, which may be before it. -/
def firstMonday (year : Nat) : Int :=
  let w : Int := firstWeekday year
  if w ≤ 3 then -w else 7 - w

/-- The month and day that lie `offset` days after the first day of the given month. -/
def advance (year : Nat) : (months month offset : Nat) → Nat × Nat
  | 0, month, offset => (month, offset + 1)
  | months + 1, month, offset =>
    if offset < daysInMonth year month then (month, offset + 1)
    else advance year months (month + 1) (offset - daysInMonth year month)

def daysInYear (year : Nat) : Nat :=
  if isLeap year then 366 else 365

def fromYearStart (year : Nat) (offset : Int) : Nat × Nat × Nat :=
  if offset < 0 then
    let (month, day) := advance (year - 1) 11 1 ((daysInYear (year - 1) : Int) + offset).toNat
    (year - 1, month, day)
  else if offset < daysInYear year then
    let (month, day) := advance year 11 1 offset.toNat
    (year, month, day)
  else
    let (month, day) := advance (year + 1) 11 1 (offset - daysInYear year).toNat
    (year + 1, month, day)

end Calendar

structure Date where
  year : Nat
  month : Nat
  day : Nat
  isDay : Calendar.isDay year month day = true
deriving DecidableEq

namespace Date

def ofParts? (year month day : Nat) : Option Date :=
  if h : Calendar.isDay year month day = true then some ⟨year, month, day, h⟩ else none

/-- The date of a day of a week, both counted from one. Week one holds the first Thursday. -/
def ofWeek? (year week day : Nat) : Option Date :=
  if 1 ≤ year && 1 ≤ week && week ≤ Calendar.weeksInYear year && 1 ≤ day && day ≤ 7 then
    let offset := Calendar.firstMonday year + 7 * ((week : Int) - 1) + ((day : Int) - 1)
    let (y, m, d) := Calendar.fromYearStart year offset
    ofParts? y m d
  else none

def ordinal (d : Date) : Nat :=
  (d.year * 13 + d.month) * 32 + d.day

def le (a b : Date) : Bool :=
  a.ordinal ≤ b.ordinal

def readDigits? : (count acc : Nat) → List Char → Option (Nat × List Char)
  | 0, acc, cs => some (acc, cs)
  | count + 1, acc, c :: rest =>
    if c.isDigit then readDigits? count (10 * acc + (c.toNat - 48)) rest else none
  | _ + 1, _, [] => none

/-- Drops the hyphen that has to stand between parts when `separated`. -/
def skipHyphen? (separated : Bool) (cs : List Char) : Option (List Char) :=
  if separated then
    match cs with
    | '-' :: rest => some rest
    | _ => none
  else some cs

/-- A week, and a day of it that may be left out for its Monday. -/
def readWeekDate? (year : Nat) (separated : Bool) (cs : List Char) : Option Date := do
  let (week, rest) ← readDigits? 2 0 cs
  if rest.isEmpty then
    ofWeek? year week 1
  else
    let (day, _) ← readDigits? 1 0 (← skipHyphen? separated rest)
    ofWeek? year week day

def readMonthDate? (year : Nat) (separated : Bool) (cs : List Char) : Option Date := do
  let (month, rest) ← readDigits? 2 0 cs
  let (day, _) ← readDigits? 2 0 (← skipHyphen? separated rest)
  ofParts? year month day

/-- Reads a calendar or week date of 7, 8 or 10 bytes, with hyphens between all parts or none.
What follows the day within these bytes is not looked at. -/
def ofText? (text : String) : Option Date := do
  let size := text.utf8ByteSize
  if size != 7 && size != 8 && size != 10 then
    none
  else
    let (year, rest) ← readDigits? 4 0 text.toList
    let separated := rest.head? == some '-'
    let rest := if separated then rest.drop 1 else rest
    match rest with
    | 'W' :: rest => readWeekDate? year separated rest
    | _ => readMonthDate? year separated rest

def digits (width n : Nat) : List Char :=
  let ds := Nat.toDigits 10 n
  List.replicate (width - ds.length) '0' ++ ds

def text (d : Date) : String :=
  String.ofList (digits 4 d.year ++ '-' :: digits 2 d.month ++ '-' :: digits 2 d.day)

end Date

end Colloquy

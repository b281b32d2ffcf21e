namespace Colloquy.Text

/-- Space, the line and paragraph separators, and the control characters that separate fields. -/
def isBlank (c : Char) : Bool :=
  let n := c.toNat
  (9 ≤ n && n ≤ 13) || (28 ≤ n && n ≤ 32) || n == 0x85 || n == 0xa0 || n == 0x1680 ||
    (0x2000 ≤ n && n ≤ 0x200a) || n == 0x2028 || n == 0x2029 || n == 0x202f || n == 0x205f ||
    n == 0x3000

/-- Numerals may not be surrounded by the four control characters that separate fields. -/
def isNumeralBlank (c : Char) : Bool :=
  isBlank c && !(28 ≤ c.toNat && c.toNat ≤ 31)

def trimBoth (p : Char → Bool) (cs : List Char) : List Char :=
  ((cs.dropWhile p).reverse.dropWhile p).reverse

def strip (cs : List Char) : List Char :=
  trimBoth isBlank cs

theorem length_trimBoth_le (p : Char → Bool) (cs : List Char) :
    (trimBoth p cs).length ≤ cs.length := by
  have h (xs : List Char) : (xs.dropWhile p).length ≤ xs.length :=
    (List.dropWhile_suffix p).length_le
  simpa [trimBoth] using Nat.le_trans (h _) (by simpa using h cs)

theorem length_strip_le (cs : List Char) : (strip cs).length ≤ cs.length :=
  length_trimBoth_le isBlank cs

def hexDigits (width n : Nat) : List Char :=
  let digits := Nat.toDigits 16 n
  List.replicate (width - digits.length) '0' ++ digits

def escapeUnit (n : Nat) : List Char :=
  '\\' :: 'u' :: hexDigits 4 n

/-- A character beyond the first 65536 is written as a pair of surrogates. -/
def escapeByNumber (c : Char) : List Char :=
  let n := c.toNat
  if n < 0x10000 then
    escapeUnit n
  else
    escapeUnit (0xd800 + (n - 0x10000) / 0x400) ++ escapeUnit (0xdc00 + (n - 0x10000) % 0x400)

def shortEscape? : Char → Option Char
  | '"' => some '"'
  | '\\' => some '\\'
  | '\n' => some 'n'
  | '\r' => some 'r'
  | '\t' => some 't'
  | '\x08' => some 'b'
  | '\x0c' => some 'f'
  | _ => none

def quoteWith (plain : Char → Bool) (text : String) : String :=
  let body := text.toList.flatMap fun c =>
    match shortEscape? c with
    | some e => ['\\', e]
    | none => if plain c then [c] else escapeByNumber c
  String.ofList ('"' :: body ++ ['"'])

def quoteAscii (text : String) : String :=
  quoteWith (fun c => 32 ≤ c.toNat && c.toNat ≤ 126) text

def quoteUnicode (text : String) : String :=
  quoteWith (fun c => 32 ≤ c.toNat) text

end Colloquy.Text

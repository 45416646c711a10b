import Lox.Number.Decimal

/-!
# Numbers in text

`Numeral.read` reads a number as it may be written by hand: an optional sign, decimal digits with
an optional point and an optional power of ten, the same in base sixteen after `0x` with a power
of two, underscores between digits, and the names of infinity and of the undefined number in any
case.  `Numeral.ofDigits` reads the plain form that programs use, digits with an optional
fraction.  Every value is rounded to the nearest double.
-/

namespace Lox.Number

/-- What a text says about a number. -/
inductive Numeral where
  /-- The text stands for a double. -/
  | value (x : Float)
  /-- The text stands for a number beyond the largest double. -/
  | tooLarge (negative : Bool)
  /-- The text is no number. -/
  | malformed

namespace Numeral

/-- The number closest to what the text says: infinity if it is too large, zero if it is none. -/
def toFloat : Numeral → Float
  | value x => x
  | tooLarge negative => infinity negative
  | malformed => ofSignAndBits false 0

/-- The numeral with a sign and the bit pattern of an absolute value. -/
def ofBits (negative : Bool) (bits : Nat) : Numeral :=
  if bits < infinityBits then value (ofSignAndBits negative bits) else tooLarge negative

/-- The value of a digit in bases up to sixteen; other characters count as zero. -/
def digitValue (c : Char) : Nat :=
  if c.isDigit then c.toNat - '0'.toNat
  else if 'a' ≤ c ∧ c ≤ 'f' then c.toNat - 'a'.toNat + 10
  else if 'A' ≤ c ∧ c ≤ 'F' then c.toNat - 'A'.toNat + 10
  else 0

/-- The number that digits spell in a base. -/
def digitsValue (base : Nat) (digits : List Char) : Nat :=
  digits.foldl (fun n c => n * base + digitValue c) 0

/-- The numeral of a whole part and a fraction, both in decimal digits. -/
def ofDigits (whole fraction : List Char) : Numeral :=
  ofBits false (Decimal.toBits ⟨digitsValue 10 (whole ++ fraction), -fraction.length⟩)

/-! ## The written form -/

/-- A digit of the base. -/
def isDigitOf (base : Nat) (c : Char) : Bool :=
  c.isDigit || (base == 16 && (('a' ≤ c && c ≤ 'f') || ('A' ≤ c && c ≤ 'F')))

/-- Every underscore stands between two digits; `after` tells whether a digit comes just before
the text. -/
def separatesDigits (base : Nat) : (after : Bool) → List Char → Bool
  | _, [] => true
  | after, '_' :: rest =>
    after && (rest.head?.map (isDigitOf base)).getD false && separatesDigits base false rest
  | _, c :: rest => separatesDigits base (isDigitOf base c) rest

/-- The largest exponent that is still read on: further digits of an exponent are dropped. -/
def exponentCap : Nat := 10000

/-- The value of the digits of an exponent. -/
def exponentValue (digits : List Char) : Nat :=
  digits.foldl (fun n c => if n < exponentCap then n * 10 + digitValue c else n) 0

/-- The exponent after its letter: an optional sign and digits, to the end of the text. -/
def exponent? (cs : List Char) : Option Int :=
  let (negative, digits) := match cs with
    | '-' :: rest => (true, rest)
    | '+' :: rest => (false, rest)
    | rest => (false, rest)
  match digits with
  | d :: rest =>
    if d.isDigit && rest.all fun c => c.isDigit || c == '_' then
      let n : Int := exponentValue (digits.filter (· != '_'))
      some (if negative then -n else n)
    else none
  | [] => none

/-- The double of a mantissa with `places` digits after the point and an exponent, in base ten
with powers of ten or in base sixteen with powers of two. -/
def bitsOfParts (base mantissa places : Nat) (exponent : Int) : Nat :=
  if base = 16 then
    let e := exponent - 4 * places
    nearestBits (mantissa * Nat.pow 2 e.toNat) (Nat.pow 2 (-e).toNat)
  else
    Decimal.toBits ⟨mantissa, exponent - places⟩

/-- A number without sign: digits with at most one point, then an exponent after its letter, which
base sixteen requires. -/
def readUnsigned (negative : Bool) (base : Nat) (cs : List Char) : Numeral :=
  let isBody (c : Char) : Bool := isDigitOf base c || c == '_'
  let whole := cs.takeWhile isBody
  let afterWhole := cs.dropWhile isBody
  let (fraction, tail) := match afterWhole with
    | '.' :: rest => (rest.takeWhile isBody, rest.dropWhile isBody)
    | rest => ([], rest)
  let wholeDigits := whole.filter (· != '_')
  let fractionDigits := fraction.filter (· != '_')
  let letter := if base = 16 then 'p' else 'e'
  let exponent : Option Int := match tail with
    | [] => if base = 16 then none else some 0
    | c :: rest => if c.toLower == letter then exponent? rest else none
  match exponent with
  | none => malformed
  | some e =>
    if wholeDigits.isEmpty && fractionDigits.isEmpty then malformed
    else if !separatesDigits base (base == 16) cs then malformed
    else
      ofBits negative
        (bitsOfParts base (digitsValue base (wholeDigits ++ fractionDigits))
          fractionDigits.length e)

/-- The names of infinity, in lower case. -/
def infinityNames : List (List Char) := ["inf".toList, "infinity".toList]

/-- A number without its sign, in base sixteen after `0x`. -/
def readMagnitude (negative : Bool) (cs : List Char) : Numeral :=
  if infinityNames.contains (cs.map Char.toLower) then value (infinity negative)
  else match cs with
    | '0' :: x :: c :: rest =>
      if x.toLower == 'x' then readUnsigned negative 16 (c :: rest)
      else readUnsigned negative 10 cs
    | _ => readUnsigned negative 10 cs

/-- The number that a text stands for. -/
def read (s : String) : Numeral :=
  match s.toList with
  | '-' :: rest => readMagnitude true rest
  | '+' :: rest => readMagnitude false rest
  | cs =>
    if cs.map Char.toLower == "nan".toList then
      value (ofSignAndBits false (infinityBits + Nat.pow 2 51))
    else readMagnitude false cs

end Numeral

end Lox.Number

/-!
# Double precision numbers as fractions

A finite double is `mantissa · 2 ^ exponent` with a sign.  `Magnitude.ofBits` reads the two
numbers off the bit pattern, and `nearestBits` goes the other way: it is the bit pattern of the
double nearest to a fraction, with a tie going to the even mantissa.  Both work on exact natural
numbers.  Bit patterns without their sign grow with the number they stand for, so a fraction too
large for any double is one whose pattern reaches `infinityBits`.
-/

namespace Lox.Number

/-- The bit pattern of positive infinity. -/
def infinityBits : Nat := 0x7FF * Nat.pow 2 52

/-- The bit that marks a negative number. -/
def signBit : Nat := Nat.pow 2 63

/-- The least exponent of a double: `5e-324` is `1 · 2 ^ (-1074)`. -/
def leastExponent : Int := -1074

/-- The number `mantissa · 2 ^ exponent`. -/
structure Magnitude where
  mantissa : Nat
  exponent : Int
  deriving DecidableEq, Repr

/-- The absolute value of the finite double with a bit pattern; the sign is not looked at. -/
def Magnitude.ofBits (bits : Nat) : Magnitude :=
  let field : Nat := bits / Nat.pow 2 52 % Nat.pow 2 11
  let fraction : Nat := bits % Nat.pow 2 52
  if field = 0 then ⟨fraction, leastExponent⟩
  else ⟨Nat.pow 2 52 + fraction, leastExponent + field - 1⟩

/-- The numerator of a magnitude. -/
def Magnitude.num (x : Magnitude) : Nat := x.mantissa * Nat.pow 2 x.exponent.toNat

/-- The denominator of a magnitude. -/
def Magnitude.den (x : Magnitude) : Nat := Nat.pow 2 (-x.exponent).toNat

/-- The natural number nearest to `num / den`; a half goes to the even neighbour. -/
def roundHalfEven (num den : Nat) : Nat :=
  let q := num / den
  let r := num % den
  if 2 * r < den then q else if den < 2 * r then q + 1 else q + q % 2

/-- The exponent of the largest power of two that is at most `num / den`. -/
def floorLog2 (num den : Nat) : Int :=
  let k : Int := (num.log2 : Int) - den.log2
  if den * Nat.pow 2 k.toNat ≤ num * Nat.pow 2 (-k).toNat then k else k - 1

/-- The bit pattern of the double nearest to `num / den`, from `infinityBits` on if there is
none. -/
def nearestBits (num den : Nat) : Nat :=
  if num = 0 then 0
  else
    let e := max (floorLog2 num den - 52) leastExponent
    let q := roundHalfEven (num * Nat.pow 2 (-e).toNat) (den * Nat.pow 2 e.toNat)
    (e - leastExponent).toNat * Nat.pow 2 52 + q

/-- The double with a sign and the bit pattern of an absolute value. -/
def ofSignAndBits (negative : Bool) (bits : Nat) : Float :=
  Float.ofBits (UInt64.ofNat (if negative then signBit + bits else bits))

/-- Positive or negative infinity. -/
def infinity (negative : Bool) : Float :=
  ofSignAndBits negative infinityBits

/-- The bit pattern of a double as a natural number. -/
def bitsOf (x : Float) : Nat :=
  x.toBits.toNat

/-- The sign bit of a double is set. -/
def isNegative (x : Float) : Bool :=
  signBit ≤ bitsOf x

/-- The bit pattern of the absolute value of a double. -/
def absBits (x : Float) : Nat :=
  bitsOf x % signBit

end Lox.Number

import Lox.Number.Double

/-!
# Decimal numbers and the text of a double

The text of a double is the shortest decimal that reads back as the same double, the nearest one
if several are equally short, the one with the even last digit if two are equally near.  It is
written positionally, without an exponent and without a fraction of zeros.

`Decimal.shortest` looks for it on coarser grids before finer ones.  A grid is the set of the
multiples of a power of ten, and on each grid only the two neighbours of the double can be the
answer.  The first grid on which a neighbour reads back wins, so the text reads back by
construction; should none of the grids tried have one, the exact expansion is left, which reads
back because it is the number itself.
-/

namespace Lox.Number

/-- The number `digits · 10 ^ exponent`. -/
structure Decimal where
  digits : Nat
  exponent : Int
  deriving DecidableEq, Repr

namespace Decimal

/-- The numerator of a decimal. -/
def num (d : Decimal) : Nat := d.digits * Nat.pow 10 d.exponent.toNat

/-- The denominator of a decimal. -/
def den (d : Decimal) : Nat := Nat.pow 10 (-d.exponent).toNat

/-- The bit pattern of the double that a decimal reads as. -/
def toBits (d : Decimal) : Nat := nearestBits d.num d.den

/-- The decimal that is exactly a magnitude, from `m · 2 ^ (-k) = m · 5 ^ k · 10 ^ (-k)`. -/
def exact (x : Magnitude) : Decimal :=
  ⟨x.num * Nat.pow 5 (-x.exponent).toNat, min x.exponent 0⟩

/-- The better of the two neighbours of `x` on the grid of the multiples of `10 ^ grid`, among
those that read back as `bits`. -/
def onGrid? (x : Magnitude) (bits : Nat) (grid : Int) : Option Decimal :=
  let num := x.num * Nat.pow 10 (-grid).toNat
  let den := x.den * Nat.pow 10 grid.toNat
  let below : Decimal := ⟨num / den, grid⟩
  let above : Decimal := ⟨num / den + 1, grid⟩
  match below.toBits == bits, above.toBits == bits with
  | true, true => some (if roundHalfEven num den = num / den then below else above)
  | true, false => some below
  | false, true => some above
  | false, false => none

/-- The first hit on `grid` and the `count` finer grids after it. -/
def search? (x : Magnitude) (bits : Nat) : (count : Nat) → (grid : Int) → Option Decimal
  | 0, grid => onGrid? x bits grid
  | count + 1, grid =>
    match onGrid? x bits grid with
    | some d => some d
    | none => search? x bits count (grid - 1)

/-- The number of grids to try below the first. -/
def gridCount : Nat := 360

/-- The shortest decimal that reads back as the positive double with bit pattern `bits`. -/
def shortest (bits : Nat) : Decimal :=
  let x := Magnitude.ofBits bits
  let whole := (Nat.toDigits 10 (x.num / x.den)).length
  (search? x bits gridCount whole).getD (exact x)

/-- A decimal in positional notation: the digits with the point at its place, filled up with
zeros on either side. -/
def text (d : Decimal) : List Char :=
  let digits := Nat.toDigits 10 d.digits
  let places := (-d.exponent).toNat
  if places = 0 then digits ++ List.replicate d.exponent.toNat '0'
  else
    let padded := List.replicate (places + 1 - digits.length) '0' ++ digits
    let whole := padded.length - places
    padded.take whole ++ '.' :: padded.drop whole

end Decimal

/-- The text of a double: `NaN`, `+Inf`, `-Inf`, or the shortest decimal that reads back. -/
def text (x : Float) : String :=
  let bits := absBits x
  let sign := if isNegative x then ['-'] else []
  if infinityBits < bits then "NaN"
  else if bits = infinityBits then if isNegative x then "-Inf" else "+Inf"
  else if bits = 0 then String.ofList (sign ++ ['0'])
  else String.ofList (sign ++ (Decimal.shortest bits).text)

end Lox.Number

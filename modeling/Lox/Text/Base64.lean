/-!
# Bytes in base sixty-four

Four characters of the alphabet stand for three bytes.  A shorter group at the end stands for one
or two bytes and is filled up to four characters with `=`.  Line ends may stand anywhere, and the
bits that a last group has left are ignored.
-/

namespace Lox.Text.Base64

/-- The value of a character of the alphabet. -/
def value? (c : Char) : Option Nat :=
  if 'A' ≤ c ∧ c ≤ 'Z' then some (c.toNat - 'A'.toNat)
  else if 'a' ≤ c ∧ c ≤ 'z' then some (c.toNat - 'a'.toNat + 26)
  else if '0' ≤ c ∧ c ≤ '9' then some (c.toNat - '0'.toNat + 52)
  else if c = '+' then some 62
  else if c = '/' then some 63
  else none

/-- The bytes that values below sixty-four stand for, four values at a time. -/
def bytes : List Nat → List UInt8
  | a :: b :: c :: d :: rest =>
    UInt8.ofNat (a * 4 + b / 16) :: UInt8.ofNat (b % 16 * 16 + c / 4) ::
      UInt8.ofNat (c % 4 * 64 + d) :: bytes rest
  | [a, b, c] => [UInt8.ofNat (a * 4 + b / 16), UInt8.ofNat (b % 16 * 16 + c / 4)]
  | [a, b] => [UInt8.ofNat (a * 4 + b / 16)]
  | _ => []

/-- The bytes that a text stands for; none if it has another character or is filled up wrongly. -/
def decode? (text : String) : Option (List UInt8) :=
  let cs := text.toList.filter fun c => c != '\n' && c != '\r'
  let fill := (cs.reverse.takeWhile (· == '=')).length
  if 2 < fill || cs.length % 4 != 0 then none
  else ((cs.take (cs.length - fill)).mapM value?).map bytes

end Lox.Text.Base64

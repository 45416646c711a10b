import Lox.Text.Printable

/-!
# Quoted text

A character or a text between quotes, in which the quote itself and the backslash carry a
backslash, printable characters stand for themselves, seven control characters have a letter and
every other character is a hexadecimal escape of two, four or eight digits.
-/

namespace Lox.Text.Quoted

/-- The last `width` hexadecimal digits of a number, in lower case. -/
def hexDigits : Nat → Nat → List Char
  | 0, _ => []
  | width + 1, n => hexDigits width (n / 16) ++ [Nat.digitChar (n % 16)]

/-- The letter of a control character that has one. -/
def letter? (c : Char) : Option Char :=
  match c.toNat with
  | 0x07 => some 'a'
  | 0x08 => some 'b'
  | 0x09 => some 't'
  | 0x0A => some 'n'
  | 0x0B => some 'v'
  | 0x0C => some 'f'
  | 0x0D => some 'r'
  | _ => none

/-- A character as it is written between two `quote`s. -/
def escape (quote c : Char) : List Char :=
  if c = quote ∨ c = '\\' then ['\\', c]
  else if isPrintable c then [c]
  else match letter? c with
    | some l => ['\\', l]
    | none =>
      if c.toNat < 0x80 then '\\' :: 'x' :: hexDigits 2 c.toNat
      else if c.toNat < 0x10000 then '\\' :: 'u' :: hexDigits 4 c.toNat
      else '\\' :: 'U' :: hexDigits 8 c.toNat

/-- The quote around a text. -/
def quotationMark : Char := '\x22'

/-- The quote around a single character. -/
def apostrophe : Char := '\x27'

/-- A text between double quotes. -/
def text (s : String) : String :=
  String.ofList (quotationMark :: s.toList.flatMap (escape quotationMark) ++ [quotationMark])

/-- A character between single quotes. -/
def char (c : Char) : String :=
  String.ofList (apostrophe :: escape apostrophe c ++ [apostrophe])

end Lox.Text.Quoted

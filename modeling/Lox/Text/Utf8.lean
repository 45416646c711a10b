/-!
# Text as bytes

Sources, scripts and settings arrive as bytes, and strings of the language are compared byte by
byte.  `decode` reads bytes as text and never fails: a byte that belongs to no well-formed
sequence stands for U+FFFD on its own.  `bytes` is the encoding of a text, `size` its length and
`order` the byte order on texts.
-/

namespace Lox.Text.Utf8

/-- The character that stands for a byte no well-formed sequence contains. -/
def replacement : Char := '\uFFFD'

/-- A continuation byte with its six payload bits. -/
def payload? (low high : Nat) (b : UInt8) : Option Nat :=
  if low ≤ b.toNat ∧ b.toNat ≤ high then some (b.toNat % 64) else none

/-- The character that `lead` and the bytes after it spell, with the number of bytes it takes
after `lead`; `none` if no well-formed sequence starts here. -/
def sequence? (lead : UInt8) (rest : List UInt8) : Option (Char × Nat) :=
  let a := lead.toNat
  if a < 0x80 then
    some (Char.ofNat a, 0)
  else if 0xC2 ≤ a ∧ a ≤ 0xDF then do
    let b ← rest.head? >>= payload? 0x80 0xBF
    return (Char.ofNat ((a - 0xC0) * 64 + b), 1)
  else if 0xE0 ≤ a ∧ a ≤ 0xEF then do
    let low := if a = 0xE0 then 0xA0 else 0x80
    let high := if a = 0xED then 0x9F else 0xBF
    let b ← rest.head? >>= payload? low high
    let c ← rest[1]? >>= payload? 0x80 0xBF
    return (Char.ofNat ((a - 0xE0) * 4096 + b * 64 + c), 2)
  else if 0xF0 ≤ a ∧ a ≤ 0xF4 then do
    let low := if a = 0xF0 then 0x90 else 0x80
    let high := if a = 0xF4 then 0x8F else 0xBF
    let b ← rest.head? >>= payload? low high
    let c ← rest[1]? >>= payload? 0x80 0xBF
    let d ← rest[2]? >>= payload? 0x80 0xBF
    return (Char.ofNat ((a - 0xF0) * 262144 + b * 4096 + c * 64 + d), 3)
  else
    none

/-- The characters that a list of bytes spells, one `replacement` for each byte that belongs to
no well-formed sequence. -/
def decode : List UInt8 → List Char
  | [] => []
  | lead :: rest =>
    match sequence? lead rest with
    | some (c, n) => c :: decode (rest.drop n)
    | none => replacement :: decode rest
termination_by bytes => bytes.length
decreasing_by
  all_goals simp only [List.length_drop, List.length_cons]; omega

/-- The text that a list of bytes spells. -/
def decodeText (bytes : List UInt8) : String :=
  String.ofList (decode bytes)

/-- The encoding of a text. -/
def bytes (s : String) : List UInt8 :=
  s.toList.flatMap String.utf8EncodeChar

/-- The number of bytes in the encoding of a text. -/
def size (s : String) : Nat :=
  s.utf8ByteSize

/-- Lexicographic order on byte sequences; a proper initial part comes first. -/
def orderBytes : List UInt8 → List UInt8 → Ordering
  | [], [] => .eq
  | [], _ :: _ => .lt
  | _ :: _, [] => .gt
  | a :: as, b :: bs => if a < b then .lt else if b < a then .gt else orderBytes as bs

/-- The order of two texts by the bytes of their encodings. -/
def order (s t : String) : Ordering :=
  orderBytes (bytes s) (bytes t)

/-- `s` does not come after `t` in the byte order. -/
def le (s t : String) : Bool :=
  order s t != .gt

end Lox.Text.Utf8

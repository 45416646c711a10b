import Lox.Number.Numeral
import Lox.Text.Base64
import Lox.Text.Utf8
import Lox.Yaml.Node

/-!
# The types of scalars

A plain scalar is read as null, a truth value, an integer, a floating point number or a point in
time if it looks like one, and as a string otherwise.  A scalar in quotes is a string.  A tag for
one of these types is a promise about the look of the scalar; with any other tag it is a string.
-/

namespace Lox.Yaml

/-- The type of a scalar. -/
inductive ScalarType where
  | null | bool (value : Bool) | integer | float | timestamp | string
  deriving DecidableEq, Repr

namespace ScalarType

/-- The tag of a type. -/
def tag : ScalarType → String
  | null => "!!null"
  | bool _ => "!!bool"
  | integer => "!!int"
  | float => "!!float"
  | timestamp => "!!timestamp"
  | string => "!!str"

/-- The scalars that are types by name. -/
def named? (s : String) : Option ScalarType :=
  if ["", "~", "null", "Null", "NULL"].contains s then some null
  else if ["true", "True", "TRUE"].contains s then some (bool true)
  else if ["false", "False", "FALSE"].contains s then some (bool false)
  else if [".nan", ".NaN", ".NAN", ".inf", ".Inf", ".INF", "+.inf", "+.Inf", "+.INF", "-.inf",
      "-.Inf", "-.INF"].contains s then some float
  else none

/-! ## Integers -/

/-- The digits of an integer behind its sign, with the base that they are written in. -/
def baseAndDigits (cs : List Char) : Nat × List Char :=
  match cs with
  | '0' :: x :: rest =>
    if x == 'x' || x == 'X' then (16, rest)
    else if x == 'o' || x == 'O' then (8, rest)
    else if x == 'b' || x == 'B' then (2, rest)
    else (8, x :: rest)
  | _ => (10, cs)

/-- The value of a digit that the base has. -/
def digitIn? (base : Nat) (c : Char) : Option Nat :=
  if Number.Numeral.isDigitOf 16 c && Number.Numeral.digitValue c < base then
    some (Number.Numeral.digitValue c)
  else none

/-- The number that an unsigned integer stands for. -/
def magnitude? (cs : List Char) : Option Nat :=
  let (base, digits) := baseAndDigits cs
  if digits.isEmpty then none
  else digits.foldl
    (fun n? c => n?.bind fun n => (digitIn? base c).map fun d => n * base + d) (some 0)

/-- The scalar, without underscores, is an integer of 64 bits, one of them for the sign. -/
def isSigned (cs : List Char) : Bool :=
  match cs with
  | '-' :: rest => (magnitude? rest).any fun n => n ≤ Nat.pow 2 63
  | '+' :: rest => (magnitude? rest).any fun n => n < Nat.pow 2 63
  | _ => (magnitude? cs).any fun n => n < Nat.pow 2 63

/-- The scalar is an integer in base two or eight with its sign behind the mark of the base. -/
def isInnerSigned (cs : List Char) : Bool :=
  match cs with
  | '0' :: base :: sign :: digits =>
    (base == 'b' || base == 'o') && (sign == '+' || sign == '-') &&
      isSigned (sign :: '0' :: base :: digits)
  | _ => false

/-- The scalar, without underscores, is an integer of at most 64 bits. -/
def isInteger (cs : List Char) : Bool :=
  isSigned cs || isInnerSigned cs || (magnitude? cs).any fun n => n < Nat.pow 2 64

/-! ## Floating point numbers -/

/-- The rest of a float behind its digits: nothing, or an exponent. -/
def isExponent (cs : List Char) : Bool :=
  match cs with
  | [] => true
  | e :: rest =>
    let digits := match rest with
      | '-' :: ds => ds
      | '+' :: ds => ds
      | ds => ds
    (e == 'e' || e == 'E') && !digits.isEmpty && digits.all Char.isDigit

/-- A float behind its sign: digits with an optional point, then an optional exponent. -/
def isFloatBody (cs : List Char) : Bool :=
  let whole := cs.takeWhile Char.isDigit
  match cs.dropWhile Char.isDigit with
  | '.' :: rest =>
    let fraction := rest.takeWhile Char.isDigit
    !(whole.isEmpty && fraction.isEmpty) && isExponent (rest.dropWhile Char.isDigit)
  | rest => !whole.isEmpty && isExponent rest

/-- The scalar is a floating point number that is not too large. -/
def isFloat (cs : List Char) : Bool :=
  let body := match cs with
    | '-' :: rest => rest
    | '+' :: rest => rest
    | rest => rest
  isFloatBody body && match Number.Numeral.read (String.ofList cs) with
    | .value _ => true
    | _ => false

/-- The scalar starts with a point and is any number. -/
def isPointNumber (cs : List Char) : Bool :=
  match Number.Numeral.read (String.ofList cs) with
  | .value _ => true
  | _ => false

/-! ## Points in time -/

/-- One or two digits with a value in a range, and what follows them. -/
def shortNumber? (low high : Nat) (cs : List Char) : Option (Nat × List Char) :=
  let take (n : Nat) : Option (Nat × List Char) :=
    let value := Number.Numeral.digitsValue 10 (cs.take n)
    if low ≤ value ∧ value ≤ high then some (value, cs.drop n) else none
  match cs with
  | a :: b :: _ =>
    if a.isDigit && b.isDigit then take 2 else if a.isDigit then take 1 else none
  | [a] => if a.isDigit then take 1 else none
  | [] => none

/-- A certain character, and what follows it. -/
def expect? (x : Char) (cs : List Char) : Option (List Char) :=
  match cs with
  | c :: rest => if c == x then some rest else none
  | [] => none

/-- The number of days in a month. -/
def daysIn (year month : Nat) : Nat :=
  if month = 2 then
    if year % 4 = 0 ∧ (year % 100 ≠ 0 ∨ year % 400 = 0) then 29 else 28
  else if month = 4 ∨ month = 6 ∨ month = 9 ∨ month = 11 then 30
  else 31

/-- A date, and what follows it. -/
def date? (cs : List Char) : Option (List Char) := do
  let year := cs.takeWhile Char.isDigit
  if year.length ≠ 4 then none
  let rest ← expect? '-' (cs.drop 4)
  let (month, rest) ← shortNumber? 1 12 rest
  let rest ← expect? '-' rest
  let (_, rest) ← shortNumber? 1 (daysIn (Number.Numeral.digitsValue 10 year) month) rest
  return rest

/-- A time of day, and what follows it. -/
def time? (cs : List Char) : Option (List Char) := do
  let (_, rest) ← shortNumber? 0 23 cs
  let rest ← expect? ':' rest
  let (_, rest) ← shortNumber? 0 59 rest
  let rest ← expect? ':' rest
  let (_, rest) ← shortNumber? 0 59 rest
  match rest with
  | point :: d :: more =>
    if (point == '.' || point == ',') && d.isDigit then some (more.dropWhile Char.isDigit)
    else some rest
  | _ => some rest

/-- A time zone: `Z`, or hours and minutes before or after. -/
def isZone (cs : List Char) : Bool :=
  match cs with
  | ['Z'] => true
  | [sign, a, b, ':', c, d] =>
    (sign == '+' || sign == '-') && [a, b, c, d].all Char.isDigit &&
      Number.Numeral.digitsValue 10 [a, b] ≤ 24 && Number.Numeral.digitsValue 10 [c, d] ≤ 60
  | _ => false

/-- The scalar is a date, alone or with a time of day: behind spaces without a zone, or behind a `T`
with one. -/
def isTimestamp (cs : List Char) : Bool :=
  match date? cs with
  | none => false
  | some [] => true
  | some (x :: rest) =>
    if x == ' ' then (time? (rest.dropWhile (· == ' '))).any List.isEmpty
    else (x == 'T' || x == 't') && (time? rest).any isZone

/-! ## The type of a plain scalar -/

/-- The type that a plain scalar looks like. -/
def ofPlain (s : String) : ScalarType :=
  match named? s with
  | some t => t
  | none =>
    match s.toList with
    | [] => null
    | c :: rest =>
      if c == '.' then if isPointNumber (c :: rest) then float else string
      else if c.isDigit || c == '+' || c == '-' then
        let plain := (c :: rest).filter (· != '_')
        if isTimestamp (c :: rest) then timestamp
        else if isInteger plain then integer
        else if isFloat plain then float
        else string
      else string

end ScalarType

namespace Node

/-- The line of a node. -/
def line : Node → Nat
  | scalar l _ _ _ | sequence l _ _ | mapping l _ _ | reference l _ _ _ => l

/-- The node itself, or the one that it refers to. -/
def target : Node → Node
  | reference _ _ _ target => target.target
  | n => n

/-- A tag that says something; a lone exclamation mark does not. -/
def writtenTag (tag : Option String) : Option String :=
  tag.filter (· != "!")

/-- The tags that only fit a scalar that looks like them. -/
def checkedTags : List String := ["!!null", "!!bool", "!!int", "!!float", "!!timestamp"]

/-- The type of a scalar whose tag only fits what looks like it; a small integer fits the tag of
floating point numbers too. -/
def checkedType (tag value : String) : Except Malformed ScalarType :=
  let looks := ScalarType.ofPlain value
  let digits := value.toList.filter (· != '_')
  let isSmall := ScalarType.isSigned digits || ScalarType.isInnerSigned digits
  if looks.tag == tag then .ok looks
  else if tag == "!!float" && looks = .integer && isSmall then .ok .float
  else .error ⟨"cannot decode " ++ looks.tag ++ " \x60" ++ value ++ "\x60 as a " ++ tag, 0, 0⟩

/-- What a scalar means: its type and its text. -/
def content (tag : Option String) (style : Style) (value : String) :
    Except Malformed (ScalarType × String) :=
  match writtenTag tag with
  | none => .ok (if style = .quoted then .string else .ofPlain value, value)
  | some t =>
    if t == "!!binary" then
      match Text.Base64.decode? value with
      | some bytes => .ok (.string, Text.Utf8.decodeText bytes)
      | none => .error ⟨"!!binary value contains invalid base64 data", 0, 0⟩
    else if checkedTags.contains t then (checkedType t value).map fun type => (type, value)
    else .ok (.string, value)

/-- The tag of the key under which a mapping names others that it takes entries from. -/
def mergeTag : String := "!!merge"

/-- That key. -/
def mergeKey : String := "<<"

/-- The tag that a node has, as written or by its form. -/
def tagText : Node → String
  | scalar _ tag style value =>
    (writtenTag tag).getD
      (if style = .quoted then ScalarType.string.tag
        else if value == mergeKey then mergeTag
        else (ScalarType.ofPlain value).tag)
  | sequence _ tag _ => (writtenTag tag).getD "!!seq"
  | mapping _ tag _ => (writtenTag tag).getD "!!map"
  | reference _ _ _ target => target.tagText

/-- The node is null by its tag. -/
def isNullTagged (n : Node) : Bool := n.tagText == ScalarType.null.tag

/-- The node is a key under which other mappings are named. -/
def isMerge (n : Node) : Bool :=
  match n with
  | scalar _ _ _ value => value == mergeKey && n.tagText == mergeTag
  | _ => false

/-- The text of a scalar as a message shows it: of more than ten bytes only the first seven. -/
def excerpt (value : String) : String :=
  if 10 < Text.Utf8.size value then
    Text.Utf8.decodeText ((Text.Utf8.bytes value).take 7) ++ "..."
  else value

/-- A node that does not fit what is wanted, as it is reported.  The text is shown too, unless the
tag says that there is none. -/
def mismatch (n : Node) (wanted : String) : String :=
  let value := match n with
    | scalar _ _ _ value => value
    | _ => ""
  let shown :=
    if n.tagText == "!!seq" || n.tagText == "!!map" then value
    else " \x60" ++ excerpt value ++ "\x60"
  "line " ++ toString n.line ++ ": cannot unmarshal " ++ n.tagText ++ shown ++ " into " ++ wanted

end Node

end Lox.Yaml

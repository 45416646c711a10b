/-!
# Reading positions in a settings file

A cursor is a place in a text: what is left to read, the number of characters before it, and its
line and column, all counted from zero.
-/

namespace Lox.Yaml

/-- Why a text is no YAML.  The line of what was being read is named if it is not the first line,
otherwise the line of the problem is. -/
structure Malformed where
  problem : String
  contextLine : Nat
  problemLine : Nat

/-- The wording of a malformed text. -/
def Malformed.text (m : Malformed) : String :=
  let line := if m.contextLine ≠ 0 then m.contextLine else m.problemLine
  let place := if line = 0 then "" else "line " ++ toString line ++ ": "
  "yaml: " ++ place ++ m.problem

/-- A space or a tab. -/
def isBlank (c : Char) : Bool := c == ' ' || c == '\t'

/-- The end of a line. -/
def isBreak (c : Char) : Bool :=
  c == '\r' || c == '\n' || c == '\u0085' || c == '\u2028' || c == '\u2029'

/-- A blank, the end of a line or the end of the text. -/
def isGap : Option Char → Bool
  | none => true
  | some c => isBlank c || isBreak c

/-- A character that may stand in a text at all. -/
def isAllowed (c : Char) : Bool :=
  let n := c.toNat
  n == 0x09 || n == 0x0A || n == 0x0D || (0x20 ≤ n && n ≤ 0x7E) || n == 0x85 ||
    (0xA0 ≤ n && n ≤ 0xFFFD) || 0x10000 ≤ n

/-- A place in a text. -/
structure Cursor where
  rest : List Char
  index : Nat
  line : Nat
  column : Nat

namespace Cursor

/-- The start of a text; a byte order mark is passed over. -/
def ofText (cs : List Char) : Cursor :=
  match cs with
  | '\uFEFF' :: rest => ⟨rest, 0, 0, 0⟩
  | rest => ⟨rest, 0, 0, 0⟩

/-- The next character. -/
def next? (c : Cursor) : Option Char := c.rest.head?

/-- The character `n` places ahead. -/
def ahead? (c : Cursor) (n : Nat) : Option Char := c.rest[n]?

/-- Passes over characters that are no line ends. -/
def skip (c : Cursor) (n : Nat) : Cursor :=
  ⟨c.rest.drop n, c.index + n, c.line, c.column + n⟩

/-- Passes over one line end; a carriage return takes the line feed behind it along. -/
def skipBreak (c : Cursor) : Cursor :=
  match c.rest with
  | '\r' :: '\n' :: rest => ⟨rest, c.index + 2, c.line + 1, 0⟩
  | _ :: rest => ⟨rest, c.index + 1, c.line + 1, 0⟩
  | [] => c

/-- What the line end in front means as text. -/
def breakText (c : Cursor) : List Char :=
  match c.rest with
  | '\u2028' :: _ => ['\u2028']
  | '\u2029' :: _ => ['\u2029']
  | _ => ['\n']

/-- Passes over spaces and tabs. -/
def skipBlanks (c : Cursor) : Cursor := c.skip (c.rest.takeWhile isBlank).length

/-- Passes over the rest of the line. -/
def skipLine (c : Cursor) : Cursor := c.skip (c.rest.takeWhile fun x => !isBreak x).length

/-- Passes over blanks and line ends. -/
def skipGap : (fuel : Nat) → Cursor → Cursor
  | 0, c => c
  | fuel + 1, c =>
    match c.next? with
    | none => c
    | some x =>
      if isBlank x then skipGap fuel (c.skip 1)
      else if isBreak x then skipGap fuel c.skipBreak
      else c

/-- How far a comment looks for another one. -/
def commentReach : Nat := 512

/-- The number of characters up to the next comment, if between the end of this line and that
comment there are only blanks and plain line ends, and not too many of them. -/
def nextComment? (c : Cursor) : Option Nat :=
  let isPlainGap (x : Char) : Bool := isBlank x || x == '\n' || x == '\r'
  match c.rest with
  | x :: rest =>
    let width := (rest.takeWhile isPlainGap).length + 1
    let found := width < commentReach && c.rest[width]? == some '#'
    if found && (x == '\n' || x == '\r') then some width else none
  | [] => none

/-- Passes over a comment, and with it over the comments behind it that nothing separates from it
but blanks and line ends.  Where it stops there is a line end, or nothing more. -/
def skipComments : (fuel : Nat) → Cursor → Cursor
  | 0, c => c
  | fuel + 1, c =>
    let c := c.skipLine
    match c.nextComment? with
    | some width => skipComments fuel (c.skipGap width)
    | none => c

/-- Passes over a comment on the rest of the line, if there is one. -/
def skipLineComment (c : Cursor) : Cursor :=
  let width := (c.rest.takeWhile isBlank).length
  if width < commentReach && c.rest[width]? == some '#' then c.skipLine else c

/-- The next character is the end of a line. -/
def atBreak (c : Cursor) : Bool := (c.next?.map isBreak).getD false

/-- The next character is a space or a tab. -/
def atBlank (c : Cursor) : Bool := (c.next?.map isBlank).getD false

/-- A mark of three characters at the start of a line, with a gap behind it. -/
def atMark (c : Cursor) (mark : Char) : Bool :=
  c.column == 0 && c.rest.take 3 == [mark, mark, mark] && isGap (c.ahead? 3)

/-- The start or the end of a document. -/
def atDocumentMark (c : Cursor) : Bool := c.atMark '-' || c.atMark '.'

/-- The text cannot be read on from here; `start` is the line of what was being read. -/
def malformed (c : Cursor) (start : Nat) (problem : String) : Malformed :=
  let shift (n : Nat) : Nat := if n = 0 then 0 else n + 1
  ⟨problem, shift start, shift c.line⟩

end Cursor

end Lox.Yaml

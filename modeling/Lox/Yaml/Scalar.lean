import Lox.Number.Numeral
import Lox.Yaml.Cursor

/-!
# Scalars of a settings file

The four ways to write a scalar: plain, in single or double quotes, and as a block.  Line ends
inside the first three are folded: one becomes a space, and of several the first is dropped.  In
each case the text of the scalar is read together with the place behind it.
-/

namespace Lox.Yaml

/-- What was passed over since the last character of a scalar. -/
inductive Gap where
  | blanks (text : List Char)
  /-- The first line end and those after it. -/
  | lines (first more : List Char)

namespace Gap

/-- No gap. -/
def empty : Gap := blanks []

/-- What a gap inside a scalar means as text. -/
def fold : Gap → List Char
  | blanks text => text
  | lines first more =>
    if first == ['\n'] then if more.isEmpty then [' '] else more else first ++ more

/-- The gap holds a line end. -/
def hasLine : Gap → Bool
  | blanks _ => false
  | lines _ _ => true

end Gap

/-- Passes over blanks and line ends; the tabs among the blanks at the start of a line have to
stand at the column `indent` or behind it. -/
def readGap (indent start : Nat) : (fuel : Nat) → Cursor → Gap → Except Malformed (Cursor × Gap)
  | 0, c, gap => .ok (c, gap)
  | fuel + 1, c, gap =>
    match c.next? with
    | none => .ok (c, gap)
    | some x =>
      if isBlank x then
        match gap with
        | .blanks text => readGap indent start fuel (c.skip 1) (.blanks (text ++ [x]))
        | .lines _ _ =>
          if x == '\t' && c.column < indent then
            .error (c.malformed start "found a tab character that violates indentation")
          else readGap indent start fuel (c.skip 1) gap
      else if isBreak x then
        match gap with
        | .blanks _ => readGap indent start fuel c.skipBreak (.lines c.breakText [])
        | .lines first more =>
          readGap indent start fuel c.skipBreak (.lines first (more ++ c.breakText))
      else .ok (c, gap)

/-! ## Plain scalars -/

/-- A character that ends a plain scalar in a flow collection. -/
def endsPlainInFlow (c : Char) : Bool :=
  c == ',' || c == '?' || c == '[' || c == ']' || c == '\x7b' || c == '\x7d'

/-- The number of characters of a plain scalar up to the next gap or indicator. -/
def plainWidth (inFlow : Bool) : List Char → Nat
  | [] => 0
  | c :: rest =>
    if isBlank c || isBreak c then 0
    else if c == ':' && isGap rest.head? then 0
    else if inFlow && endsPlainInFlow c then 0
    else plainWidth inFlow rest + 1

/-- A plain scalar whose later lines stand at the column `indent` or behind it: its text, and the
gap behind it. -/
def readPlain (inFlow : Bool) (indent start : Nat) :
    (fuel : Nat) → Cursor → List Char → Gap → Except Malformed (List Char × Cursor × Gap)
  | 0, c, text, gap => .ok (text, c, gap)
  | fuel + 1, c, text, gap =>
    let width := plainWidth inFlow c.rest
    if c.atDocumentMark || c.next? == some '#' || width == 0 then .ok (text, c, gap)
    else do
      let text := text ++ gap.fold ++ c.rest.take width
      let behind := c.skip width
      if behind.atBlank || behind.atBreak then
        let (c, gap) ← readGap indent start (behind.rest.length + 1) behind .empty
        if !inFlow && c.column < indent then return (text, c, gap)
        else readPlain inFlow indent start fuel c text gap
      else return (text, behind, .empty)

/-! ## Quoted scalars -/

/-- The character that a letter stands for behind a backslash. -/
def escaped? (c : Char) : Option Char :=
  match c with
  | '0' => some '\x00'
  | 'a' => some '\x07'
  | 'b' => some '\x08'
  | 't' | '\t' => some '\t'
  | 'n' => some '\n'
  | 'v' => some '\x0b'
  | 'f' => some '\x0c'
  | 'r' => some '\r'
  | 'e' => some '\x1b'
  | ' ' => some ' '
  | '\x22' => some '\x22'
  | '\x27' => some '\x27'
  | '\\' => some '\\'
  | 'N' => some '\u0085'
  | '_' => some '\u00a0'
  | 'L' => some '\u2028'
  | 'P' => some '\u2029'
  | _ => none

/-- The number of hexadecimal digits behind a letter that starts a code. -/
def codeWidth? (c : Char) : Option Nat :=
  match c with
  | 'x' => some 2
  | 'u' => some 4
  | 'U' => some 8
  | _ => none

/-- An escape in double quotes: its text, and the number of characters it takes. -/
def readEscape (start : Nat) (c : Cursor) : Except Malformed (List Char × Nat) :=
  match c.ahead? 1 with
  | none => .error (c.malformed start "found unknown escape character")
  | some letter =>
    match escaped? letter, codeWidth? letter with
    | some x, _ => .ok ([x], 2)
    | none, none => .error (c.malformed start "found unknown escape character")
    | none, some width =>
      let digits := (c.rest.drop 2).take width
      let isHex := Number.Numeral.isDigitOf 16
      if digits.length == width && digits.all isHex then
        let code := Number.Numeral.digitsValue 16 digits
        if (0xD800 ≤ code && code ≤ 0xDFFF) || 0x10FFFF < code then
          .error (c.malformed start "found invalid Unicode character escape code")
        else .ok ([Char.ofNat code], width + 2)
      else .error (c.malformed start "did not find expected hexdecimal number")

/-- The characters between two gaps in quotes, up to the closing quote, and whether they end with
an escaped line end. -/
def readQuotedRun (single : Bool) (start : Nat) :
    (fuel : Nat) → Cursor → List Char → Except Malformed (List Char × Cursor × Bool)
  | 0, c, text => .ok (text, c, false)
  | fuel + 1, c, text =>
    match c.next? with
    | none => .ok (text, c, false)
    | some x =>
      if isBlank x || isBreak x then .ok (text, c, false)
      else if single then
        if x == '\x27' then
          if c.ahead? 1 == some '\x27' then
            readQuotedRun single start fuel (c.skip 2) (text ++ [x])
          else .ok (text, c, false)
        else readQuotedRun single start fuel (c.skip 1) (text ++ [x])
      else if x == '\x22' then .ok (text, c, false)
      else if x == '\\' then
        if ((c.ahead? 1).map isBreak).getD false then .ok (text, (c.skip 1).skipBreak, true)
        else do
          let (more, width) ← readEscape start c
          readQuotedRun single start fuel (c.skip width) (text ++ more)
      else readQuotedRun single start fuel (c.skip 1) (text ++ [x])

/-- A scalar in quotes, behind the opening quote. -/
def readQuoted (single : Bool) (start : Nat) :
    (fuel : Nat) → Cursor → List Char → Except Malformed (List Char × Cursor)
  | 0, c, _ => .error (c.malformed start "found unexpected end of stream")
  | fuel + 1, c, text =>
    if c.atDocumentMark then .error (c.malformed start "found unexpected document indicator")
    else if c.rest.isEmpty then .error (c.malformed start "found unexpected end of stream")
    else do
      let (text, c, joined) ← readQuotedRun single start (c.rest.length + 1) c text
      if c.next? == some (if single then '\x27' else '\x22') && !joined then
        return (text, c.skip 1)
      else
        let before : Gap := if joined then .lines [] [] else .empty
        let (c, gap) ← readGap 0 start (c.rest.length + 1) c before
        readQuoted single start fuel c (text ++ gap.fold)

/-! ## Block scalars -/

/-- What becomes of the line ends at the end of a block scalar. -/
inductive Chomp where
  | clip | strip | keep
  deriving DecidableEq

/-- The indicators behind the `|` or `>` of a block scalar: chomping and indentation. -/
def readBlockHeader (start : Nat) (c : Cursor) : Except Malformed (Chomp × Nat × Cursor) :=
  let chomp? : Option Char → Option Chomp
    | some '+' => some .keep
    | some '-' => some .strip
    | _ => none
  let digit? : Option Char → Option Nat
    | some d => if d.isDigit then some (Number.Numeral.digitValue d) else none
    | none => none
  let zero : Malformed := c.malformed start "found an indentation indicator equal to 0"
  match chomp? c.next? with
  | some chomp =>
    match digit? (c.ahead? 1) with
    | some 0 => .error zero
    | some n => .ok (chomp, n, c.skip 2)
    | none => .ok (chomp, 0, c.skip 1)
  | none =>
    match digit? c.next? with
    | some 0 => .error zero
    | some n =>
      match chomp? (c.ahead? 1) with
      | some chomp => .ok (chomp, n, c.skip 2)
      | none => .ok (.clip, n, c.skip 1)
    | none => .ok (.clip, 0, c)

/-- Passes over the blank lines in front of a line of a block scalar; `indent` is its indentation,
zero if it is not known yet.  Yields the line ends passed over and the deepest column seen. -/
def readBlockBreaks (indent start : Nat) :
    (fuel : Nat) → Cursor → List Char → Nat → Except Malformed (List Char × Cursor × Nat)
  | 0, c, breaks, deepest => .ok (breaks, c, deepest)
  | fuel + 1, c, breaks, deepest =>
    let spaces := (c.rest.takeWhile (· == ' ')).length
    let room := if indent = 0 then spaces else min spaces (indent - c.column)
    let c := c.skip room
    let deepest := max deepest c.column
    if (indent == 0 || c.column < indent) && c.next? == some '\t' then
      .error (c.malformed start "found a tab character where an indentation space is expected")
    else if c.atBreak then
      readBlockBreaks indent start fuel c.skipBreak (breaks ++ c.breakText) deepest
    else .ok (breaks, c, deepest)

/-- The lines of a block scalar: the text so far, the line end behind it and the blank lines after
that.  `blank` tells whether the line before started with a blank. -/
def readBlockLines (folded : Bool) (indent start : Nat) :
    (fuel : Nat) → Cursor → (text lead trail : List Char) → (blank : Bool) →
      Except Malformed (List Char × List Char × List Char × Cursor)
  | 0, c, text, lead, trail, _ => .ok (text, lead, trail, c)
  | fuel + 1, c, text, lead, trail, blank =>
    if c.column != indent || c.rest.isEmpty then .ok (text, lead, trail, c)
    else do
      let startsBlank := c.atBlank
      let join : List Char :=
        if folded && !blank && !startsBlank && lead == ['\n'] then
          if trail.isEmpty then [' '] else []
        else lead
      let behind := c.skipLine
      let line := c.rest.take (behind.column - c.column)
      let lead := if behind.rest.isEmpty then [] else behind.breakText
      let text := text ++ join ++ trail ++ line
      let (trail, c, _) ←
        readBlockBreaks indent start (behind.rest.length + 1) behind.skipBreak [] 0
      readBlockLines folded indent start fuel c text lead trail startsBlank

/-- A block scalar behind its `|` or `>`; `parent` is the indentation around it. -/
def readBlock (folded : Bool) (parent : Int) (c : Cursor) :
    Except Malformed (List Char × Cursor) := do
  let start := c.line
  let (chomp, given, c) ← readBlockHeader start c
  let c := c.skipBlanks
  let c := if c.next? == some '#' then c.skipLine else c
  if !c.rest.isEmpty && !c.atBreak then
    throw (c.malformed start "did not find expected comment or line break")
  let c := if c.atBreak then c.skipBreak else c
  let known := if given = 0 then 0 else (max parent 0).toNat + given
  let (trail, c, deepest) ← readBlockBreaks known start (c.rest.length + 1) c [] 0
  let indent := if known = 0 then max deepest (max (parent + 1).toNat 1) else known
  let (text, lead, trail, c) ←
    readBlockLines folded indent start (c.rest.length + 1) c [] [] trail false
  let text := if chomp = .strip then text else text ++ lead
  return (if chomp = .keep then text ++ trail else text, c)

end Lox.Yaml

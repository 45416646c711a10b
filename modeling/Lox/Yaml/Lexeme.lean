import Lox.Text.Utf8
import Lox.Yaml.Scalar

/-!
# Lexemes of a settings file

A settings file is cut into lexemes.  Besides the marks and scalars that are written, there are
lexemes for what the layout says: a block starts where the first of its entries stands deeper than
what is around it, and ends where something stands less deep.

Whether something is a key is known only when the colon behind it is met.  Until then it is a
candidate, and its place among the lexemes is kept so that the key can be marked there.  A candidate
lasts to the end of its line and for a thousand characters or so; one that starts an entry of a
mapping is required to be a key.

A text that cannot be cut to its end yields the lexemes up to there, since only the first document
counts and what follows it need not make sense.  Whoever reads the lexemes looks a little ahead,
though, and as long as something may still turn out to be a key the reading cannot go on; so the
places of such candidates are told as well.
-/

namespace Lox.Yaml

/-- How a scalar is written. -/
inductive Style where
  | plain
  | quoted
  deriving DecidableEq, Repr

/-- A lexeme. -/
inductive Lexeme where
  | streamEnd
  /-- The version that a text says it is written in. -/
  | version (major minor : Nat)
  /-- A short form for the first part of tags. -/
  | tagHandle (handle : String) (start : String)
  | documentStart
  | documentEnd
  | blockSequenceStart
  | blockMappingStart
  | blockEnd
  | flowSequenceStart
  | flowSequenceEnd
  | flowMappingStart
  | flowMappingEnd
  | blockEntry
  | flowEntry
  | key
  | value
  | reference (name : String)
  | anchor (name : String)
  | tag (handle suffix : String)
  | scalar (text : String) (style : Style)
  deriving DecidableEq, Repr

/-- A lexeme with the line it starts on. -/
structure Placed where
  lexeme : Lexeme
  line : Nat

/-- Something that becomes a key if a colon follows. -/
structure Candidate where
  position : Nat
  index : Nat
  line : Nat
  column : Nat
  required : Bool

/-- The state of cutting: where the cursor is, the lexemes so far, the columns of the open blocks,
whether a key can start here, and the candidate at each level of flow collections, the innermost
level first. -/
structure Cutter where
  cursor : Cursor
  lexemes : List Placed
  indent : Int
  outer : List Int
  keyAllowed : Bool
  candidates : List (Option Candidate)
  finished : Bool

namespace Cutter

/-- The state at the start of a text. -/
def start (text : List Char) : Cutter :=
  ⟨.ofText text, [], -1, [], true, [none], false⟩

/-- The cursor is inside a flow collection. -/
def inFlow (s : Cutter) : Bool := 1 < s.candidates.length

/-- Adds a lexeme that starts at the cursor. -/
def emit (s : Cutter) (x : Lexeme) : Cutter :=
  { s with lexemes := s.lexemes ++ [⟨x, s.cursor.line⟩] }

/-- Puts a lexeme at an earlier place. -/
def insert (s : Cutter) (position : Nat) (x : Placed) : Cutter :=
  { s with lexemes := s.lexemes.take position ++ x :: s.lexemes.drop position }

/-- Passes over characters. -/
def skip (s : Cutter) (n : Nat) : Cutter := { s with cursor := s.cursor.skip n }

/-- Says whether a key can start at the cursor. -/
def allowKey (s : Cutter) (allowed : Bool) : Cutter := { s with keyAllowed := allowed }

/-- The problem of a required key without its colon. -/
def missingColon (s : Cutter) (k : Candidate) : Malformed :=
  s.cursor.malformed k.line "could not find expected ':'"

/-- Gives up the candidate at this level. -/
def dropCandidate (s : Cutter) : Except Malformed Cutter :=
  match s.candidates with
  | some k :: rest =>
    if k.required then .error (s.missingColon k) else .ok { s with candidates := none :: rest }
  | _ => .ok s

/-- Makes what starts at the cursor the candidate at this level. -/
def saveCandidate (s : Cutter) : Except Malformed Cutter := do
  if s.keyAllowed then
    let required := !s.inFlow && s.indent == s.cursor.column
    let k : Candidate :=
      ⟨s.lexemes.length, s.cursor.index, s.cursor.line, s.cursor.column, required⟩
    let s ← s.dropCandidate
    return { s with candidates := some k :: s.candidates.drop 1 }
  else return s

/-- The farthest that a colon can be behind the start of its key. -/
def keyReach : Nat := 1024

/-- The cursor has left a candidate behind. -/
def isStale (s : Cutter) (k : Candidate) : Bool :=
  k.line < s.cursor.line || k.index + keyReach < s.cursor.index

/-- Gives up the candidates that the cursor has left behind. -/
def dropStale (s : Cutter) : Except Malformed Cutter := do
  let check (k? : Option Candidate) : Except Malformed (Option Candidate) :=
    match k? with
    | none => .ok none
    | some k =>
      if s.isStale k then if k.required then .error (s.missingColon k) else .ok none else .ok k
  return { s with candidates := ← s.candidates.mapM check }

/-- The places of the lexemes of which it is not known whether they are keys. -/
def undecided (s : Cutter) : List Nat :=
  s.candidates.filterMap fun k? =>
    (k?.filter fun k => k.required || !s.isStale k).map Candidate.position

/-- Opens a block at a column if it is deeper than the one around it. -/
def openBlock (s : Cutter) (column : Nat) (position : Nat) (x : Placed) : Cutter :=
  if s.inFlow || column ≤ s.indent then s
  else { s.insert position x with indent := column, outer := s.indent :: s.outer }

/-- Closes the blocks that are deeper than a column. -/
def closeBlocks (s : Cutter) (column : Int) : Cutter :=
  if s.inFlow then s
  else
    let rec close (s : Cutter) : List Int → Cutter
      | [] => s
      | outer :: more =>
        if column < s.indent then
          close { s.emit .blockEnd with indent := outer, outer := more } more
        else s
    close s s.outer

/-- Passes over blanks, comments and line ends.  A tab may stand where no key can start. -/
def skipSpace (inFlow : Bool) : (fuel : Nat) → Cursor → (keyAllowed : Bool) → Cursor × Bool
  | 0, c, allowed => (c, allowed)
  | fuel + 1, c, allowed =>
    let passes (x : Char) : Bool := x == ' ' || ((inFlow || !allowed) && x == '\t')
    let c := c.skip (c.rest.takeWhile passes).length
    let c := if c.next? == some '#' then c.skipComments (c.rest.length + 1) else c
    if c.atBreak then skipSpace inFlow fuel c.skipBreak (allowed || !inFlow) else (c, allowed)

/-! ## The lexemes one by one -/

/-- The end of the text. -/
def finish (s : Cutter) : Except Malformed Cutter := do
  let s ← (s.closeBlocks (-1)).dropCandidate
  return { (s.emit .streamEnd) with finished := true }

/-- The mark at the start or the end of a document. -/
def documentMark (s : Cutter) (x : Lexeme) : Except Malformed Cutter := do
  let s ← (s.closeBlocks (-1)).dropCandidate
  return ((s.emit x).skip 3).allowKey false

/-- The start of a flow collection. -/
def flowStart (s : Cutter) (x : Lexeme) : Except Malformed Cutter := do
  let s ← s.saveCandidate
  return ({ s.emit x with candidates := none :: s.candidates }.skip 1).allowKey true

/-- The end of a flow collection. -/
def flowEnd (s : Cutter) (x : Lexeme) : Except Malformed Cutter := do
  let s ← s.dropCandidate
  let candidates := if s.inFlow then s.candidates.drop 1 else s.candidates
  return ({ s.emit x with candidates }.skip 1).allowKey false

/-- The comma between the entries of a flow collection. -/
def flowEntry (s : Cutter) : Except Malformed Cutter := do
  let s ← s.dropCandidate
  return ((s.emit .flowEntry).skip 1).allowKey true

/-- The dash in front of an entry of a block sequence. -/
def blockEntry (s : Cutter) : Except Malformed Cutter := do
  if !s.inFlow && !s.keyAllowed then
    throw (s.cursor.malformed 0 "block sequence entries are not allowed in this context")
  let s := s.openBlock s.cursor.column s.lexemes.length ⟨.blockSequenceStart, s.cursor.line⟩
  let s ← s.dropCandidate
  return ((s.emit .blockEntry).skip 1).allowKey true

/-- The question mark in front of a key. -/
def keyMark (s : Cutter) : Except Malformed Cutter := do
  if !s.inFlow && !s.keyAllowed then
    throw (s.cursor.malformed 0 "mapping keys are not allowed in this context")
  let s := s.openBlock s.cursor.column s.lexemes.length ⟨.blockMappingStart, s.cursor.line⟩
  let s ← s.dropCandidate
  return ((s.emit .key).skip 1).allowKey (!s.inFlow)

/-- The colon between a key and its value; the candidate at this level becomes the key. -/
def valueMark (s : Cutter) : Except Malformed Cutter := do
  match s.candidates with
  | some k :: rest =>
    let s := { s.insert k.position ⟨.key, k.line⟩ with candidates := none :: rest }
    let s := s.openBlock k.column k.position ⟨.blockMappingStart, k.line⟩
    return ((s.emit .value).skip 1).allowKey false
  | _ =>
    if !s.inFlow && !s.keyAllowed then
      throw (s.cursor.malformed 0 "mapping values are not allowed in this context")
    let s := s.openBlock s.cursor.column s.lexemes.length ⟨.blockMappingStart, s.cursor.line⟩
    return ((s.emit .value).skip 1).allowKey (!s.inFlow)

/-- A character of the name of an anchor, a direction or a tag handle. -/
def isNameChar (c : Char) : Bool := c.isAlphanum || c == '_' || c == '-'

/-- A character of a tag. -/
def isTagChar (c : Char) : Bool := isNameChar c || ";/?:@&=+$,.!~*\x27()[]".toList.contains c

/-- The name of an anchor, or a reference to one. -/
def anchor (s : Cutter) (make : String → Lexeme) : Except Malformed Cutter := do
  let s ← s.saveCandidate
  let name := (s.cursor.rest.drop 1).takeWhile isNameChar
  let behind := s.cursor.skip (name.length + 1)
  let ends := isGap behind.next? || ((behind.next?.map "?:,]\x7d%@\x60".toList.contains).getD false)
  if name.isEmpty || !ends then
    throw (behind.malformed s.cursor.line
      "did not find expected alphabetic or numeric character")
  return { (s.emit (make (String.ofList name))).allowKey false with cursor := behind }

/-- The handle at the start of a tag: an exclamation mark, a name, and another mark if there is
one. -/
def readHandle (cs : List Char) : List Char :=
  let name := (cs.drop 1).takeWhile isNameChar
  let handle := cs.take 1 ++ name
  if (cs.drop handle.length).head? == some '!' then handle ++ ['!'] else handle

/-- The byte that a percent sign and two digits in base sixteen stand for. -/
def octet? (cs : List Char) : Option UInt8 :=
  match cs with
  | '%' :: a :: b :: _ =>
    if [a, b].all (Number.Numeral.isDigitOf 16) then
      some (UInt8.ofNat (Number.Numeral.digitsValue 16 [a, b]))
    else none
  | _ => none

/-- The number of bytes in the encoding of a character, by the first of them. -/
def octetCount? (first : UInt8) : Option Nat :=
  let n := first.toNat
  if n < 0x80 then some 1
  else if 0xC0 ≤ n ∧ n < 0xE0 then some 2
  else if 0xE0 ≤ n ∧ n < 0xF0 then some 3
  else if 0xF0 ≤ n ∧ n < 0xF8 then some 4
  else none

/-- The character whose bytes are written with percent signs, and the number of characters that
takes. -/
def readOctets? (cs : List Char) : Option (List Char × Nat) := do
  let first ← octet? cs
  let count ← octetCount? first
  let more ← (List.range (count - 1)).mapM fun i => octet? (cs.drop (3 * (i + 1)))
  if more.all fun b => 0x80 ≤ b.toNat && b.toNat < 0xC0 then
    return (Text.Utf8.decode (first :: more), 3 * count)
  else none

/-- The longest text of a tag in front, and the number of characters it takes; none if a percent
sign stands for no character. -/
def readTagText? : (fuel : Nat) → List Char → Option (List Char × Nat)
  | 0, _ => some ([], 0)
  | fuel + 1, cs =>
    match cs with
    | [] => some ([], 0)
    | c :: rest =>
      if c == '%' then do
        let (text, width) ← readOctets? cs
        let (more, after) ← readTagText? fuel (cs.drop width)
        return (text ++ more, width + after)
      else if isTagChar c then do
        let (more, after) ← readTagText? fuel rest
        return (c :: more, after + 1)
      else some ([], 0)

/-- The handle and the suffix of a tag, and the number of characters it takes; none if a part of it
is missing. -/
def readTag? (cs : List Char) : Option (String × String × Nat) := do
  if cs[1]? == some '<' then
    let (suffix, width) ← readTagText? cs.length (cs.drop 2)
    if width == 0 || cs[width + 2]? != some '>' then none
    else some ("", String.ofList suffix, width + 3)
  else
    let handle := readHandle cs
    let (more, width) ← readTagText? cs.length (cs.drop handle.length)
    let width := handle.length + width
    if 1 < handle.length && handle.getLast? == some '!' then
      if more.isEmpty then none else some (String.ofList handle, String.ofList more, width)
    else
      let suffix := handle.drop 1 ++ more
      if suffix.isEmpty then some ("", "!", width) else some ("!", String.ofList suffix, width)

/-- A tag, which names the type of what follows. -/
def tag (s : Cutter) : Except Malformed Cutter := do
  let s ← s.saveCandidate
  let problem (text : String) : Malformed := s.cursor.malformed s.cursor.line text
  match readTag? s.cursor.rest with
  | none => throw (problem "did not find expected tag URI")
  | some (handle, suffix, width) =>
    let behind := s.cursor.skip width
    if !isGap behind.next? then
      throw (problem "did not find expected whitespace or line break")
    return { (s.emit (.tag handle suffix)).allowKey false with cursor := behind }

/-! ## Directions in front of a document -/

/-- A number of at most two digits, and the place behind it. -/
def readVersionPart? (c : Cursor) : Option (Nat × Cursor) :=
  let digits := c.rest.takeWhile Char.isDigit
  if digits.isEmpty || 2 < digits.length then none
  else some (Number.Numeral.digitsValue 10 digits, c.skip digits.length)

/-- A version: two numbers and a point between them. -/
def readVersion? (c : Cursor) : Option (Lexeme × Cursor) := do
  let (major, c) ← readVersionPart? c.skipBlanks
  if c.next? != some '.' then none
  let (minor, c) ← readVersionPart? (c.skip 1)
  return (.version major minor, c)

/-- A handle and the first part of the tags that it stands for. -/
def readTagHandle? (c : Cursor) : Option (Lexeme × Cursor) := do
  let c := c.skipBlanks
  let handle := readHandle c.rest
  if c.next? != some '!' || (handle.getLast? != some '!') then none
  let behind := c.skip handle.length
  if !behind.atBlank then none
  let c := behind.skipBlanks
  let (start, width) ← readTagText? c.rest.length c.rest
  if width == 0 then none
  return (.tagHandle (String.ofList handle) (String.ofList start), c.skip width)

/-- A line of directions in front of a document. -/
def directive (s : Cutter) : Except Malformed Cutter := do
  let s ← (s.closeBlocks (-1)).dropCandidate
  let problem (text : String) : Malformed := s.cursor.malformed s.cursor.line text
  let name := (s.cursor.rest.drop 1).takeWhile isNameChar
  let behind := s.cursor.skip (name.length + 1)
  if name.isEmpty then throw (problem "could not find expected directive name")
  if !isGap behind.next? then throw (problem "found unexpected non-alphabetical character")
  let read? := if name == "YAML".toList then readVersion? behind
    else if name == "TAG".toList then readTagHandle? behind
    else none
  match read? with
  | none => throw (problem "found unknown directive name")
  | some (x, behind) =>
    if !isGap behind.next? then throw (problem "did not find expected comment or line break")
    let behind := behind.skipBlanks
    let behind := if behind.next? == some '#' then behind.skipLine else behind
    if !behind.rest.isEmpty && !behind.atBreak then
      throw (problem "did not find expected comment or line break")
    return { (s.emit x).allowKey false with cursor := behind.skipBreak }

/-! ## Scalars -/

/-- A block scalar. -/
def blockScalar (s : Cutter) (folded : Bool) : Except Malformed Cutter := do
  let s ← s.dropCandidate
  let (text, cursor) ← readBlock folded s.indent (s.cursor.skip 1)
  return { (s.emit (.scalar (String.ofList text) .quoted)).allowKey true with cursor }

/-- A scalar in quotes. -/
def quotedScalar (s : Cutter) (single : Bool) : Except Malformed Cutter := do
  let s ← s.saveCandidate
  let (text, cursor) ←
    readQuoted single s.cursor.line (s.cursor.rest.length + 1) (s.cursor.skip 1) []
  return { (s.emit (.scalar (String.ofList text) .quoted)).allowKey false with cursor }

/-- Passes over a comment behind a lexeme on the same line. -/
def passComment (s : Cutter) : Cutter := { s with cursor := s.cursor.skipLineComment }

/-- A plain scalar; a key can start behind it if a line has ended. -/
def plainScalar (s : Cutter) : Except Malformed Cutter := do
  let s ← s.saveCandidate
  let (text, cursor, gap) ←
    readPlain s.inFlow (s.indent + 1).toNat s.cursor.line (s.cursor.rest.length + 1) s.cursor []
      .empty
  let s := { (s.emit (.scalar (String.ofList text) .plain)).allowKey gap.hasLine with cursor }
  return if gap.hasLine then s else s.passComment

/-- The characters that have a meaning of their own at the start of a lexeme. -/
def indicators : List Char := "-?:,[]\x7b\x7d#&*!|>\x27\x22%@\x60".toList

/-- A plain scalar can start with a character, given the one behind it. -/
def startsPlain (inFlow : Bool) (c : Char) (behind : Option Char) : Bool :=
  (!indicators.contains c && !isBlank c) || (c == '-' && !(behind.map isBlank).getD false) ||
    (!inFlow && (c == '?' || c == ':') && !isGap behind)

/-- Cuts off a lexeme that starts with the character `c` and may have a comment behind it. -/
def mark (s : Cutter) (c : Char) : Except Malformed Cutter :=
  let isColon := c == ':' && (s.inFlow || isGap (s.cursor.ahead? 1))
  if c == '[' then s.flowStart .flowSequenceStart
  else if c == '\x7b' then s.flowStart .flowMappingStart
  else if c == ']' then s.flowEnd .flowSequenceEnd
  else if c == '\x7d' then s.flowEnd .flowMappingEnd
  else if c == ',' then s.flowEntry
  else if c == '?' && (s.inFlow || isGap (s.cursor.ahead? 1)) then s.keyMark
  else if isColon then s.valueMark
  else if c == '*' then s.anchor .reference
  else if c == '&' then s.anchor .anchor
  else if c == '!' then s.tag
  else if c == '\x27' then s.quotedScalar true
  else if c == '\x22' then s.quotedScalar false
  else .error (s.cursor.malformed s.cursor.line "found character that cannot start any token")

/-- Cuts off the next lexeme. -/
def step (s : Cutter) : Except Malformed Cutter := do
  let (cursor, allowed) := skipSpace s.inFlow (s.cursor.rest.length + 1) s.cursor s.keyAllowed
  let s := { s with cursor, keyAllowed := allowed }
  let s ← s.dropStale
  let s := s.closeBlocks s.cursor.column
  let behind := s.cursor.ahead? 1
  match s.cursor.next? with
  | none => s.finish
  | some c =>
    if c == '%' && s.cursor.column == 0 then s.directive
    else if s.cursor.atMark '-' then s.documentMark .documentStart
    else if s.cursor.atMark '.' then s.documentMark .documentEnd
    else if c == '-' && isGap behind then s.blockEntry
    else if c == '|' && !s.inFlow then s.blockScalar false
    else if c == '>' && !s.inFlow then s.blockScalar true
    else if startsPlain s.inFlow c behind then s.plainScalar
    else return (← s.mark c).passComment

/-- Cuts off lexemes until the text ends or cannot be cut. -/
def run : (fuel : Nat) → Cutter → Cutter × Option Malformed
  | 0, s => (s, none)
  | fuel + 1, s =>
    if s.finished then (s, none)
    else match s.step with
      | .ok s => run fuel s
      | .error m => (s, some m)

end Cutter

/-- The lexemes of a text.  If the text is malformed there are those in front of the flaw, and the
places of those that may be keys. -/
structure Cutting where
  lexemes : List Placed
  flaw? : Option Malformed
  undecided : List Nat

/-- Cuts a text into lexemes. -/
def cut (text : String) : Cutting :=
  if text.toList.all isAllowed then
    let (s, flaw?) := Cutter.run (text.length + 2) (.start text.toList)
    ⟨s.lexemes, flaw?, s.undecided⟩
  else ⟨[], some ⟨"control characters are not allowed", 0, 0⟩, []⟩

end Lox.Yaml

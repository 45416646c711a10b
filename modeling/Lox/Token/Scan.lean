import Lox.Number.Numeral
import Lox.Token.Basic

/-!
# Scanning

A source is cut from left to right into consecutive pieces: a blank, a comment, a token or a flaw.
`Piece.first` is the piece at the front of a source, the longest lexeme that fits there, and
`pieces` cuts the whole source; nothing is lost or read twice (`flatten_pieces`).  Only afterwards
do the pieces get their places, so that what a piece is never depends on what stands before it.
-/

namespace Lox

/-- What is wrong with a piece of source text. -/
inductive Flaw where
  | unexpectedCharacter (c : Char)
  | unterminatedString
  | invalidNumber (lexeme : String)

namespace Flaw

/-- The wording of a flaw. -/
def message : Flaw → String
  | unexpectedCharacter c => "unexpected character " ++ Text.Quoted.char c
  | unterminatedString => "unterminated string"
  | invalidNumber lexeme => "invalid number " ++ Text.Quoted.text lexeme

end Flaw

/-- A flaw with its place in the source. -/
structure ScanError where
  flaw : Flaw
  offset : Int
  line : Int

namespace ScanError

/-- The wording of a scan error without its place. -/
def message (e : ScanError) : String := e.flaw.message

/-- A scan error as it is reported. -/
def text (e : ScanError) : String :=
  "[line " ++ toString e.line ++ "] scan error: " ++ e.message

end ScanError

namespace Token

/-! ## Pieces -/

/-- What a piece of source text is. -/
inductive Content where
  | blank
  | comment
  | token (kind : Kind) (literal : Option Literal)
  | flaw (cause : Flaw)

/-- A piece of source text: its characters and what they are. -/
structure Piece where
  chars : List Char
  content : Content

/-- The first character of a name. -/
def startsName (c : Char) : Bool := c.isAlpha || c == '_'

/-- The later characters of a name. -/
def continuesName (c : Char) : Bool := startsName c || c.isDigit

namespace Piece

/-- A piece that is a token without payload. -/
def plain (chars : List Char) (kind : Kind) : Piece :=
  ⟨chars, .token kind none⟩

/-- An operator that is longer by one character if `=` follows. -/
def withEqual (c : Char) (rest : List Char) (short long : Kind) : Piece :=
  match rest with
  | '=' :: _ => plain [c, '='] long
  | _ => plain [c] short

/-- A slash, or a comment that runs to the end of the line. -/
def slash (rest : List Char) : Piece :=
  match rest with
  | '/' :: _ => ⟨'/' :: rest.takeWhile (· != '\n'), .comment⟩
  | _ => plain ['/'] .slash

/-- A string up to the next quotation mark, which need not be on the same line. -/
def string (rest : List Char) : Piece :=
  let mark := Text.Quoted.quotationMark
  let body := rest.takeWhile (· != mark)
  if body.length < rest.length then
    ⟨mark :: body ++ [mark], .token .string (some (.text (String.ofList body)))⟩
  else
    ⟨mark :: rest, .flaw .unterminatedString⟩

/-- The digits after a point, if the text goes on with a point and at least one digit. -/
def fractionOf (rest : List Char) : List Char :=
  match rest with
  | '.' :: digits => digits.takeWhile Char.isDigit
  | _ => []

/-- A number: digits, then a point with further digits if there are any after it. -/
def number (c : Char) (rest : List Char) : Piece :=
  let whole := c :: rest.takeWhile Char.isDigit
  let fraction := fractionOf (rest.dropWhile Char.isDigit)
  let chars := if fraction.isEmpty then whole else whole ++ '.' :: fraction
  match Number.Numeral.ofDigits whole fraction with
  | .value x => ⟨chars, .token .number (some (.number x))⟩
  | _ => ⟨chars, .flaw (.invalidNumber (String.ofList chars))⟩

/-- A name or a reserved word. -/
def name (c : Char) (rest : List Char) : Piece :=
  let chars := c :: rest.takeWhile continuesName
  let lexeme := String.ofList chars
  match Kind.ofWord? lexeme with
  | some kind => plain chars kind
  | none => ⟨chars, .token .identifier (some (.text lexeme))⟩

/-- The piece at the front of the source `c :: rest`. -/
def first (c : Char) (rest : List Char) : Piece :=
  match c with
  | '(' => plain [c] .leftParen
  | ')' => plain [c] .rightParen
  | '\x7b' => plain [c] .leftBrace
  | '\x7d' => plain [c] .rightBrace
  | ',' => plain [c] .comma
  | '.' => plain [c] .dot
  | '-' => plain [c] .minus
  | '+' => plain [c] .plus
  | ';' => plain [c] .semicolon
  | '*' => plain [c] .star
  | '!' => withEqual c rest .bang .bangEqual
  | '=' => withEqual c rest .equal .equalEqual
  | '<' => withEqual c rest .less .lessEqual
  | '>' => withEqual c rest .greater .greaterEqual
  | '/' => slash rest
  | ' ' | '\t' | '\r' | '\n' => ⟨[c], .blank⟩
  | '\x22' => string rest
  | _ =>
    if c.isDigit then number c rest
    else if startsName c then name c rest
    else ⟨[c], .flaw (.unexpectedCharacter c)⟩

/-- The number of characters of a piece after its first. -/
def more (p : Piece) : Nat := p.chars.length - 1

/-- The number of line ends in a piece. -/
def lineEnds (p : Piece) : Nat := p.chars.count '\n'

end Piece

/-- The pieces of a source, from left to right. -/
def pieces : List Char → List Piece
  | [] => []
  | c :: rest => Piece.first c rest :: pieces (rest.drop (Piece.first c rest).more)
termination_by source => source.length
decreasing_by simp only [List.length_drop, List.length_cons]; omega

namespace Piece

/-- The piece at the front of `c :: rest` is `c` and a first part of `rest`. -/
def Fits (c : Char) (rest : List Char) (p : Piece) : Prop :=
  ∃ tail, p.chars = c :: tail ∧ tail <+: rest

theorem fits_single (c : Char) (rest : List Char) (content : Content) :
    Fits c rest ⟨[c], content⟩ :=
  ⟨[], rfl, List.nil_prefix⟩

theorem fits_withEqual (c : Char) (rest : List Char) (short long : Kind) :
    Fits c rest (withEqual c rest short long) := by
  unfold withEqual
  split
  · exact ⟨['='], rfl, by simp⟩
  · exact fits_single c rest _

theorem fits_slash (rest : List Char) : Fits '/' rest (slash rest) := by
  unfold slash
  split
  · exact ⟨_, rfl, List.takeWhile_prefix _⟩
  · exact fits_single '/' rest _

/-- A list whose first part of `p`-characters is shorter goes on with another character. -/
theorem prefix_takeWhile_append {p : Char → Bool} {mark : Char} {rest : List Char}
    (hp : ∀ c, p c = false → c = mark) (h : (rest.takeWhile p).length < rest.length) :
    rest.takeWhile p ++ [mark] <+: rest := by
  induction rest with
  | nil => simp at h
  | cons c rest ih =>
    cases hc : p c with
    | true =>
      simp only [List.takeWhile_cons, hc, if_true, List.length_cons] at h
      simpa [List.takeWhile_cons, hc] using ih (by omega)
    | false =>
      rw [List.takeWhile_cons, hc, hp c hc]
      exact ⟨rest, rfl⟩

theorem fits_string (rest : List Char) : Fits Text.Quoted.quotationMark rest (string rest) := by
  simp only [string]
  split
  · rename_i h
    exact ⟨_, rfl, prefix_takeWhile_append (by simp) h⟩
  · exact ⟨rest, rfl, List.prefix_refl rest⟩

/-- The digits behind a point, if there are any, stand in the text behind that point. -/
theorem prefix_fractionOf {rest : List Char} (h : (fractionOf rest).isEmpty = false) :
    '.' :: fractionOf rest <+: rest := by
  unfold fractionOf at h ⊢
  split
  · simpa using List.takeWhile_prefix _
  · simp at h

theorem fits_number (c : Char) (rest : List Char) : Fits c rest (number c rest) := by
  have chars : ∃ tail,
      (if (fractionOf (rest.dropWhile Char.isDigit)).isEmpty then c :: rest.takeWhile Char.isDigit
        else c :: rest.takeWhile Char.isDigit ++ '.' :: fractionOf (rest.dropWhile Char.isDigit)) =
        c :: tail ∧ tail <+: rest := by
    split
    · exact ⟨_, rfl, List.takeWhile_prefix _⟩
    · rename_i h
      refine ⟨_, rfl, ?_⟩
      obtain ⟨after, hafter⟩ := prefix_fractionOf (Bool.eq_false_iff.2 h)
      refine ⟨after, ?_⟩
      show (rest.takeWhile Char.isDigit ++ '.' :: fractionOf (rest.dropWhile Char.isDigit)) ++
        after = rest
      rw [List.append_assoc, hafter, List.takeWhile_append_dropWhile]
  simp only [number]
  split <;> exact chars

theorem fits_name (c : Char) (rest : List Char) : Fits c rest (name c rest) := by
  simp only [name]
  split <;> exact ⟨_, rfl, List.takeWhile_prefix _⟩

theorem fits_first (c : Char) (rest : List Char) : Fits c rest (first c rest) := by
  unfold first
  split
  all_goals first
    | exact fits_single _ rest _
    | exact fits_withEqual _ rest _ _
    | exact fits_slash rest
    | exact fits_string rest
    | skip
  split
  · exact fits_number c rest
  · split
    · exact fits_name c rest
    · exact fits_single c rest _

end Piece

/-- The pieces of a source, one after the other, are the source. -/
theorem flatten_pieces (source : List Char) : (pieces source).flatMap Piece.chars = source := by
  fun_induction pieces source with
  | case1 => rfl
  | case2 c rest ih =>
    obtain ⟨tail, htail, after, hafter⟩ := Piece.fits_first c rest
    have more : (Piece.first c rest).more = tail.length := by simp [Piece.more, htail]
    have behind : rest.drop tail.length = after := by rw [← hafter, List.drop_left]
    rw [List.flatMap_cons, ih, more, behind, htail, List.cons_append, hafter]

/-! ## Places -/

/-- A piece with the offset and the line at which it starts. -/
structure Placed where
  piece : Piece
  offset : Nat
  line : Nat

/-- The pieces with their places, the first of them at a given place. -/
def place (offset line : Nat) : List Piece → List Placed
  | [] => []
  | p :: ps => ⟨p, offset, line⟩ :: place (offset + p.chars.length) (line + p.lineEnds) ps

namespace Placed

/-- The token that a placed piece is, if it is one. -/
def token? (p : Placed) : Option Token :=
  match p.piece.content with
  | .token kind literal => some ⟨kind, String.ofList p.piece.chars, literal, p.offset, p.line⟩
  | _ => none

/-- The error that a placed piece is, if it is one. -/
def error? (p : Placed) : Option ScanError :=
  match p.piece.content with
  | .flaw cause => some ⟨cause, p.offset, p.line⟩
  | _ => none

end Placed

/-- The token at the end of a source. -/
def endOf (source : List Char) : Token :=
  ⟨.endOfInput, "", none, source.length, 1 + source.count '\n'⟩

/-- The tokens of a source, with the token for its end, and its flaws. -/
structure Scan where
  tokens : List Token
  errors : List ScanError

/-- Cuts a source into tokens.  A flaw is noted and scanning goes on behind it. -/
def scan (source : String) : Scan :=
  let placed := place 0 1 (pieces source.toList)
  { tokens := placed.filterMap Placed.token? ++ [endOf source.toList]
    errors := placed.filterMap Placed.error? }

end Token

end Lox

import Lox.Grammar.Statement
import Lox.Token.Scan

/-!
# Programs

A program is a list of declarations.  Where a declaration is stuck, the complaint is kept, the
tokens up to the next boundary are passed over, and reading goes on there.  A boundary is a
semicolon, which is passed over too, or a token that can begin a statement.  At least one token is
passed over in any case, so reading always ends.
-/

namespace Lox

namespace Grammar

/-- The number of tokens in front of the next boundary, with the semicolon if it is one. -/
def toBoundary : List Token → Nat
  | [] => 0
  | t :: rest =>
    if t.kind = .semicolon then 1
    else if t.kind.startsStatement then 0
    else toBoundary rest + 1

/-- The statements of a list of tokens and the complaints about the rest of it, both in order. -/
def statements : List Token → List Stmt × List Complaint
  | [] => ([], [])
  | t :: rest =>
    match declaration (t :: rest) with
    | .made s taken =>
      let (ss, cs) := statements (rest.drop (taken - 1))
      (s :: ss, cs)
    | .stuck c passed =>
      let skipped := passed + toBoundary ((t :: rest).drop passed)
      let (ss, cs) := statements (rest.drop (skipped - 1))
      (ss, c :: cs)
termination_by ts => ts.length
decreasing_by all_goals simp only [List.length_drop, List.length_cons]; omega

end Grammar

/-- A program with the errors found on the way. -/
structure Parse where
  program : Program
  errors : List ParseError

namespace Token

/-- The token that ends a list of tokens: the first end-of-input token in it, or else one right
behind the last token. -/
def endToken (tokens : List Token) : Token :=
  match tokens.find? fun t => t.kind == .endOfInput with
  | some t => t
  | none =>
    match tokens.getLast? with
    | some t => ⟨.endOfInput, "", none, t.offset + t.width, t.line⟩
    | none => ⟨.endOfInput, "", none, 0, 1⟩

/-- The tokens in front of the end of the input. -/
def beforeEnd (tokens : List Token) : List Token :=
  tokens.takeWhile fun t => t.kind != .endOfInput

/-- The program that tokens spell.  Statements that are stuck are left out and reported. -/
def parse (tokens : List Token) : Parse :=
  let stop := endToken tokens
  let (body, complaints) := Grammar.statements (beforeEnd tokens)
  { program := ⟨(tokens.head?.getD stop).line, body⟩
    errors := complaints.map (·.toError stop) }

end Token

end Lox

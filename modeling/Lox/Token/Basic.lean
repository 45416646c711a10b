import Lox.Text.Quoted
import Lox.Token.Kind

/-!
# Tokens

A token is a classified piece of source text with its place.  Offsets count characters from zero
and lines count from one.
-/

namespace Lox

/-- The payload of a token that stands for a number or a text. -/
inductive Literal where
  | number (value : Float)
  | text (value : String)

/-- A classified lexical unit with the source text it covers. -/
structure Token where
  kind : Token.Kind
  lexeme : String
  literal : Option Literal
  offset : Int
  line : Int

namespace Token

/-- The token as it is named in messages: names, strings and numbers show their source text, other
tokens only their kind. -/
def text (t : Token) : String :=
  match t.kind with
  | .identifier | .string | .number => t.kind.name ++ " " ++ Text.Quoted.text t.lexeme
  | .endOfInput => t.kind.name
  | k => "'" ++ k.name ++ "'"

/-- The number of characters of source text that the token covers. -/
def width (t : Token) : Nat :=
  t.lexeme.length

end Token

end Lox

import Lox.Token.Basic

/-!
# Complaints about the grammar

What a rule of the grammar can object to, and the wording of it.  A complaint names the token that
gave rise to it, or no token if the input ended there; it becomes a `ParseError` once the token for
the end of the input is known.
-/

namespace Lox

/-- Where in the grammar a token was required. -/
inductive Place where
  | afterVar | afterDeclaration | afterFun | afterFunctionName | asParameter | afterParameters
  | beforeBody | afterValue | afterExpression | afterIf | afterIfCondition | afterWhile
  | afterWhileCondition | afterFor | afterLoopCondition | afterForClauses | afterReturnValue
  | afterBlock | afterArguments
  deriving DecidableEq, Repr

namespace Place

/-- The wording of a place. -/
def text : Place → String
  | afterVar => "after 'var'"
  | afterDeclaration => "after variable declaration"
  | afterFun => "after 'fun'"
  | afterFunctionName => "after function name"
  | asParameter => "as parameter name"
  | afterParameters => "after parameters"
  | beforeBody => "before function body"
  | afterValue => "after value"
  | afterExpression => "after expression"
  | afterIf => "after 'if'"
  | afterIfCondition => "after if condition"
  | afterWhile => "after 'while'"
  | afterWhileCondition => "after while condition"
  | afterFor => "after 'for'"
  | afterLoopCondition => "after loop condition"
  | afterForClauses => "after for clauses"
  | afterReturnValue => "after return value"
  | afterBlock => "after block"
  | afterArguments => "after arguments"

end Place

/-- What a rule of the grammar objects to. -/
inductive Objection where
  /-- A token of a certain kind was required. -/
  | missing (expected : Token.Kind) (place : Place)
  /-- No expression begins here. -/
  | noExpression
  /-- Only a name can be assigned to. -/
  | invalidTarget
  /-- Only a name can be called. -/
  | uncallable
  deriving DecidableEq, Repr

namespace Objection

/-- The wording of an objection. -/
def message : Objection → String
  | missing expected place => "expected '" ++ expected.name ++ "' " ++ place.text
  | noExpression => "expected expression"
  | invalidTarget => "invalid assignment target"
  | uncallable => "only named functions can be called"

/-- The kind of token that was required, where a certain one was. -/
def expected? : Objection → Option Token.Kind
  | missing expected _ => some expected
  | _ => none

/-- The objection is to the shape of an expression that was read in full. -/
def isAboutShape : Objection → Bool
  | invalidTarget | uncallable => true
  | _ => false

end Objection

/-- An objection with the token that gave rise to it, none at the end of the input. -/
structure Complaint where
  objection : Objection
  token? : Option Token

/-- The kinds of parse errors. -/
inductive ParseErrorKind where
  | unexpectedEnd
  | missingToken
  | invalidShape
  | unexpectedToken
  /-- A number that stands for no kind. -/
  | unknown (number : Int)
  deriving DecidableEq, Repr

namespace ParseErrorKind

/-- The name of a kind of parse error. -/
def name : ParseErrorKind → String
  | unexpectedEnd => "unexpected end of input"
  | missingToken => "missing token"
  | invalidShape => "invalid expression shape"
  | unexpectedToken => "unexpected token"
  | unknown n => "unknown_parse_error_" ++ toString n

/-- The kind with a number. -/
def ofNumber : Int → ParseErrorKind
  | 0 => unexpectedEnd
  | 1 => missingToken
  | 2 => invalidShape
  | 3 => unexpectedToken
  | n => unknown n

end ParseErrorKind

/-- An objection with the token that gave rise to it. -/
structure ParseError where
  objection : Objection
  token : Token

namespace ParseError

/-- The kind of a parse error: at the end of the input everything but a wrong shape counts as the
input ending too early. -/
def kind (e : ParseError) : ParseErrorKind :=
  if e.objection.isAboutShape then .invalidShape
  else if e.token.kind = .endOfInput then .unexpectedEnd
  else match e.objection with
    | .missing _ _ => .missingToken
    | _ => .unexpectedToken

/-- The wording of a parse error without its place. -/
def message (e : ParseError) : String := e.objection.message

/-- A message about a token as it is reported. -/
def report (token : Token) (message : String) : String :=
  let place := if token.kind = .endOfInput then "at end" else "at '" ++ token.lexeme ++ "'"
  "[line " ++ toString token.line ++ "] parse error " ++ place ++ ": " ++ message

/-- A parse error as it is reported. -/
def text (e : ParseError) : String := report e.token e.message

end ParseError

/-- The parse error of a complaint, given the token for the end of the input. -/
def Complaint.toError (c : Complaint) (endToken : Token) : ParseError :=
  ⟨c.objection, c.token?.getD endToken⟩

end Lox

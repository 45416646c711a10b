/-!
# Kinds of tokens

The classes of lexical units, with the name each has in messages, the reserved words, and the
kinds at which a new statement can begin.
-/

namespace Lox.Token

/-- The class of a lexical unit. -/
inductive Kind where
  | leftParen | rightParen | leftBrace | rightBrace | comma | dot | minus | plus | semicolon
  | slash | star
  | bang | bangEqual | equal | equalEqual | greater | greaterEqual | less | lessEqual
  | identifier | string | number
  | andWord | classWord | elseWord | falseWord | funWord | forWord | ifWord | nilWord | orWord
  | printWord | returnWord | superWord | thisWord | trueWord | varWord | whileWord
  | endOfInput
  /-- A number that stands for no kind. -/
  | unknown (number : Int)
  deriving DecidableEq, Repr

namespace Kind

/-- The name of a kind in messages. -/
def name : Kind → String
  | leftParen => "("
  | rightParen => ")"
  | leftBrace => "\x7b"
  | rightBrace => "\x7d"
  | comma => ","
  | dot => "."
  | minus => "-"
  | plus => "+"
  | semicolon => ";"
  | slash => "/"
  | star => "*"
  | bang => "!"
  | bangEqual => "!="
  | equal => "="
  | equalEqual => "=="
  | greater => ">"
  | greaterEqual => ">="
  | less => "<"
  | lessEqual => "<="
  | identifier => "identifier"
  | string => "string"
  | number => "number"
  | andWord => "and"
  | classWord => "class"
  | elseWord => "else"
  | falseWord => "false"
  | funWord => "fun"
  | forWord => "for"
  | ifWord => "if"
  | nilWord => "nil"
  | orWord => "or"
  | printWord => "print"
  | returnWord => "return"
  | superWord => "super"
  | thisWord => "this"
  | trueWord => "true"
  | varWord => "var"
  | whileWord => "while"
  | endOfInput => "end of input"
  | unknown n => "unknown_kind_" ++ toString n

/-- The kinds of reserved words. -/
def words : List Kind :=
  [andWord, classWord, elseWord, falseWord, funWord, forWord, ifWord, nilWord, orWord, printWord,
    returnWord, superWord, thisWord, trueWord, varWord, whileWord]

/-- The kinds in the order of their numbers. -/
def all : List Kind :=
  [leftParen, rightParen, leftBrace, rightBrace, comma, dot, minus, plus, semicolon, slash, star,
    bang, bangEqual, equal, equalEqual, greater, greaterEqual, less, lessEqual, identifier, string,
    number] ++ words ++ [endOfInput]

/-- The kind with a number. -/
def ofNumber (n : Int) : Kind :=
  if n < 0 then unknown n else (all[n.toNat]?).getD (unknown n)

/-- The kind with a name. -/
def ofName? (s : String) : Option Kind :=
  all.find? fun k => k.name == s

/-- The kind of a reserved word. -/
def ofWord? (s : String) : Option Kind :=
  words.find? fun k => k.name == s

/-- A statement can begin with a token of this kind; reading goes on at such a token after an
error. -/
def startsStatement : Kind → Bool
  | classWord | forWord | funWord | ifWord | printWord | varWord | returnWord | whileWord => true
  | _ => false

end Kind

end Lox.Token

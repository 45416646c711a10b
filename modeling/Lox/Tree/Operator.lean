/-!
# Operators

The operators of expressions.  A tree made by hand may hold any symbol at all; a symbol that the
language does not know is kept as it is, so that it can be shown and reported.
-/

namespace Lox

/-- An operator with one operand. -/
inductive UnaryOp where
  | negate
  | not
  | other (symbol : String)
  deriving DecidableEq, Repr

namespace UnaryOp

/-- The symbol of an operator. -/
def symbol : UnaryOp → String
  | negate => "-"
  | not => "!"
  | other s => s

/-- The operator with a symbol. -/
def ofSymbol (s : String) : UnaryOp :=
  if s == "-" then negate else if s == "!" then not else other s

end UnaryOp

/-- An operator that computes with numbers or joins texts. -/
inductive ArithmeticOp where
  | add | subtract | multiply | divide
  deriving DecidableEq, Repr

/-- An operator that asks for the order of two values. -/
inductive OrderOp where
  | less | lessEqual | greater | greaterEqual
  deriving DecidableEq, Repr

/-- An operator with two operands. -/
inductive BinaryOp where
  | arithmetic (op : ArithmeticOp)
  | order (op : OrderOp)
  | equal
  | notEqual
  | other (symbol : String)
  deriving DecidableEq, Repr

namespace BinaryOp

/-- The symbol of an operator. -/
def symbol : BinaryOp → String
  | arithmetic .add => "+"
  | arithmetic .subtract => "-"
  | arithmetic .multiply => "*"
  | arithmetic .divide => "/"
  | order .less => "<"
  | order .lessEqual => "<="
  | order .greater => ">"
  | order .greaterEqual => ">="
  | equal => "=="
  | notEqual => "!="
  | other s => s

/-- The operators of the language. -/
def known : List BinaryOp :=
  [arithmetic .add, arithmetic .subtract, arithmetic .multiply, arithmetic .divide, order .less,
    order .lessEqual, order .greater, order .greaterEqual, equal, notEqual]

/-- The operator with a symbol. -/
def ofSymbol (s : String) : BinaryOp :=
  (known.find? fun op => op.symbol == s).getD (other s)

end BinaryOp

/-- An operator on truth values. -/
inductive LogicalOp where
  | and
  | or
  | other (symbol : String)
  deriving DecidableEq, Repr

namespace LogicalOp

/-- The symbol of an operator. -/
def symbol : LogicalOp → String
  | and => "and"
  | or => "or"
  | other s => s

/-- The operator with a symbol. -/
def ofSymbol (s : String) : LogicalOp :=
  if s == "and" then and else if s == "or" then or else other s

/-- The truth value of an operator at two truth values; everything but `and` acts as `or`. -/
def apply : LogicalOp → Bool → Bool → Bool
  | and, a, b => a && b
  | _, a, b => a || b

end LogicalOp

end Lox

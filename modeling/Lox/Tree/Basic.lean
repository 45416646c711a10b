import Lox.Tree.Operator

/-!
# Expressions, statements and programs

Every node carries the line that messages about it name.
-/

namespace Lox

/-- An expression. -/
inductive Expr where
  | number (line : Int) (value : Float)
  | string (line : Int) (value : String)
  | bool (line : Int) (value : Bool)
  | nil (line : Int)
  | name (line : Int) (name : String)
  | unary (line : Int) (op : UnaryOp) (operand : Expr)
  | binary (line : Int) (op : BinaryOp) (left right : Expr)
  | logical (line : Int) (op : LogicalOp) (left right : Expr)
  | group (line : Int) (inner : Expr)
  | assign (line : Int) (name : String) (value : Expr)
  | call (line : Int) (callee : String) (arguments : List Expr)
  deriving Inhabited

/-- The line of an expression. -/
def Expr.line : Expr → Int
  | number l _ | string l _ | bool l _ | nil l | name l _ | unary l _ _ | binary l _ _ _
  | logical l _ _ _ | group l _ | assign l _ _ | call l _ _ => l

/-- A statement. -/
inductive Stmt where
  /-- An expression evaluated for its value or its effect. -/
  | expression (line : Int) (value : Expr)
  /-- Writes the text of a value and ends the line. -/
  | print (line : Int) (value : Expr)
  /-- Binds a name, to the value of its initializer or to nil. -/
  | declare (line : Int) (name : String) (initializer : Option Expr)
  /-- Binds a name to a new function; the body is a block with a line of its own. -/
  | function (line : Int) (name : String) (params : List String) (bodyLine : Int)
      (body : List Stmt)
  /-- Statements in a scope of their own. -/
  | block (line : Int) (body : List Stmt)
  | ifThen (line : Int) (condition : Expr) (yes : Stmt)
  | ifElse (line : Int) (condition : Expr) (yes no : Stmt)
  /-- Repeats the body as long as the condition holds. -/
  | loop (line : Int) (condition : Expr) (body : Stmt)
  /-- Ends the function that runs, with a value or with nil. -/
  | giveBack (line : Int) (value : Option Expr)
  deriving Inhabited

/-- The line of a statement. -/
def Stmt.line : Stmt → Int
  | expression l _ | print l _ | declare l _ _ | function l _ _ _ _ | block l _ | ifThen l _ _
  | ifElse l _ _ _ | loop l _ _ | giveBack l _ => l

/-- A program: its statements, and the line of its first token. -/
structure Program where
  line : Int
  body : List Stmt

end Lox

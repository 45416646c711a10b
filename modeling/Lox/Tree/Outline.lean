import Lox.Number.Decimal
import Lox.Text.Quoted
import Lox.Tree.Basic

/-!
# Trees in parenthesised form

An outline is the shape of a tree with the lines left out, and `Outline.render` writes it down:
`(- (- 10 3) 1)`.  There is one builder for each form of expression and statement.  Outlines may
have gaps, so that a tree with parts still missing can be shown; the outline of an expression, a
statement or a program has none.
-/

namespace Lox

/-- The shape of a tree. -/
inductive Outline where
  /-- A part that is missing. -/
  | gap
  /-- A leaf with its text. -/
  | leaf (text : String)
  /-- A form: its heading and its parts. -/
  | form (heading : String) (parts : List Outline)
  deriving Inhabited

namespace Outline

mutual

/-- An outline in parenthesised form. -/
def render : Outline → String
  | gap => "<nil>"
  | leaf text => text
  | form heading parts => "(" ++ heading ++ renderParts parts ++ ")"

/-- The parts of a form, each after a space. -/
def renderParts : List Outline → String
  | [] => ""
  | part :: parts => " " ++ render part ++ renderParts parts

end

/-! ## Forms of expressions -/

def number (value : Float) : Outline := leaf (Number.text value)

def string (value : String) : Outline := leaf (Text.Quoted.text value)

def bool (value : Bool) : Outline := leaf (if value then "true" else "false")

def nil : Outline := leaf "nil"

def name (name : String) : Outline := leaf name

def unary (op : UnaryOp) (operand : Outline) : Outline := form op.symbol [operand]

def binary (op : BinaryOp) (left right : Outline) : Outline := form op.symbol [left, right]

def logical (op : LogicalOp) (left right : Outline) : Outline := form op.symbol [left, right]

def group (inner : Outline) : Outline := form "group" [inner]

def assign (name : String) (value : Outline) : Outline := form ("= " ++ name) [value]

def call (callee : String) (arguments : List Outline) : Outline :=
  form ("call " ++ callee) arguments

/-! ## Forms of statements -/

def expression (value : Outline) : Outline := form "expr" [value]

def print (value : Outline) : Outline := form "print" [value]

def declare (name : String) (initializer : Option Outline) : Outline :=
  form ("var " ++ name) initializer.toList

def block (body : List Outline) : Outline := form "block" body

def function (name : String) (params : List String) (body : List Outline) : Outline :=
  form ("fun " ++ name ++ "(" ++ " ".intercalate params ++ ")") [block body]

def choice (condition yes : Outline) (no : Option Outline) : Outline :=
  form "if" (condition :: yes :: no.toList)

def loop (condition body : Outline) : Outline := form "while" [condition, body]

def giveBack (value : Option Outline) : Outline := form "return" value.toList

def program (body : List Outline) : Outline := form "program" body

end Outline

mutual

/-- The outline of an expression. -/
def Expr.outline : Expr → Outline
  | .number _ value => .number value
  | .string _ value => .string value
  | .bool _ value => .bool value
  | .nil _ => .nil
  | .name _ x => .name x
  | .unary _ op operand => .unary op operand.outline
  | .binary _ op left right => .binary op left.outline right.outline
  | .logical _ op left right => .logical op left.outline right.outline
  | .group _ inner => .group inner.outline
  | .assign _ x value => .assign x value.outline
  | .call _ callee arguments => .call callee (Expr.outlines arguments)

/-- The outlines of a list of expressions. -/
def Expr.outlines : List Expr → List Outline
  | [] => []
  | e :: es => e.outline :: Expr.outlines es

end

mutual

/-- The outline of a statement. -/
def Stmt.outline : Stmt → Outline
  | .expression _ value => .expression value.outline
  | .print _ value => .print value.outline
  | .declare _ x initializer => .declare x (initializer.map Expr.outline)
  | .function _ f params _ body => .function f params (Stmt.outlines body)
  | .block _ body => .block (Stmt.outlines body)
  | .ifThen _ condition yes => .choice condition.outline yes.outline none
  | .ifElse _ condition yes no => .choice condition.outline yes.outline (some no.outline)
  | .loop _ condition body => .loop condition.outline body.outline
  | .giveBack _ value => .giveBack (value.map Expr.outline)

/-- The outlines of a list of statements. -/
def Stmt.outlines : List Stmt → List Outline
  | [] => []
  | s :: ss => s.outline :: Stmt.outlines ss

end

/-- The outline of a program. -/
def Program.outline (p : Program) : Outline :=
  .program (Stmt.outlines p.body)

/-- A program in parenthesised form. -/
def Program.render (p : Program) : String :=
  p.outline.render

end Lox

import Lox.Number.Decimal
import Lox.Tree.Basic

/-!
# Trees as listings

The nodes of a tree from the root down and from left to right, each with its depth, its form, its
line and what distinguishes it from other nodes of its form.
-/

namespace Lox

/-- The form of a node. -/
inductive NodeForm where
  | number | string | bool | nil | name | unary | binary | logical | group | assign | call
  | expression | print | declare | function | block | choice | loop | giveBack | program
  deriving DecidableEq, Repr

/-- An entry of a listing. -/
structure TreeNode where
  depth : Nat
  form : NodeForm
  line : Int
  label : Option String

mutual

/-- The nodes of an expression at a depth. -/
def Expr.nodes (depth : Nat) : Expr → List TreeNode
  | .number l value => [⟨depth, .number, l, some (Number.text value)⟩]
  | .string l value => [⟨depth, .string, l, some value⟩]
  | .bool l value => [⟨depth, .bool, l, some (if value then "true" else "false")⟩]
  | .nil l => [⟨depth, .nil, l, none⟩]
  | .name l x => [⟨depth, .name, l, some x⟩]
  | .unary l op operand => ⟨depth, .unary, l, some op.symbol⟩ :: operand.nodes (depth + 1)
  | .binary l op left right =>
    ⟨depth, .binary, l, some op.symbol⟩ :: left.nodes (depth + 1) ++ right.nodes (depth + 1)
  | .logical l op left right =>
    ⟨depth, .logical, l, some op.symbol⟩ :: left.nodes (depth + 1) ++ right.nodes (depth + 1)
  | .group l inner => ⟨depth, .group, l, none⟩ :: inner.nodes (depth + 1)
  | .assign l x value => ⟨depth, .assign, l, some x⟩ :: value.nodes (depth + 1)
  | .call l callee arguments =>
    ⟨depth, .call, l, some callee⟩ :: Expr.nodesOfAll (depth + 1) arguments

/-- The nodes of a list of expressions at a depth. -/
def Expr.nodesOfAll (depth : Nat) : List Expr → List TreeNode
  | [] => []
  | e :: es => e.nodes depth ++ Expr.nodesOfAll depth es

end

mutual

/-- The nodes of a statement at a depth. -/
def Stmt.nodes (depth : Nat) : Stmt → List TreeNode
  | .expression l value => ⟨depth, .expression, l, none⟩ :: value.nodes (depth + 1)
  | .print l value => ⟨depth, .print, l, none⟩ :: value.nodes (depth + 1)
  | .declare l x initializer =>
    ⟨depth, .declare, l, some x⟩ :: initializer.toList.flatMap (Expr.nodes (depth + 1))
  | .function l f params bodyLine body =>
    ⟨depth, .function, l, some (f ++ "(" ++ ",".intercalate params ++ ")")⟩ ::
      ⟨depth + 1, .block, bodyLine, none⟩ :: Stmt.nodesOfAll (depth + 2) body
  | .block l body => ⟨depth, .block, l, none⟩ :: Stmt.nodesOfAll (depth + 1) body
  | .ifThen l condition yes =>
    ⟨depth, .choice, l, none⟩ :: condition.nodes (depth + 1) ++ yes.nodes (depth + 1)
  | .ifElse l condition yes no =>
    ⟨depth, .choice, l, none⟩ :: condition.nodes (depth + 1) ++ yes.nodes (depth + 1) ++
      no.nodes (depth + 1)
  | .loop l condition body =>
    ⟨depth, .loop, l, none⟩ :: condition.nodes (depth + 1) ++ body.nodes (depth + 1)
  | .giveBack l value =>
    ⟨depth, .giveBack, l, none⟩ :: value.toList.flatMap (Expr.nodes (depth + 1))

/-- The nodes of a list of statements at a depth. -/
def Stmt.nodesOfAll (depth : Nat) : List Stmt → List TreeNode
  | [] => []
  | s :: ss => s.nodes depth ++ Stmt.nodesOfAll depth ss

end

/-- The form of a statement's own node. -/
def Stmt.form : Stmt → NodeForm
  | .expression _ _ => .expression
  | .print _ _ => .print
  | .declare _ _ _ => .declare
  | .function _ _ _ _ _ => .function
  | .block _ _ => .block
  | .ifThen _ _ _ | .ifElse _ _ _ _ => .choice
  | .loop _ _ _ => .loop
  | .giveBack _ _ => .giveBack

/-- The nodes of a program. -/
def Program.nodes (p : Program) : List TreeNode :=
  ⟨0, .program, p.line, none⟩ :: Stmt.nodesOfAll 1 p.body

end Lox

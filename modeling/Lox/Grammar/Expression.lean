import Lox.Grammar.Reading
import Lox.Number.Numeral
import Lox.Tree.Basic

/-!
# The grammar of expressions

```text
expression = NAME "=" expression | or
or         = and ("or" and)*
and        = equality ("and" equality)*
equality   = comparison (("==" | "!=") comparison)*
comparison = sum ((">" | ">=" | "<" | "<=") sum)*
sum        = product (("-" | "+") product)*
product    = unary (("/" | "*") unary)*
unary      = ("!" | "-") unary | call
call       = NAME "(" (expression ("," expression)*)? ")" | primary
primary    = NUMBER | STRING | "true" | "false" | "nil" | NAME | "(" expression ")"
```

The six levels of infix operators, from `or` to `product`, group to the left and share one pair of
rules.  An assignment target and a callee are read as expressions first; that they are names is
checked afterwards.
-/

namespace Lox

/-- The largest number of arguments or parameters that is kept; further ones are read and
dropped. -/
def maxArguments : Nat := 255

/-- What an infix operator makes of its operands. -/
inductive Joint where
  | binary (op : BinaryOp)
  | logical (op : LogicalOp)
  deriving DecidableEq, Repr

/-- Joins two operands; the node has the line of the operator. -/
def Joint.build (line : Int) (left right : Expr) : Joint → Expr
  | binary op => .binary line op left right
  | logical op => .logical line op left right

/-- A level of infix operators. -/
inductive Level where
  | or | and | equality | comparison | sum | product
  deriving DecidableEq, Repr

namespace Level

/-- The levels from the loosest to the tightest. -/
def all : List Level := [or, and, equality, comparison, sum, product]

/-- The infix operators of a level. -/
def joint? : Level → Token.Kind → Option Joint
  | or, .orWord => some (.logical .or)
  | and, .andWord => some (.logical .and)
  | equality, .equalEqual => some (.binary .equal)
  | equality, .bangEqual => some (.binary .notEqual)
  | comparison, .greater => some (.binary (.order .greater))
  | comparison, .greaterEqual => some (.binary (.order .greaterEqual))
  | comparison, .less => some (.binary (.order .less))
  | comparison, .lessEqual => some (.binary (.order .lessEqual))
  | sum, .minus => some (.binary (.arithmetic .subtract))
  | sum, .plus => some (.binary (.arithmetic .add))
  | product, .slash => some (.binary (.arithmetic .divide))
  | product, .star => some (.binary (.arithmetic .multiply))
  | _, _ => none

end Level

/-- The operator that stands in front of its operand. -/
def Token.Kind.unary? : Token.Kind → Option UnaryOp
  | .bang => some .not
  | .minus => some .negate
  | _ => none

/-- The number that a token stands for: its payload, or else what its source text says. -/
def Token.numberValue (t : Token) : Float :=
  match t.literal with
  | some (.number value) => value
  | _ => (Number.Numeral.read t.lexeme).toFloat

/-- The text that a token stands for: its payload, or else its source text. -/
def Token.textValue (t : Token) : String :=
  match t.literal with
  | some (.text value) => value
  | _ => t.lexeme

/-- The leaf that a token is on its own. -/
def Token.leaf? (t : Token) : Option Expr :=
  match t.kind with
  | .number => some (.number t.line t.numberValue)
  | .string => some (.string t.line t.textValue)
  | .trueWord => some (.bool t.line true)
  | .falseWord => some (.bool t.line false)
  | .nilWord => some (.nil t.line)
  | .identifier => some (.name t.line t.textValue)
  | _ => none

namespace Grammar

open Reading

mutual

/-- An assignment, which groups to the right, or an infix expression. -/
def expression (ts : List Token) : Reading Expr :=
  (operation Level.all ts).andThen ts fun target rest h =>
    match rest, h with
    | [], _ => done target
    | equals :: rest, _ =>
      if equals.kind = .equal then
        ((expression rest).andThen rest fun value _ _ =>
          match target with
          | .name _ x => done (.assign equals.line x value)
          | _ => stuck ⟨.invalidTarget, some equals⟩ 0).shift 1
      else done target
termination_by ts.length * 16 + 10
decreasing_by all_goals (try simp only [List.length_cons, Level.all, List.length_nil] at *); omega

/-- Operands of the levels `levels`, joined by their infix operators. -/
def operation (levels : List Level) (ts : List Token) : Reading Expr :=
  match levels with
  | [] => unary ts
  | level :: tighter =>
    (operation tighter ts).andThen ts fun left rest _ => operationTail level tighter left rest
termination_by ts.length * 16 + levels.length + 3
decreasing_by all_goals (try simp only [List.length_cons, List.length_nil] at *); omega

/-- What follows an operand: operators of one level, each with its right operand. -/
def operationTail (level : Level) (tighter : List Level) (left : Expr) (ts : List Token) :
    Reading Expr :=
  match ts with
  | [] => done left
  | op :: rest =>
    match level.joint? op.kind with
    | some joint =>
      ((operation tighter rest).andThen rest fun right rest _ =>
        operationTail level tighter (joint.build op.line left right) rest).shift 1
    | none => done left
termination_by ts.length * 16 + tighter.length + 3
decreasing_by all_goals (try simp only [List.length_cons] at *); omega

/-- An operator in front of its operand, or a call. -/
def unary (ts : List Token) : Reading Expr :=
  match ts with
  | [] => call []
  | op :: rest =>
    match op.kind.unary? with
    | some u =>
      ((unary rest).andThen rest fun operand _ _ => done (.unary op.line u operand)).shift 1
    | none => call (op :: rest)
termination_by ts.length * 16 + 2
decreasing_by all_goals (try simp only [List.length_cons] at *); omega

/-- A primary expression, with its arguments if it is called. -/
def call (ts : List Token) : Reading Expr :=
  (primary ts).andThen ts fun callee rest h =>
    match rest, h with
    | [], _ => done callee
    | paren :: rest, _ =>
      if paren.kind = .leftParen then
        match callee with
        | .name _ f =>
          ((arguments rest).andThen rest fun args rest _ =>
            match rest with
            | [] => done (.call paren.line f (args.take maxArguments))
            | again :: _ =>
              if again.kind = .leftParen then stuck ⟨.uncallable, some again⟩ 1
              else done (.call paren.line f (args.take maxArguments))).shift 1
        | _ => stuck ⟨.uncallable, some paren⟩ 1
      else done callee
termination_by ts.length * 16 + 1
decreasing_by all_goals (try simp only [List.length_cons] at *); omega

/-- A leaf or an expression in parentheses. -/
def primary (ts : List Token) : Reading Expr :=
  match ts with
  | [] => stuck ⟨.noExpression, none⟩ 0
  | t :: rest =>
    match t.leaf? with
    | some leaf => made leaf 1
    | none =>
      if t.kind = .leftParen then
        ((expression rest).andThen rest fun inner rest _ =>
          close .rightParen .afterExpression rest (.group t.line inner)).shift 1
      else stuck ⟨.noExpression, some t⟩ 0
termination_by ts.length * 16
decreasing_by all_goals (try simp only [List.length_cons] at *); omega

/-- The arguments of a call, with the closing parenthesis. -/
def arguments (ts : List Token) : Reading (List Expr) :=
  match ts with
  | [] => argumentList []
  | t :: rest => if t.kind = .rightParen then made [] 1 else argumentList (t :: rest)
termination_by ts.length * 16 + 12
decreasing_by all_goals (try simp only [List.length_cons] at *); omega

/-- At least one argument, with the closing parenthesis. -/
def argumentList (ts : List Token) : Reading (List Expr) :=
  (expression ts).andThen ts fun first rest h =>
    match rest, h with
    | [], _ => close .rightParen .afterArguments [] [first]
    | t :: rest, _ =>
      if t.kind = .comma then ((argumentList rest).map (first :: ·)).shift 1
      else close .rightParen .afterArguments (t :: rest) [first]
termination_by ts.length * 16 + 11
decreasing_by all_goals (try simp only [List.length_cons] at *); omega

end

end Grammar

end Lox

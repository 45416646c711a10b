import Lox.Text.Utf8
import Lox.Value.Fault

/-!
# Operations on values

What the operators of the language make of values.  Arithmetic takes two numbers, and `+` also two
texts.  Numbers, texts and truth values are ordered; a comparison with the undefined number is
false.  Two values can be tested for equality if they are of the same kind; functions are equal
only to themselves and natives if they have the same name.
-/

namespace Lox

/-- The arithmetic of numbers. -/
def ArithmeticOp.compute : ArithmeticOp → Float → Float → Float
  | add, x, y => x + y
  | subtract, x, y => x - y
  | multiply, x, y => x * y
  | divide, x, y => x / y

/-- What an arithmetic operator makes of two values, if it takes them. -/
def ArithmeticOp.result? (op : ArithmeticOp) : Value → Value → Option Value
  | .number x, .number y => some (.number (op.compute x y))
  | .string s, .string t => if op = .add then some (.string (s ++ t)) else none
  | _, _ => none

/-- The order of two numbers; none if one of them is undefined. -/
def Number.order? (x y : Float) : Option Ordering :=
  if x < y then some .lt else if y < x then some .gt else if x == y then some .eq else none

/-- The order of two truth values: false comes before true. -/
def Value.boolOrder (a b : Bool) : Ordering :=
  match a, b with
  | false, true => .lt
  | true, false => .gt
  | _, _ => .eq

/-- The order of two values, if they are of a kind that has one; the undefined number is in no
order with any number. -/
def Value.order? : Value → Value → Option (Option Ordering)
  | number x, number y => some (Number.order? x y)
  | string s, string t => some (some (Text.Utf8.order s t))
  | bool a, bool b => some (some (boolOrder a b))
  | _, _ => none

/-- An order operator accepts an order. -/
def OrderOp.accepts : OrderOp → Ordering → Bool
  | less, o => o == .lt
  | lessEqual, o => o != .gt
  | greater, o => o == .gt
  | greaterEqual, o => o != .lt

/-- What an order operator makes of two values, if it takes them. -/
def OrderOp.result? (op : OrderOp) (left right : Value) : Option Value :=
  (Value.order? left right).map fun order => .bool ((order.map op.accepts).getD false)

/-- Equality of two values of the same kind; none for values of different kinds. -/
def Value.equal? : Value → Value → Option Bool
  | number x, number y => some (x == y)
  | string s, string t => some (s == t)
  | bool a, bool b => some (a == b)
  | nil, nil => some true
  | function f, function g => some (f.id == g.id)
  | native m, native n => some (m.name == n.name)
  | _, _ => none

/-- What an operator of the language makes of two values, if it takes them. -/
def BinaryOp.result? : BinaryOp → Value → Value → Option Value
  | arithmetic op, l, r => op.result? l r
  | order op, l, r => op.result? l r
  | equal, l, r => (Value.equal? l r).map .bool
  | notEqual, l, r => (Value.equal? l r).map fun same => .bool (!same)
  | other _, _, _ => none

/-- The failure of an operator that does not take its two operands. -/
def operandPairFailure (line : Int) (symbol : String) (left right : Value) : Failure :=
  .fault ⟨line, .operandPair symbol left.kind right.kind⟩

/-- The value of a binary operator. -/
def BinaryOp.evaluate (line : Int) (op : BinaryOp) (left right : Value) : Except Failure Value :=
  match op with
  | other symbol => .error (.binaryOperator symbol)
  | _ =>
    match op.result? left right with
    | some v => .ok v
    | none => .error (operandPairFailure line op.symbol left right)

/-- The value of a logical operator, which takes two truth values. -/
def LogicalOp.evaluate (line : Int) (op : LogicalOp) (left right : Value) : Except Failure Value :=
  match left, right with
  | .bool a, .bool b => .ok (.bool (op.apply a b))
  | l, r => .error (operandPairFailure line op.symbol l r)

/-- The value of a unary operator. -/
def UnaryOp.evaluate (line : Int) (op : UnaryOp) (operand : Value) : Except Failure Value :=
  match op, operand with
  | negate, .number x => .ok (.number (-x))
  | negate, v => .error (.fault ⟨line, .operandType op.symbol v.kind⟩)
  | not, v => .ok (.bool !v.isTruthy)
  | other symbol, _ => .error (.unaryOperator symbol)

/-- The truth value of a condition; `keyword` names the statement that asks for it. -/
def Value.condition (line : Int) (keyword : String) : Value → Except Failure Bool
  | bool b => .ok b
  | v => .error (.fault ⟨line, .operandType keyword v.kind⟩)

end Lox

import Lox.Value.Basic

/-!
# Failures of programs

The ways in which an evaluation can fail, and their wording.  A fault is a failure that the rules
of the language define; it has a line.  The other failures come from the host, or from operators
that only a tree made by hand can hold.
-/

namespace Lox

namespace Fault

/-- What a fault is about. -/
inductive Cause where
  /-- An operator or a condition got an operand of the wrong kind. -/
  | operandType (operator : String) (operand : Value.Kind)
  /-- An operator does not take operands of these two kinds. -/
  | operandPair (operator : String) (left right : Value.Kind)
  | undefinedVariable (name : String)
  | undefinedFunction (name : String)
  | arity (name : String) (expected got : Int)
  /-- A name is called that is bound to something else than a function. -/
  | notCallable (name : String) (bound : Value.Kind)
  /-- A number that stands for no cause. -/
  | unknown (number : Int)
  deriving DecidableEq, Repr

/-- The kinds of faults. -/
inductive Kind where
  | operandType | operandPair | undefinedVariable | undefinedFunction | arity | notCallable
  /-- A number that stands for no kind. -/
  | unknown (number : Int)
  deriving DecidableEq, Repr

namespace Kind

/-- The name of a kind of fault. -/
def name : Kind → String
  | operandType => "operand type mismatch"
  | operandPair => "operand pair mismatch"
  | undefinedVariable => "undefined variable"
  | undefinedFunction => "undefined function"
  | arity => "arity mismatch"
  | notCallable => "not callable"
  | unknown n => "unknown_runtime_error_" ++ toString n

/-- The kind with a number. -/
def ofNumber : Int → Kind
  | 0 => operandType
  | 1 => operandPair
  | 2 => undefinedVariable
  | 3 => undefinedFunction
  | 4 => arity
  | 5 => notCallable
  | n => unknown n

end Kind

namespace Cause

/-- The kind of a cause. -/
def kind : Cause → Kind
  | operandType _ _ => .operandType
  | operandPair _ _ _ => .operandPair
  | undefinedVariable _ => .undefinedVariable
  | undefinedFunction _ => .undefinedFunction
  | arity _ _ _ => .arity
  | notCallable _ _ => .notCallable
  | unknown n => .unknown n

/-- The operand that an operator with one operand wants. -/
def wanted (operator : String) : String :=
  if operator == "-" then "a number" else "a bool"

/-- The wording of a cause. -/
def message : Cause → String
  | operandType operator operand =>
    "operand of '" ++ operator ++ "' must be " ++ wanted operator ++ ", got " ++ operand.name
  | operandPair operator left right =>
    "unsupported operands for '" ++ operator ++ "': " ++ left.name ++ " and " ++ right.name
  | undefinedVariable name => "Undefined variable '" ++ name ++ "'"
  | undefinedFunction name => "Undefined function '" ++ name ++ "'"
  | arity name expected got =>
    "Function '" ++ name ++ "' expects " ++ toString expected ++ " arguments, got " ++ toString got
  | notCallable name _ => "'" ++ name ++ "' is not callable"
  | unknown n => (Kind.unknown n).name

end Cause

end Fault

/-- A failure that the rules of the language define. -/
structure Fault where
  line : Int
  cause : Fault.Cause
  deriving DecidableEq, Repr

/-- A fault as it is reported; a line that is not positive is left out. -/
def Fault.text (f : Fault) : String :=
  let message := "runtime error: " ++ f.cause.message
  if 0 < f.line then "[line " ++ toString f.line ++ "] " ++ message else message

/-- A failed evaluation. -/
inductive Failure where
  | fault (f : Fault)
  /-- A native function failed. -/
  | native (name message : String)
  /-- The output refused what `print` wrote. -/
  | print (message : String)
  | unaryOperator (symbol : String)
  | binaryOperator (symbol : String)
  deriving DecidableEq, Repr

/-- A failure as it is reported. -/
def Failure.text : Failure → String
  | fault f => f.text
  | native name message => "native " ++ name ++ ": " ++ message
  | print message => "print: " ++ message
  | unaryOperator symbol => "unsupported unary operator " ++ symbol
  | binaryOperator symbol => "unsupported binary operator " ++ symbol

end Lox

import Lox.Number.Decimal
import Lox.Tree.Basic

/-!
# Values

The values that programs compute with, their kinds, and the text that `print` writes for them.
-/

namespace Lox

/-- A function declared in a program.  It carries no scope of its own: free names are looked up
where it is called.  Every declaration that is executed makes a function with a new `id`. -/
structure Function where
  id : Nat
  name : String
  params : List String
  body : List Stmt

/-- What a native function does. -/
inductive NativeAction where
  /-- Announces the call on the output. -/
  | announce
  /-- Calls the host, which may answer with a failure. -/
  | host (failure : Option String)
  deriving DecidableEq, Repr

/-- A function without parameters that the host provides. -/
structure Native where
  name : String
  action : NativeAction
  deriving DecidableEq, Repr

/-- A value. -/
inductive Value where
  | number (value : Float)
  | string (value : String)
  | bool (value : Bool)
  | nil
  | function (f : Function)
  | native (n : Native)

namespace Value

/-- The kinds of values. -/
inductive Kind where
  | number | string | bool | nil | function | native
  /-- A number that stands for no kind. -/
  | unknown (number : Int)
  deriving DecidableEq, Repr

namespace Kind

/-- The name of a kind in messages. -/
def name : Kind → String
  | number => "number"
  | string => "string"
  | bool => "bool"
  | nil => "nil"
  | function => "function"
  | native => "native_function"
  | unknown n => "unknown_kind_" ++ toString n

/-- The kind with a number. -/
def ofNumber : Int → Kind
  | 0 => number
  | 1 => string
  | 2 => bool
  | 3 => nil
  | 4 => function
  | 5 => native
  | n => unknown n

end Kind

/-- The kind of a value. -/
def kind : Value → Kind
  | number _ => .number
  | string _ => .string
  | bool _ => .bool
  | nil => .nil
  | function _ => .function
  | native _ => .native

/-- The text of a value as `print` writes it. -/
def text : Value → String
  | number x => Number.text x
  | string s => s
  | bool true => "true"
  | bool false => "false"
  | nil => "nil"
  | function f => "<fn " ++ f.name ++ ">"
  | native n => "<native fn " ++ n.name ++ ">"

/-- The text of a value that may be missing; a missing one shows as nil. -/
def textOf (v : Option Value) : String :=
  (v.getD nil).text

/-- Nil and false count as false, every other value as true. -/
def isTruthy : Value → Bool
  | bool b => b
  | nil => false
  | _ => true

/-- The value is nil. -/
def isNil : Value → Bool
  | nil => true
  | _ => false

/-- The number of arguments that a callable value takes. -/
def arity? : Value → Option Nat
  | function f => some f.params.length
  | native _ => some 0
  | _ => none

end Value

end Lox

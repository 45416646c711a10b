import Lox.Machine.Basic

/-!
# Evaluation

Expressions yield values.  A statement either goes on to the next one or gives a value back to the
call that runs it.  Blocks and calls run in a new scope inside the one they are met in, so a
function sees the names of its caller.

Programs need not end, so every rule takes fuel, which bounds how deeply evaluation may nest and
how often a loop may repeat; without fuel it stops with `Stop.outOfFuel`.
-/

namespace Lox

/-- How a statement ends. -/
inductive Flow where
  /-- The next statement follows; the value is that of the statement. -/
  | next (value : Value)
  /-- The function that runs gives back a value. -/
  | giveBack (value : Value)

namespace Eval

mutual

/-- The value of an expression in a scope. -/
def expression (fuel : Nat) (scope : ScopeId) (e : Expr) : Eval Value :=
  match fuel with
  | 0 => stop .outOfFuel
  | fuel + 1 =>
    match e with
    | .number _ x => return .number x
    | .string _ s => return .string s
    | .bool _ b => return .bool b
    | .nil _ => return .nil
    | .name line x => do
      let bound ← lookup scope x
      require (.fault ⟨line, .undefinedVariable x⟩) bound
    | .group _ inner => expression fuel scope inner
    | .unary line op operand => do
      let v ← expression fuel scope operand
      ofExcept (op.evaluate line v)
    | .binary line op left right => do
      let l ← expression fuel scope left
      let r ← expression fuel scope right
      ofExcept (op.evaluate line l r)
    | .logical line op left right => do
      let l ← expression fuel scope left
      let r ← expression fuel scope right
      ofExcept (op.evaluate line l r)
    | .assign line x value => do
      let v ← expression fuel scope value
      assign line scope x v
      return v
    | .call line f args => do
      let bound ← lookup scope f
      let callee ← require (.fault ⟨line, .undefinedFunction f⟩) bound
      let arity ← require (.fault ⟨line, .notCallable f callee.kind⟩) callee.arity?
      let values ← expressions fuel scope args
      if values.length = arity then apply fuel scope line f callee values
      else fail (.fault ⟨line, .arity f arity values.length⟩)

/-- The values of a list of expressions in a scope, from left to right. -/
def expressions (fuel : Nat) (scope : ScopeId) (es : List Expr) : Eval (List Value) :=
  match fuel with
  | 0 => stop .outOfFuel
  | fuel + 1 =>
    match es with
    | [] => return []
    | e :: es => do
      let v ← expression fuel scope e
      let vs ← expressions fuel scope es
      return v :: vs

/-- The value that a callable gives back for its arguments; a failure names the line and the name
of the call. -/
def apply (fuel : Nat) (scope : ScopeId) (line : Int) (name : String) (callee : Value)
    (args : List Value) : Eval Value :=
  match fuel with
  | 0 => stop .outOfFuel
  | fuel + 1 =>
    match callee with
    | .function f => do
      let inner ← extend scope
      defineAll inner (f.params.zip args)
      let flow ← statements fuel inner f.body
      match flow with
      | .next _ => return .nil
      | .giveBack v => return v
    | .native n => callNative n
    | other => fail (.fault ⟨line, .notCallable name other.kind⟩)

/-- Executes a statement in a scope. -/
def statement (fuel : Nat) (scope : ScopeId) (s : Stmt) : Eval Flow :=
  match fuel with
  | 0 => stop .outOfFuel
  | fuel + 1 =>
    match s with
    | .expression _ value => do
      let v ← expression fuel scope value
      return .next v
    | .print _ value => do
      let v ← expression fuel scope value
      write .print (v.text ++ "\n")
      return .next .nil
    | .declare _ x none => do
      define scope x .nil
      return .next .nil
    | .declare _ x (some value) => do
      let v ← expression fuel scope value
      define scope x v
      return .next .nil
    | .function _ name params _ body => do
      let f ← newFunction name params body
      define scope name f
      return .next .nil
    | .block _ body => do
      let inner ← extend scope
      statements fuel inner body
    | .ifThen _ test yes => do
      let v ← expression fuel scope test
      let holds ← ofExcept (v.condition test.line "if")
      if holds then statement fuel scope yes else return .next .nil
    | .ifElse _ test yes no => do
      let v ← expression fuel scope test
      let holds ← ofExcept (v.condition test.line "if")
      if holds then statement fuel scope yes else statement fuel scope no
    | .loop _ test body => loop fuel scope test body
    | .giveBack _ none => return .giveBack .nil
    | .giveBack _ (some value) => do
      let v ← expression fuel scope value
      return .giveBack v

/-- Executes statements in a scope, one after the other, up to one that gives a value back. -/
def statements (fuel : Nat) (scope : ScopeId) (ss : List Stmt) : Eval Flow :=
  match fuel with
  | 0 => stop .outOfFuel
  | fuel + 1 =>
    match ss with
    | [] => return .next .nil
    | s :: ss => do
      let flow ← statement fuel scope s
      match flow with
      | .next _ => statements fuel scope ss
      | .giveBack v => return .giveBack v

/-- Executes the body of a loop in a scope as long as the condition holds. -/
def loop (fuel : Nat) (scope : ScopeId) (test : Expr) (body : Stmt) : Eval Flow :=
  match fuel with
  | 0 => stop .outOfFuel
  | fuel + 1 => do
    let v ← expression fuel scope test
    let holds ← ofExcept (v.condition test.line "while")
    if holds then
      let flow ← statement fuel scope body
      match flow with
      | .next _ => loop fuel scope test body
      | .giveBack v => return .giveBack v
    else return .next .nil

end

end Eval

end Lox

import Lox.Session

/-!
# Evaluation with guards

The rules of evaluation once more, with a guard wherever something could come up that no rule of the
language has an answer to: an operator that the language does not know, a call of what cannot be
called, a parameter without an argument, the use of a value that is not there.  `Eval` goes on in
its own way in such a case; a guarded computation meets a `Hazard` and is over.

Look-ups and operators hand on what they came to, which might be no value at all, so it is the use
of a value that is guarded.
-/

namespace Lox

/-- What must not come up while a program runs. -/
inductive Hazard where
  /-- An operator is applied that the language does not know. -/
  | unknownOperator (symbol : String)
  /-- A value is called that cannot be called. -/
  | uncallable (callee : Value)
  /-- There is no argument for the parameter with this index. -/
  | missingArgument (index : Nat)
  /-- A value is used, or its kind is asked for, where there is none. -/
  | absentValue

/-- A computation on the machine that may meet a hazard. -/
def Guarded (α : Type) : Type := Machine → Except Hazard (Except Stop α × Machine)

namespace Guarded

variable {α β : Type}

/-- A computation without hazards, with its result changed. -/
def lift (r : α → β) (x : Eval α) : Guarded β := fun m => .ok ((x m).1.map r, (x m).2)

/-- Meets a hazard. -/
def meet (hazard : Hazard) : Guarded α := fun _ => .error hazard

/-- Fails in a way that the language defines. -/
def fail (f : Failure) : Guarded α := lift id (Eval.fail f)

/-- A computation that goes on with the result of another one. -/
def andThen (x : Guarded α) (f : α → Guarded β) : Guarded β := fun m =>
  match x m with
  | .ok (.ok a, m) => f a m
  | .ok (.error stop, m) => .ok (.error stop, m)
  | .error hazard => .error hazard

instance : Monad Guarded where
  pure a := lift id (Eval.done a)
  bind := andThen

/-- The use of a value, which has to be there. -/
def present (x : Guarded (Option Value)) : Guarded Value :=
  x >>= fun
    | some v => pure v
    | none => meet .absentValue

/-- What a look-up came to, unless it came to nothing. -/
def found (failure : Failure) (bound : Option Value) : Guarded (Option Value) :=
  if bound.isSome then pure bound else fail failure

/-- The value of a unary operator. -/
def unary (line : Int) (op : UnaryOp) (operand : Value) : Guarded (Option Value) :=
  match op with
  | .other symbol => meet (.unknownOperator symbol)
  | op => lift some (Eval.ofExcept (op.evaluate line operand))

/-- The value of a binary operator. -/
def binary (line : Int) (op : BinaryOp) (left right : Value) : Guarded (Option Value) :=
  match op with
  | .other symbol => meet (.unknownOperator symbol)
  | op => found (operandPairFailure line op.symbol left right) (op.result? left right)

/-- Binds parameters in a scope, each to the argument at its index. -/
def bindParameters (scope : ScopeId) (args : List Value) : (index : Nat) → List String →
    Guarded Unit
  | _, [] => pure ()
  | index, x :: xs =>
    match args[index]? with
    | some v => do
      lift id (Eval.define scope x v)
      bindParameters scope args (index + 1) xs
    | none => meet (.missingArgument index)

mutual

/-- The value of an expression in a scope. -/
def expression (fuel : Nat) (scope : ScopeId) (e : Expr) : Guarded (Option Value) :=
  match fuel with
  | 0 => lift id (Eval.stop .outOfFuel)
  | fuel + 1 =>
    match e with
    | .number _ x => return some (.number x)
    | .string _ s => return some (.string s)
    | .bool _ b => return some (.bool b)
    | .nil _ => return some .nil
    | .name line x => do
      let bound ← lift id (Eval.lookup scope x)
      found (.fault ⟨line, .undefinedVariable x⟩) bound
    | .group _ inner => expression fuel scope inner
    | .unary line op operand => do
      let v ← (expression fuel scope operand).present
      unary line op v
    | .binary line op left right => do
      let l ← (expression fuel scope left).present
      let r ← (expression fuel scope right).present
      binary line op l r
    | .logical line op left right => do
      let l ← (expression fuel scope left).present
      let r ← (expression fuel scope right).present
      lift some (Eval.ofExcept (op.evaluate line l r))
    | .assign line x value => do
      let v ← (expression fuel scope value).present
      lift id (Eval.assign line scope x v)
      return some v
    | .call line f args => do
      let bound ← lift id (Eval.lookup scope f)
      let callee ← (found (.fault ⟨line, .undefinedFunction f⟩) bound).present
      let arity ← lift id
        (Eval.require (.fault ⟨line, .notCallable f callee.kind⟩) callee.arity?)
      let values ← expressions fuel scope args
      if values.length = arity then apply fuel scope callee values
      else fail (.fault ⟨line, .arity f arity values.length⟩)

/-- The values of a list of expressions in a scope, from left to right. -/
def expressions (fuel : Nat) (scope : ScopeId) (es : List Expr) : Guarded (List Value) :=
  match fuel with
  | 0 => lift id (Eval.stop .outOfFuel)
  | fuel + 1 =>
    match es with
    | [] => return []
    | e :: es => do
      let v ← (expression fuel scope e).present
      let vs ← expressions fuel scope es
      return v :: vs

/-- The value that a callable gives back for its arguments. -/
def apply (fuel : Nat) (scope : ScopeId) (callee : Value) (args : List Value) :
    Guarded (Option Value) :=
  match fuel with
  | 0 => lift id (Eval.stop .outOfFuel)
  | fuel + 1 =>
    match callee with
    | .function f => do
      let inner ← lift id (Eval.extend scope)
      bindParameters inner args 0 f.params
      let flow ← statements fuel inner f.body
      match flow with
      | .next _ => return some .nil
      | .giveBack v => return some v
    | .native n => lift some (Eval.callNative n)
    | callee => meet (.uncallable callee)

/-- Executes a statement in a scope. -/
def statement (fuel : Nat) (scope : ScopeId) (s : Stmt) : Guarded Flow :=
  match fuel with
  | 0 => lift id (Eval.stop .outOfFuel)
  | fuel + 1 =>
    match s with
    | .expression _ value => do
      let v ← (expression fuel scope value).present
      return .next v
    | .print _ value => do
      let v ← (expression fuel scope value).present
      lift id (Eval.write .print (v.text ++ "\n"))
      return .next .nil
    | .declare _ x none => do
      lift id (Eval.define scope x .nil)
      return .next .nil
    | .declare _ x (some value) => do
      let v ← (expression fuel scope value).present
      lift id (Eval.define scope x v)
      return .next .nil
    | .function _ name params _ body => do
      let f ← lift id (Eval.newFunction name params body)
      lift id (Eval.define scope name f)
      return .next .nil
    | .block _ body => do
      let inner ← lift id (Eval.extend scope)
      statements fuel inner body
    | .ifThen _ test yes => do
      let v ← (expression fuel scope test).present
      let holds ← lift id (Eval.ofExcept (v.condition test.line "if"))
      if holds then statement fuel scope yes else return .next .nil
    | .ifElse _ test yes no => do
      let v ← (expression fuel scope test).present
      let holds ← lift id (Eval.ofExcept (v.condition test.line "if"))
      if holds then statement fuel scope yes else statement fuel scope no
    | .loop _ test body => loop fuel scope test body
    | .giveBack _ none => return .giveBack .nil
    | .giveBack _ (some value) => do
      let v ← (expression fuel scope value).present
      return .giveBack v

/-- Executes statements in a scope, one after the other, up to one that gives a value back. -/
def statements (fuel : Nat) (scope : ScopeId) (ss : List Stmt) : Guarded Flow :=
  match fuel with
  | 0 => lift id (Eval.stop .outOfFuel)
  | fuel + 1 =>
    match ss with
    | [] => return .next .nil
    | s :: ss => do
      let flow ← statement fuel scope s
      match flow with
      | .next _ => statements fuel scope ss
      | .giveBack v => return .giveBack v

/-- Executes the body of a loop in a scope as long as the condition holds. -/
def loop (fuel : Nat) (scope : ScopeId) (test : Expr) (body : Stmt) : Guarded Flow :=
  match fuel with
  | 0 => lift id (Eval.stop .outOfFuel)
  | fuel + 1 => do
    let v ← (expression fuel scope test).present
    let holds ← lift id (Eval.ofExcept (v.condition test.line "while"))
    if holds then
      let flow ← statement fuel scope body
      match flow with
      | .next _ => loop fuel scope test body
      | .giveBack v => return .giveBack v
    else return .next .nil

end

end Guarded

namespace Session

/-- Executes a statement in the global scope; none of the hazards may come up. -/
def executeGuarded (fuel : Nat) (s : Session) (stmt : Stmt) :
    Except Hazard (StatementResult × Session) :=
  let fresh := { s.machine with output := ⟨"", s.machine.output.room⟩ }
  (Guarded.statement fuel global stmt fresh).map fun (outcome, machine) =>
    (⟨stmt, outcome.map flowValue, machine.output.text⟩, ⟨machine⟩)

/-- Executes statements one after the other in the global scope; none of the hazards may come
up. -/
def executeAllGuarded (fuel : Nat) (echoing : Bool) (s : Session) :
    List Stmt → Except Hazard (List StatementResult × Session)
  | [] => .ok ([], s)
  | stmt :: rest => do
    let (r, s) ← executeGuarded fuel s stmt
    let (r, s) := if echoing then echo r s else (r, s)
    let (rs, s) ← executeAllGuarded fuel echoing s rest
    return (r :: rs, s)

/-- Runs a program; none of the hazards may come up. -/
def runGuarded (fuel : Nat) (echoing : Bool) (s : Session) (p : Program) :
    Except Hazard (List StatementResult × Session) :=
  executeAllGuarded fuel echoing s p.body

end Session

end Lox

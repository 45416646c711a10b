import Lox.Session

/-!
# Evaluation with a returning signal

The rules of evaluation once more, where giving a value back is a signal on the channel of failures.
Every computation yields a value or an exit, and the exit may be a failure or the signal: nothing in
the types keeps the signal out of expressions, and blocks, loops and branches let it through like
any other exit.  It is caught where the body of a function has run and behind a statement at the top
level, nowhere else.

A computation yields its two parts separately, so that neither of them or both are possible, too.
-/

namespace Lox

/-- What ends a computation before its end. -/
inductive Exit where
  | stopped (stop : Stop)
  /-- The function that runs gives a value back. -/
  | returning (value : Value)

/-- What a computation comes to: a value or an exit. -/
structure Yield (α : Type) where
  value? : Option α
  exit? : Option Exit

namespace Yield

variable {α : Type}

/-- A value and no exit. -/
def value (a : α) : Yield α := ⟨some a, none⟩

/-- An exit and no value. -/
def exit (e : Exit) : Yield α := ⟨none, some e⟩

end Yield

/-- A computation on the machine with exits. -/
def Signalled (α : Type) : Type := Machine → Yield α × Machine

namespace Signalled

variable {α β : Type}

/-- A computation that is over. -/
def done (a : α) : Signalled α := fun m => (.value a, m)

/-- Gives a value back. -/
def signal (v : Value) : Signalled α := fun m => (.exit (.returning v), m)

/-- A computation that goes on with the value of another one. -/
def andThen (x : Signalled α) (f : α → Signalled β) : Signalled β := fun m =>
  match x m with
  | (⟨_, some e⟩, m) => (.exit e, m)
  | (⟨some a, none⟩, m) => f a m
  | (⟨none, none⟩, m) => (⟨none, none⟩, m)

instance : Monad Signalled where
  pure := done
  bind := andThen

/-- A computation without signals. -/
def lift (x : Eval α) : Signalled α := fun m =>
  match x m with
  | (.ok a, m) => (.value a, m)
  | (.error stop, m) => (.exit (.stopped stop), m)

/-- Where a signal ends: the value given back is the value, and without one it is nil. -/
def caught (x : Signalled Value) : Signalled Value := fun m =>
  match x m with
  | (⟨_, some (.returning v)⟩, m) => (.value v, m)
  | (⟨_, some (.stopped stop)⟩, m) => (.exit (.stopped stop), m)
  | (⟨_, none⟩, m) => (.value .nil, m)

mutual

/-- The value of an expression in a scope. -/
def expression (fuel : Nat) (scope : ScopeId) (e : Expr) : Signalled Value :=
  match fuel with
  | 0 => lift (Eval.stop .outOfFuel)
  | fuel + 1 =>
    match e with
    | .number _ x => return .number x
    | .string _ s => return .string s
    | .bool _ b => return .bool b
    | .nil _ => return .nil
    | .name line x => do
      let bound ← lift (Eval.lookup scope x)
      lift (Eval.require (.fault ⟨line, .undefinedVariable x⟩) bound)
    | .group _ inner => expression fuel scope inner
    | .unary line op operand => do
      let v ← expression fuel scope operand
      lift (Eval.ofExcept (op.evaluate line v))
    | .binary line op left right => do
      let l ← expression fuel scope left
      let r ← expression fuel scope right
      lift (Eval.ofExcept (op.evaluate line l r))
    | .logical line op left right => do
      let l ← expression fuel scope left
      let r ← expression fuel scope right
      lift (Eval.ofExcept (op.evaluate line l r))
    | .assign line x value => do
      let v ← expression fuel scope value
      lift (Eval.assign line scope x v)
      return v
    | .call line f args => do
      let bound ← lift (Eval.lookup scope f)
      let callee ← lift (Eval.require (.fault ⟨line, .undefinedFunction f⟩) bound)
      let arity ← lift (Eval.require (.fault ⟨line, .notCallable f callee.kind⟩) callee.arity?)
      let values ← expressions fuel scope args
      if values.length = arity then apply fuel scope line f callee values
      else lift (Eval.fail (.fault ⟨line, .arity f arity values.length⟩))

/-- The values of a list of expressions in a scope, from left to right. -/
def expressions (fuel : Nat) (scope : ScopeId) (es : List Expr) : Signalled (List Value) :=
  match fuel with
  | 0 => lift (Eval.stop .outOfFuel)
  | fuel + 1 =>
    match es with
    | [] => return []
    | e :: es => do
      let v ← expression fuel scope e
      let vs ← expressions fuel scope es
      return v :: vs

/-- The value that a callable gives back for its arguments.  The body of a function is where a
signal is caught. -/
def apply (fuel : Nat) (scope : ScopeId) (line : Int) (name : String) (callee : Value)
    (args : List Value) : Signalled Value :=
  match fuel with
  | 0 => lift (Eval.stop .outOfFuel)
  | fuel + 1 =>
    match callee with
    | .function f => do
      let inner ← lift (Eval.extend scope)
      lift (Eval.defineAll inner (f.params.zip args))
      caught (statements fuel inner f.body)
    | .native n => lift (Eval.callNative n)
    | other => lift (Eval.fail (.fault ⟨line, .notCallable name other.kind⟩))

/-- Executes a statement in a scope. -/
def statement (fuel : Nat) (scope : ScopeId) (s : Stmt) : Signalled Value :=
  match fuel with
  | 0 => lift (Eval.stop .outOfFuel)
  | fuel + 1 =>
    match s with
    | .expression _ value => expression fuel scope value
    | .print _ value => do
      let v ← expression fuel scope value
      lift (Eval.write .print (v.text ++ "\n"))
      return .nil
    | .declare _ x none => do
      lift (Eval.define scope x .nil)
      return .nil
    | .declare _ x (some value) => do
      let v ← expression fuel scope value
      lift (Eval.define scope x v)
      return .nil
    | .function _ name params _ body => do
      let f ← lift (Eval.newFunction name params body)
      lift (Eval.define scope name f)
      return .nil
    | .block _ body => do
      let inner ← lift (Eval.extend scope)
      statements fuel inner body
    | .ifThen _ test yes => do
      let v ← expression fuel scope test
      let holds ← lift (Eval.ofExcept (v.condition test.line "if"))
      if holds then statement fuel scope yes else return .nil
    | .ifElse _ test yes no => do
      let v ← expression fuel scope test
      let holds ← lift (Eval.ofExcept (v.condition test.line "if"))
      if holds then statement fuel scope yes else statement fuel scope no
    | .loop _ test body => loop fuel scope test body
    | .giveBack _ none => signal .nil
    | .giveBack _ (some value) => do
      let v ← expression fuel scope value
      signal v

/-- Executes statements in a scope, one after the other. -/
def statements (fuel : Nat) (scope : ScopeId) (ss : List Stmt) : Signalled Value :=
  match fuel with
  | 0 => lift (Eval.stop .outOfFuel)
  | fuel + 1 =>
    match ss with
    | [] => return .nil
    | s :: ss => do
      let _ ← statement fuel scope s
      statements fuel scope ss

/-- Executes the body of a loop in a scope as long as the condition holds. -/
def loop (fuel : Nat) (scope : ScopeId) (test : Expr) (body : Stmt) : Signalled Value :=
  match fuel with
  | 0 => lift (Eval.stop .outOfFuel)
  | fuel + 1 => do
    let v ← expression fuel scope test
    let holds ← lift (Eval.ofExcept (v.condition test.line "while"))
    if holds then
      let _ ← statement fuel scope body
      loop fuel scope test body
    else return .nil

end

/-! ## The signal as a way to end -/

/-- A statement that gives a value back, with the signal for it. -/
def raise (x : Eval Flow) : Signalled Value := fun m =>
  match x m with
  | (.ok (.next v), m) => (.value v, m)
  | (.ok (.giveBack v), m) => (.exit (.returning v), m)
  | (.error stop, m) => (.exit (.stopped stop), m)

theorem lift_bind (x : Eval α) (f : α → Eval β) :
    lift (x >>= f) = lift x >>= fun a => lift (f a) := by
  funext m
  show lift (Eval.andThen x f) m = andThen (lift x) (fun a => lift (f a)) m
  simp only [lift, Eval.andThen, andThen]
  rcases x m with ⟨_ | a, m'⟩ <;> rfl

theorem raise_bind (x : Eval α) (f : α → Eval Flow) :
    raise (x >>= f) = lift x >>= fun a => raise (f a) := by
  funext m
  show raise (Eval.andThen x f) m = andThen (lift x) (fun a => raise (f a)) m
  simp only [lift, raise, Eval.andThen, andThen]
  rcases x m with ⟨_ | a, m'⟩ <;> rfl

/-- A statement that goes on with a value does not signal. -/
theorem raise_next (x : Eval Value) : raise (x >>= fun v => pure (.next v)) = lift x := by
  rw [raise_bind]
  funext m
  show andThen (lift x) done m = lift x m
  simp only [lift, andThen]
  rcases x m with ⟨_ | v, m'⟩ <;> rfl

/-- A computation behind a statement is not reached if that gives a value back. -/
theorem raise_then {x : Eval Flow} {f : Flow → Eval Flow} {y : Signalled Value}
    (hnext : ∀ v, raise (f (.next v)) = y) (hback : ∀ v, f (.giveBack v) = pure (.giveBack v)) :
    raise (x >>= f) = raise x >>= fun _ => y := by
  funext m
  show raise (Eval.andThen x f) m = andThen (raise x) (fun _ => y) m
  simp only [raise, Eval.andThen, andThen]
  rcases x m with ⟨_ | v | v, m'⟩
  · rfl
  · exact congrFun (hnext v) m'
  · simp only [hback]
    rfl

/-- Behind the body of a function the value that it gives back is the value. -/
theorem lift_caught {x : Eval Flow} {f : Flow → Eval Value} (hnext : ∀ v, f (.next v) = pure .nil)
    (hback : ∀ v, f (.giveBack v) = pure v) : lift (x >>= f) = caught (raise x) := by
  funext m
  show lift (Eval.andThen x f) m = caught (raise x) m
  simp only [lift, raise, Eval.andThen, caught]
  rcases x m with ⟨_ | v | v, m'⟩
  · rfl
  · simp only [hnext]
    rfl
  · simp only [hback]
    rfl

/-- With this much fuel the signal is the way in which statements give values back. -/
structure Matches (fuel : Nat) : Prop where
  expression : ∀ scope e, expression fuel scope e = lift (Eval.expression fuel scope e)
  expressions : ∀ scope es, expressions fuel scope es = lift (Eval.expressions fuel scope es)
  apply : ∀ scope l x callee vs,
    apply fuel scope l x callee vs = lift (Eval.apply fuel scope l x callee vs)
  statement : ∀ scope s, statement fuel scope s = raise (Eval.statement fuel scope s)
  statements : ∀ scope ss, statements fuel scope ss = raise (Eval.statements fuel scope ss)
  loop : ∀ scope e body, loop fuel scope e body = raise (Eval.loop fuel scope e body)

theorem Matches.zero : Matches 0 where
  expression _ _ := by simp only [Signalled.expression, Eval.expression]
  expressions _ _ := by simp only [Signalled.expressions, Eval.expressions]
  apply _ _ _ _ _ := by simp only [Signalled.apply, Eval.apply]
  statement _ _ := by simp only [Signalled.statement, Eval.statement]; rfl
  statements _ _ := by simp only [Signalled.statements, Eval.statements]; rfl
  loop _ _ _ := by simp only [Signalled.loop, Eval.loop]; rfl

section

variable {fuel : Nat} (ih : Matches fuel) (scope : ScopeId)

include ih

theorem Matches.expression_succ (e : Expr) :
    Signalled.expression (fuel + 1) scope e = lift (Eval.expression (fuel + 1) scope e) := by
  cases e with
  | number l x | string l x | bool l x | nil l =>
    simp only [Signalled.expression, Eval.expression]
    rfl
  | name l x => simp only [Signalled.expression, Eval.expression, lift_bind]
  | group l inner => simp only [Signalled.expression, Eval.expression, ih.expression]
  | unary l op operand | binary l op left right | logical l op left right =>
    simp only [Signalled.expression, Eval.expression, lift_bind, ih.expression]
  | assign l x value =>
    simp only [Signalled.expression, Eval.expression, lift_bind, ih.expression]
    rfl
  | call l f args =>
    simp only [Signalled.expression, Eval.expression, lift_bind, ih.expressions, ih.apply]
    congr
    funext bound
    congr
    funext callee
    congr
    funext arity
    congr
    funext vs
    split <;> rfl

theorem Matches.expressions_succ (es : List Expr) :
    Signalled.expressions (fuel + 1) scope es = lift (Eval.expressions (fuel + 1) scope es) := by
  cases es with
  | nil =>
    simp only [Signalled.expressions, Eval.expressions]
    rfl
  | cons e es =>
    simp only [Signalled.expressions, Eval.expressions, lift_bind, ih.expression, ih.expressions]
    rfl

theorem Matches.apply_succ (l : Int) (x : String) (callee : Value) (vs : List Value) :
    Signalled.apply (fuel + 1) scope l x callee vs =
      lift (Eval.apply (fuel + 1) scope l x callee vs) := by
  cases callee with
  | function g =>
    simp only [Signalled.apply, Eval.apply, ih.statements]
    rw [lift_bind]
    congr
    funext inner
    rw [lift_bind]
    congr
    funext _
    refine (lift_caught ?_ ?_).symm <;> exact fun _ => rfl
  | _ => simp only [Signalled.apply, Eval.apply]

theorem Matches.loop_succ (e : Expr) (body : Stmt) :
    Signalled.loop (fuel + 1) scope e body = raise (Eval.loop (fuel + 1) scope e body) := by
  simp only [Signalled.loop, Eval.loop, raise_bind, ih.expression]
  congr
  funext v
  congr
  funext holds
  cases holds with
  | false => rfl
  | true =>
    simp only [if_true, ih.statement]
    refine (raise_then ?_ ?_).symm
    · exact fun _ => (ih.loop scope e body).symm
    · exact fun _ => rfl

theorem Matches.statements_succ (ss : List Stmt) :
    Signalled.statements (fuel + 1) scope ss = raise (Eval.statements (fuel + 1) scope ss) := by
  cases ss with
  | nil =>
    simp only [Signalled.statements, Eval.statements]
    rfl
  | cons s ss =>
    simp only [Signalled.statements, Eval.statements, ih.statement]
    refine (raise_then ?_ ?_).symm
    · exact fun _ => (ih.statements scope ss).symm
    · exact fun _ => rfl

theorem Matches.statement_succ (s : Stmt) :
    Signalled.statement (fuel + 1) scope s = raise (Eval.statement (fuel + 1) scope s) := by
  cases s with
  | expression l e =>
    simp only [Signalled.statement, Eval.statement, ih.expression]
    exact (raise_next _).symm
  | print l e =>
    simp only [Signalled.statement, Eval.statement, raise_bind, ih.expression]
    rfl
  | declare l x initializer =>
    cases initializer with
    | none =>
      simp only [Signalled.statement, Eval.statement, raise_bind]
      rfl
    | some e =>
      simp only [Signalled.statement, Eval.statement, raise_bind, ih.expression]
      rfl
  | function l g params bodyLine body =>
    simp only [Signalled.statement, Eval.statement, raise_bind]
    rfl
  | block l body =>
    simp only [Signalled.statement, Eval.statement, raise_bind, ih.statements]
  | ifThen l test yes =>
    simp only [Signalled.statement, Eval.statement, raise_bind, ih.expression, ih.statement]
    congr
    funext v
    congr
    funext holds
    cases holds <;> rfl
  | ifElse l test yes no =>
    simp only [Signalled.statement, Eval.statement, raise_bind, ih.expression, ih.statement]
    congr
    funext v
    congr
    funext holds
    cases holds <;> rfl
  | loop l test body => simp only [Signalled.statement, Eval.statement, ih.loop]
  | giveBack l value =>
    cases value with
    | none =>
      simp only [Signalled.statement, Eval.statement]
      rfl
    | some e =>
      simp only [Signalled.statement, Eval.statement, raise_bind, ih.expression]
      rfl

end

/-- Evaluation with the signal is evaluation. -/
theorem matches_all (fuel : Nat) : Matches fuel := by
  induction fuel with
  | zero => exact .zero
  | succ fuel ih =>
    exact ⟨ih.expression_succ, ih.expressions_succ, ih.apply_succ, ih.statement_succ,
      ih.statements_succ, ih.loop_succ⟩

end Signalled

end Lox

import Lox.Proofs.Lines.Machine
import Lox.Session

/-!
# Evaluation at other places

Evaluating a tree with other lines, on a machine with other lines, gives the same as before with
other lines: lines never influence anything but the lines of faults.  This holds step by step
(`Eval.Commutes`), with the same fuel, and so for a whole session
(`Session.executeAll_renumber`).
-/

namespace Lox

namespace Eval

variable {α β γ δ : Type} {f : Int → Int}

/-- The computation `y` does at other places what `x` does; `g` is what becomes of a result. -/
def Commutes (f : Int → Int) (g : α → β) (x : Eval α) (y : Eval β) : Prop :=
  ∀ m, y (m.renumber f) = (Stop.renumberOutcome f g (x m).1, (x m).2.renumber f)

/-! ## The steps of the evaluator -/

theorem Commutes.bind {g : α → β} {h : γ → δ} {x : Eval α} {y : Eval β} {k : α → Eval γ}
    {k' : β → Eval δ} (hx : Commutes f g x y) (hk : ∀ a, Commutes f h (k a) (k' (g a))) :
    Commutes f h (x >>= k) (y >>= k') := by
  intro m
  show andThen y k' (m.renumber f) = (Stop.renumberOutcome f h (andThen x k m).1,
    (andThen x k m).2.renumber f)
  unfold andThen
  rw [hx m]
  cases x m with
  | mk r m₁ =>
    cases r with
    | ok a => exact hk a m₁
    | error stop => rfl

theorem commutes_pure {g : α → β} {a : α} {b : β} (h : b = g a) :
    Commutes f g (pure a) (pure b) := by
  subst h
  exact fun _ => rfl

theorem commutes_fail {g : α → β} {e e' : Failure} (h : e' = e.renumber f) :
    Commutes f g (fail e) (fail e') := by
  subst h
  exact fun _ => rfl

theorem commutes_outOfFuel {g : α → β} : Commutes f g (stop .outOfFuel) (stop .outOfFuel) :=
  fun _ => rfl

theorem commutes_ofExcept {g : α → β} {r : Except Failure α} {r' : Except Failure β}
    (h : r' = Failure.renumberOutcome f g r) : Commutes f g (ofExcept r) (ofExcept r') := by
  subst h
  cases r with
  | ok a => exact commutes_pure rfl
  | error e => exact commutes_fail rfl

theorem commutes_require {g : α → β} {e e' : Failure} {a : Option α} {b : Option β}
    (he : e' = e.renumber f) (hb : b = a.map g) :
    Commutes f g (require e a) (require e' b) := by
  subst hb
  cases a with
  | none => exact commutes_fail he
  | some a => exact commutes_pure rfl

theorem commutes_lookup (scope : ScopeId) (x : String) :
    Commutes f (Option.map (Value.renumber f)) (lookup scope x) (lookup scope x) := by
  intro m
  have hget := m.scopes.get?_mapValues (Value.renumber f) scope x
  exact congrArg (fun v => (Except.ok v, m.renumber f)) hget

theorem commutes_define (scope : ScopeId) (x : String) (v : Value) :
    Commutes f id (define scope x v) (define scope x (v.renumber f)) := by
  intro m
  have hdefine := m.scopes.define_mapValues (Value.renumber f) scope x v
  exact congrArg (fun s => (Except.ok (), ({ m with scopes := s } : Machine))) hdefine

theorem commutes_defineAll (scope : ScopeId) (bindings : List (String × Value)) :
    Commutes f id (defineAll scope bindings)
      (defineAll scope (bindings.map fun b => (b.1, b.2.renumber f))) := by
  induction bindings with
  | nil => exact commutes_pure rfl
  | cons b rest ih => exact (commutes_define scope b.1 b.2).bind fun _ => ih

theorem commutes_assign (line : Int) (scope : ScopeId) (x : String) (v : Value) :
    Commutes f id (assign line scope x v) (assign (f line) scope x (v.renumber f)) := by
  intro m
  have howner : (m.renumber f).scopes.owner? scope x = m.scopes.owner? scope x :=
    m.scopes.owner?_mapValues (Value.renumber f) scope x
  unfold assign
  rw [howner]
  cases m.scopes.owner? scope x with
  | none => rfl
  | some owner => exact commutes_define owner x v m

theorem commutes_extend (scope : ScopeId) : Commutes f id (extend scope) (extend scope) := by
  intro m
  have hsize : (m.renumber f).scopes.size = m.scopes.size := m.scopes.size_mapValues _
  have hadd := m.scopes.add_mapValues (Value.renumber f) (some scope)
  unfold extend
  rw [hsize]
  exact congrArg (fun s => (Except.ok _, ({ m with scopes := s } : Machine))) hadd

theorem commutes_newFunction (name : String) (params : List String) (body : List Stmt) :
    Commutes f (Value.renumber f) (newFunction name params body)
      (newFunction name params (Stmt.renumberAll f body)) :=
  fun _ => rfl

theorem commutes_write {refused : String → Failure}
    (h : ∀ message, (refused message).renumber f = refused message) (s : String) :
    Commutes f id (write refused s) (write refused s) := by
  intro m
  have houtput : (m.renumber f).output = m.output := rfl
  unfold write
  rw [houtput]
  split
  · rfl
  · exact congrArg (fun e => (Except.error (Stop.failed e), m.renumber f)) (h _).symm

theorem commutes_callNative (n : Native) :
    Commutes f (Value.renumber f) (callNative n) (callNative n) := by
  obtain ⟨name, action⟩ := n
  match action with
  | .announce => exact (commutes_write (fun _ => rfl) _).bind fun _ => commutes_pure rfl
  | .host none => exact fun _ => rfl
  | .host (some message) => exact fun _ => rfl

/-! ## Trees -/

/-- With this much fuel, evaluation commutes with renumbering. -/
structure Stable (f : Int → Int) (fuel : Nat) : Prop where
  expression : ∀ scope e, Commutes f (Value.renumber f) (expression fuel scope e)
    (expression fuel scope (e.renumber f))
  expressions : ∀ scope es, Commutes f (List.map (Value.renumber f)) (expressions fuel scope es)
    (expressions fuel scope (Expr.renumberAll f es))
  apply : ∀ scope l x callee vs, Commutes f (Value.renumber f) (apply fuel scope l x callee vs)
    (apply fuel scope (f l) x (callee.renumber f) (vs.map (Value.renumber f)))
  statement : ∀ scope s, Commutes f (Flow.renumber f) (statement fuel scope s)
    (statement fuel scope (s.renumber f))
  statements : ∀ scope ss, Commutes f (Flow.renumber f) (statements fuel scope ss)
    (statements fuel scope (Stmt.renumberAll f ss))
  loop : ∀ scope e body, Commutes f (Flow.renumber f) (loop fuel scope e body)
    (loop fuel scope (e.renumber f) (body.renumber f))

theorem Stable.zero : Stable f 0 where
  expression _ _ := by rw [Eval.expression, Eval.expression]; exact commutes_outOfFuel
  expressions _ _ := by rw [Eval.expressions, Eval.expressions]; exact commutes_outOfFuel
  apply _ _ _ _ _ := by rw [Eval.apply, Eval.apply]; exact commutes_outOfFuel
  statement _ _ := by rw [Eval.statement, Eval.statement]; exact commutes_outOfFuel
  statements _ _ := by rw [Eval.statements, Eval.statements]; exact commutes_outOfFuel
  loop _ _ _ := by rw [Eval.loop, Eval.loop]; exact commutes_outOfFuel

variable {fuel : Nat}

theorem Stable.expression_succ (h : Stable f fuel) (scope : ScopeId) (e : Expr) :
    Commutes f (Value.renumber f) (Eval.expression (fuel + 1) scope e)
      (Eval.expression (fuel + 1) scope (e.renumber f)) := by
  cases e with
  | number l x | string l x | bool l x | nil l =>
    rw [Expr.renumber, Eval.expression, Eval.expression]
    exact commutes_pure rfl
  | name l x =>
    rw [Expr.renumber, Eval.expression, Eval.expression]
    exact (commutes_lookup scope x).bind fun bound => commutes_require rfl rfl
  | group l inner =>
    rw [Expr.renumber, Eval.expression, Eval.expression]
    exact h.expression scope inner
  | unary l op operand =>
    rw [Expr.renumber, Eval.expression, Eval.expression]
    exact (h.expression scope operand).bind fun v =>
      commutes_ofExcept (op.evaluate_renumber f l v)
  | binary l op left right =>
    rw [Expr.renumber, Eval.expression, Eval.expression]
    exact (h.expression scope left).bind fun v => (h.expression scope right).bind fun w =>
      commutes_ofExcept (op.evaluate_renumber f l v w)
  | logical l op left right =>
    rw [Expr.renumber, Eval.expression, Eval.expression]
    exact (h.expression scope left).bind fun v => (h.expression scope right).bind fun w =>
      commutes_ofExcept (op.evaluate_renumber f l v w)
  | assign l x value =>
    rw [Expr.renumber, Eval.expression, Eval.expression]
    exact (h.expression scope value).bind fun v =>
      (commutes_assign l scope x v).bind fun _ => commutes_pure rfl
  | call l callee args =>
    rw [Expr.renumber, Eval.expression, Eval.expression]
    refine (commutes_lookup scope callee).bind fun bound =>
      (commutes_require (g := Value.renumber f) rfl rfl).bind fun v =>
      (commutes_require (g := id) ?_ ?_).bind fun arity =>
      (h.expressions scope args).bind fun vs => ?_
    · rw [Value.kind_renumber]
      rfl
    · rw [Value.arity?_renumber, Option.map_id_fun, id]
    · rw [List.length_map, id]
      split
      · exact h.apply scope l callee v vs
      · exact commutes_fail rfl

theorem Stable.expressions_succ (h : Stable f fuel) (scope : ScopeId) (es : List Expr) :
    Commutes f (List.map (Value.renumber f)) (Eval.expressions (fuel + 1) scope es)
      (Eval.expressions (fuel + 1) scope (Expr.renumberAll f es)) := by
  cases es with
  | nil =>
    rw [Expr.renumberAll, Eval.expressions]
    exact commutes_pure rfl
  | cons e es =>
    rw [Expr.renumberAll, Eval.expressions, Eval.expressions]
    exact (h.expression scope e).bind fun v => (h.expressions scope es).bind fun vs =>
      commutes_pure rfl

theorem zip_renumber (xs : List String) (vs : List Value) :
    xs.zip (vs.map (Value.renumber f)) = (xs.zip vs).map fun b => (b.1, b.2.renumber f) := by
  rw [List.zip_map_right]
  rfl

theorem Stable.apply_succ (h : Stable f fuel) (scope : ScopeId) (l : Int) (x : String)
    (callee : Value) (vs : List Value) :
    Commutes f (Value.renumber f) (Eval.apply (fuel + 1) scope l x callee vs)
      (Eval.apply (fuel + 1) scope (f l) x (callee.renumber f) (vs.map (Value.renumber f))) := by
  cases callee with
  | function g =>
    rw [Value.renumber, Eval.apply, Eval.apply, Function.renumber]
    refine (commutes_extend scope).bind fun inner => ?_
    rw [zip_renumber]
    -- The body of the function is renumbered with the value that carries it.
    refine (commutes_defineAll inner (g.params.zip vs)).bind fun _ => ?_
    refine (h.statements inner g.body).bind fun flow => ?_
    cases flow with
    | next v => exact commutes_pure rfl
    | giveBack v => exact commutes_pure rfl
  | native n =>
    simp only [Value.renumber, Eval.apply]
    exact commutes_callNative n
  | _ =>
    simp only [Value.renumber, Eval.apply]
    exact commutes_fail rfl

theorem Stable.loop_succ (h : Stable f fuel) (scope : ScopeId) (e : Expr) (body : Stmt) :
    Commutes f (Flow.renumber f) (Eval.loop (fuel + 1) scope e body)
      (Eval.loop (fuel + 1) scope (e.renumber f) (body.renumber f)) := by
  rw [Eval.loop, Eval.loop, Expr.line_renumber]
  refine (h.expression scope e).bind fun v =>
    (commutes_ofExcept (v.condition_renumber f e.line "while")).bind fun holds => ?_
  cases holds with
  | false => exact commutes_pure rfl
  | true =>
    refine (h.statement scope body).bind fun flow => ?_
    cases flow with
    | next v => exact h.loop scope e body
    | giveBack v => exact commutes_pure rfl

theorem Stable.statements_succ (h : Stable f fuel) (scope : ScopeId) (ss : List Stmt) :
    Commutes f (Flow.renumber f) (Eval.statements (fuel + 1) scope ss)
      (Eval.statements (fuel + 1) scope (Stmt.renumberAll f ss)) := by
  cases ss with
  | nil =>
    rw [Stmt.renumberAll, Eval.statements]
    exact commutes_pure rfl
  | cons s ss =>
    rw [Stmt.renumberAll, Eval.statements, Eval.statements]
    refine (h.statement scope s).bind fun flow => ?_
    cases flow with
    | next v => exact h.statements scope ss
    | giveBack v => exact commutes_pure rfl

theorem Stable.statement_succ (h : Stable f fuel) (scope : ScopeId) (s : Stmt) :
    Commutes f (Flow.renumber f) (Eval.statement (fuel + 1) scope s)
      (Eval.statement (fuel + 1) scope (s.renumber f)) := by
  cases s with
  | expression l e =>
    rw [Stmt.renumber, Eval.statement, Eval.statement]
    exact (h.expression scope e).bind fun v => commutes_pure rfl
  | print l e =>
    rw [Stmt.renumber, Eval.statement, Eval.statement]
    refine (h.expression scope e).bind fun v => ?_
    rw [Value.text_renumber]
    exact (commutes_write (fun _ => rfl) _).bind fun _ => commutes_pure rfl
  | declare l x initializer =>
    cases initializer with
    | none =>
      rw [Stmt.renumber, Option.map_none, Eval.statement, Eval.statement]
      exact (commutes_define scope x .nil).bind fun _ => commutes_pure rfl
    | some e =>
      rw [Stmt.renumber, Option.map_some, Eval.statement, Eval.statement]
      exact (h.expression scope e).bind fun v =>
        (commutes_define scope x v).bind fun _ => commutes_pure rfl
  | function l g params bodyLine body =>
    rw [Stmt.renumber, Eval.statement, Eval.statement]
    exact (commutes_newFunction g params body).bind fun v =>
      (commutes_define scope g v).bind fun _ => commutes_pure rfl
  | block l body =>
    rw [Stmt.renumber, Eval.statement, Eval.statement]
    exact (commutes_extend scope).bind fun inner => h.statements inner body
  | ifThen l test yes =>
    rw [Stmt.renumber, Eval.statement, Eval.statement, Expr.line_renumber]
    refine (h.expression scope test).bind fun v =>
      (commutes_ofExcept (v.condition_renumber f test.line "if")).bind fun holds => ?_
    cases holds with
    | false => exact commutes_pure rfl
    | true => exact h.statement scope yes
  | ifElse l test yes no =>
    rw [Stmt.renumber, Eval.statement, Eval.statement, Expr.line_renumber]
    refine (h.expression scope test).bind fun v =>
      (commutes_ofExcept (v.condition_renumber f test.line "if")).bind fun holds => ?_
    cases holds with
    | false => exact h.statement scope no
    | true => exact h.statement scope yes
  | loop l test body =>
    rw [Stmt.renumber, Eval.statement, Eval.statement]
    exact h.loop scope test body
  | giveBack l value =>
    cases value with
    | none =>
      rw [Stmt.renumber, Option.map_none, Eval.statement, Eval.statement]
      exact commutes_pure rfl
    | some e =>
      rw [Stmt.renumber, Option.map_some, Eval.statement, Eval.statement]
      exact (h.expression scope e).bind fun v => commutes_pure rfl

theorem stable (f : Int → Int) (fuel : Nat) : Stable f fuel := by
  induction fuel with
  | zero => exact .zero
  | succ fuel ih =>
    exact ⟨ih.expression_succ, ih.expressions_succ, ih.apply_succ, ih.statement_succ,
      ih.statements_succ, ih.loop_succ⟩

end Eval

/-! ## Sessions -/

/-- The result of a statement with other lines. -/
def StatementResult.renumber (f : Int → Int) (r : StatementResult) : StatementResult :=
  ⟨r.statement.renumber f, Stop.renumberOutcome f (Value.renumber f) r.outcome, r.output⟩

/-- The result of a statement without lines. -/
def StatementResult.bare : StatementResult → StatementResult :=
  StatementResult.renumber fun _ => 0

/-- A value without the lines in the body of a function. -/
def Value.bare : Value → Value := Value.renumber fun _ => 0

namespace Session

variable (f : Int → Int)

/-- A session with other lines in its functions. -/
def renumber (s : Session) : Session := ⟨s.machine.renumber f⟩

/-- A session without the lines in its functions. -/
def bare : Session → Session := renumber fun _ => 0

theorem globals_renumber (s : Session) :
    (s.renumber f).globals = s.globals.mapValues (Value.renumber f) :=
  s.machine.scopes.snapshot_mapValues (Value.renumber f) global

theorem execute_renumber (fuel : Nat) (s : Session) (stmt : Stmt) :
    execute fuel (s.renumber f) (stmt.renumber f) =
      ((execute fuel s stmt).1.renumber f, (execute fuel s stmt).2.renumber f) := by
  have hstatement := (Eval.stable f fuel).statement global stmt
    { s.machine with output := ⟨"", s.machine.output.room⟩ }
  unfold execute
  simp only
  have hfresh : ({ (s.renumber f).machine with
      output := ⟨"", (s.renumber f).machine.output.room⟩ } : Machine) =
      Machine.renumber f { s.machine with output := ⟨"", s.machine.output.room⟩ } := rfl
  rw [hfresh, hstatement]
  cases Eval.statement fuel global stmt
    { s.machine with output := ⟨"", s.machine.output.room⟩ } with
  | mk r m =>
    cases r with
    | error stop => rfl
    | ok flow => cases flow <;> rfl

theorem echo?_renumber (r : StatementResult) : echo? (r.renumber f) = echo? r := by
  obtain ⟨stmt, outcome, output⟩ := r
  cases stmt with
  | expression l e =>
    cases outcome with
    | error stop => rfl
    | ok v =>
      show (if (v.renumber f).isNil then none else some ((v.renumber f).text ++ "\n")) = _
      rw [Value.isNil_renumber, Value.text_renumber]
      rfl
  | declare l x initializer => cases initializer <;> rfl
  | giveBack l value => cases value <;> rfl
  | _ => rfl

theorem echo_renumber (r : StatementResult) (s : Session) :
    echo (r.renumber f) (s.renumber f) = ((echo r s).1.renumber f, (echo r s).2.renumber f) := by
  have houtput : (s.renumber f).machine.output = s.machine.output := rfl
  unfold echo
  rw [echo?_renumber, houtput]
  cases (echo? r).filter s.machine.output.hasRoom <;> rfl

theorem executeAll_renumber (fuel : Nat) (echoing : Bool) (s : Session) (ss : List Stmt) :
    executeAll fuel echoing (s.renumber f) (Stmt.renumberAll f ss) =
      ((executeAll fuel echoing s ss).1.map (StatementResult.renumber f),
        (executeAll fuel echoing s ss).2.renumber f) := by
  induction ss generalizing s with
  | nil => rfl
  | cons stmt rest ih =>
    rw [Stmt.renumberAll, executeAll, executeAll, execute_renumber]
    cases echoing with
    | true =>
      simp only [if_true, echo_renumber, ih]
      rfl
    | false =>
      simp only [Bool.false_eq_true, if_false, ih]
      rfl

/-- Statements one after the other are executed one after the other. -/
theorem executeAll_append (fuel : Nat) (echoing : Bool) (s : Session) (ss ts : List Stmt) :
    executeAll fuel echoing s (ss ++ ts) =
      ((executeAll fuel echoing s ss).1 ++
        (executeAll fuel echoing (executeAll fuel echoing s ss).2 ts).1,
        (executeAll fuel echoing (executeAll fuel echoing s ss).2 ts).2) := by
  induction ss generalizing s with
  | nil => rfl
  | cons stmt rest ih =>
    rw [List.cons_append, executeAll, executeAll]
    simp only [ih]
    rfl

end Session

end Lox

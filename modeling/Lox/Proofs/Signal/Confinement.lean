import Lox.Proofs.Signal.Evaluation

/-!
# The returning signal is confined

Expressions do not end with the signal, whatever functions they call.  A statement ends with it
exactly if evaluation reaches a `return` in it, at any depth of blocks, branches and loops but not
through a call (`Signalled.raises_iff`), so there has to be one outside of all functions that are
declared in the statement.  A call has the value of the signal, or nil if its body comes to its end,
and at the top level the signal is gone, too (`Signalled.confined`).
-/

namespace Lox

mutual

/-- A `return` stands in the statement, outside of the functions declared in it. -/
def Stmt.givesBack : Stmt → Bool
  | .giveBack _ _ => true
  | .block _ body => Stmt.anyGivesBack body
  | .ifThen _ _ yes => yes.givesBack
  | .ifElse _ _ yes no => yes.givesBack || no.givesBack
  | .loop _ _ body => body.givesBack
  | .expression _ _ | .print _ _ | .declare _ _ _ | .function _ _ _ _ _ => false

/-- The same for some of these statements. -/
def Stmt.anyGivesBack : List Stmt → Bool
  | [] => false
  | s :: ss => s.givesBack || Stmt.anyGivesBack ss

end

namespace Signalled

variable {α β : Type} {m m' m₁ : Machine} {v : Value} {fuel : Nat} {scope : ScopeId}

/-! ## Computations with and without signals -/

/-- The computation does not end with a signal. -/
def Silent (x : Signalled α) : Prop := ∃ y : Eval α, x = lift y

theorem expression_silent (e : Expr) : Silent (expression fuel scope e) :=
  ⟨_, (matches_all fuel).expression scope e⟩

theorem bind_value {x : Signalled α} {f : α → Signalled β} {a : α} (h : x m = (.value a, m₁)) :
    (x >>= f) m = f a m₁ := by
  show andThen x f m = f a m₁
  simp only [andThen, h]
  rfl

theorem bind_exit {x : Signalled α} {f : α → Signalled β} {e : Exit} (h : x m = (.exit e, m₁)) :
    (x >>= f) m = (.exit e, m₁) := by
  show andThen x f m = (.exit e, m₁)
  simp only [andThen, h]
  rfl

theorem bind_extend (f : ScopeId → Signalled β) : (lift (Eval.extend scope) >>= f) m =
    f m.scopes.size { m with scopes := m.scopes.add (some scope) } :=
  bind_value rfl

theorem bind_condition (b : Bool) (line : Int) (keyword : String) (f : Bool → Signalled β) :
    (lift (Eval.ofExcept ((Value.bool b).condition line keyword)) >>= f) m = f b m :=
  bind_value rfl

theorem Silent.not_returning {x : Signalled α} (hx : Silent x) :
    (x m).1.exit? ≠ some (.returning v) := by
  obtain ⟨y, rfl⟩ := hx
  simp only [lift]
  rcases y m with ⟨_ | a, m'⟩ <;> simp [Yield.exit, Yield.value]

theorem Silent.ne_signal {x : Signalled α} (hx : Silent x) :
    x m ≠ (.exit (.returning v), m') :=
  fun h => hx.not_returning (congrArg (·.1.exit?) h)

/-- A signal behind a computation without signals comes from what follows that. -/
theorem Silent.of_bind {x : Signalled α} {f : α → Signalled β} (hx : Silent x)
    (h : (x >>= f) m = (.exit (.returning v), m')) :
    ∃ a m₁, x m = (.value a, m₁) ∧ f a m₁ = (.exit (.returning v), m') := by
  obtain ⟨y, rfl⟩ := hx
  have hbind : andThen (lift y) f m = (.exit (.returning v), m') := h
  simp only [andThen, lift] at hbind ⊢
  rcases hy : y m with ⟨stop | a, m₁⟩
  · rw [hy] at hbind
    simp [Yield.exit] at hbind
  · rw [hy] at hbind
    exact ⟨a, m₁, rfl, hbind⟩

theorem exists_signal {s : Stmt} (h : (statement fuel scope s m).1.exit? = some (.returning v)) :
    ∃ m', statement fuel scope s m = (.exit (.returning v), m') := by
  rw [(matches_all fuel).statement scope s] at h ⊢
  simp only [raise] at h ⊢
  rcases hx : Eval.statement fuel scope s m with ⟨stop | w | w, m₁⟩
  · rw [hx] at h
    cases h
  · rw [hx] at h
    cases h
  · rw [hx] at h
    cases h
    exact ⟨m₁, rfl⟩

/-- A signal behind a statement is that of the statement, or comes from what follows that. -/
theorem of_statement_bind {s : Stmt} {y : Signalled Value}
    (h : (statement fuel scope s >>= fun _ => y) m = (.exit (.returning v), m')) :
    statement fuel scope s m = (.exit (.returning v), m') ∨
    ∃ w m₁, statement fuel scope s m = (.value w, m₁) ∧ y m₁ = (.exit (.returning v), m') := by
  rw [(matches_all fuel).statement scope s] at h ⊢
  have hbind : andThen (raise _) (fun _ => y) m = (.exit (.returning v), m') := h
  simp only [andThen, raise] at hbind ⊢
  rcases hx : Eval.statement fuel scope s m with ⟨stop | w | w, m₁⟩
  · rw [hx] at hbind
    exact .inl hbind
  · rw [hx] at hbind
    exact .inr ⟨w, m₁, rfl, hbind⟩
  · rw [hx] at hbind
    exact .inl hbind

/-! ## Reaching a return -/

/-- What can end with a signal: a statement, statements one after the other, a loop. -/
inductive Task where
  | statement (s : Stmt)
  | statements (ss : List Stmt)
  | loop (test : Expr) (body : Stmt)

namespace Task

/-- Executes a task in a scope. -/
def run (fuel : Nat) (scope : ScopeId) : Task → Signalled Value
  | statement s => Signalled.statement fuel scope s
  | statements ss => Signalled.statements fuel scope ss
  | loop test body => Signalled.loop fuel scope test body

/-- A `return` stands in the task, outside of the functions declared in it. -/
def givesBack : Task → Bool
  | statement s => s.givesBack
  | statements ss => Stmt.anyGivesBack ss
  | loop _ body => body.givesBack

end Task

/-- Evaluation of a task reaches a `return`, not counting those in functions that are called, and
the value given back there is `v`. -/
inductive Raises : Nat → ScopeId → Task → Machine → Value → Machine → Prop
  | bare {fuel : Nat} {scope : ScopeId} {l : Int} {m : Machine} :
      Raises (fuel + 1) scope (.statement (.giveBack l none)) m .nil m
  | value {fuel : Nat} {scope : ScopeId} {l : Int} {e : Expr} {m m' : Machine} {v : Value}
      (he : expression fuel scope e m = (.value v, m')) :
      Raises (fuel + 1) scope (.statement (.giveBack l (some e))) m v m'
  | block {fuel : Nat} {scope : ScopeId} {l : Int} {body : List Stmt} {m m' : Machine} {v : Value}
      (h : Raises fuel m.scopes.size (.statements body)
        { m with scopes := m.scopes.add (some scope) } v m') :
      Raises (fuel + 1) scope (.statement (.block l body)) m v m'
  | ifThen {fuel : Nat} {scope : ScopeId} {l : Int} {test : Expr} {yes : Stmt}
      {m m₁ m' : Machine} {v : Value}
      (htest : expression fuel scope test m = (.value (.bool true), m₁))
      (h : Raises fuel scope (.statement yes) m₁ v m') :
      Raises (fuel + 1) scope (.statement (.ifThen l test yes)) m v m'
  | ifElse {fuel : Nat} {scope : ScopeId} {l : Int} {test : Expr} {yes no : Stmt} {b : Bool}
      {m m₁ m' : Machine} {v : Value}
      (htest : expression fuel scope test m = (.value (.bool b), m₁))
      (h : Raises fuel scope (.statement (if b then yes else no)) m₁ v m') :
      Raises (fuel + 1) scope (.statement (.ifElse l test yes no)) m v m'
  | loop {fuel : Nat} {scope : ScopeId} {l : Int} {test : Expr} {body : Stmt} {m m' : Machine}
      {v : Value} (h : Raises fuel scope (.loop test body) m v m') :
      Raises (fuel + 1) scope (.statement (.loop l test body)) m v m'
  | first {fuel : Nat} {scope : ScopeId} {s : Stmt} {ss : List Stmt} {m m' : Machine} {v : Value}
      (h : Raises fuel scope (.statement s) m v m') :
      Raises (fuel + 1) scope (.statements (s :: ss)) m v m'
  | later {fuel : Nat} {scope : ScopeId} {s : Stmt} {ss : List Stmt} {m m₁ m' : Machine}
      {v w : Value} (hs : statement fuel scope s m = (.value w, m₁))
      (h : Raises fuel scope (.statements ss) m₁ v m') :
      Raises (fuel + 1) scope (.statements (s :: ss)) m v m'
  | round {fuel : Nat} {scope : ScopeId} {test : Expr} {body : Stmt} {m m₁ m' : Machine} {v : Value}
      (htest : expression fuel scope test m = (.value (.bool true), m₁))
      (h : Raises fuel scope (.statement body) m₁ v m') :
      Raises (fuel + 1) scope (.loop test body) m v m'
  | again {fuel : Nat} {scope : ScopeId} {test : Expr} {body : Stmt} {m m₁ m₂ m' : Machine}
      {v w : Value} (htest : expression fuel scope test m = (.value (.bool true), m₁))
      (hbody : statement fuel scope body m₁ = (.value w, m₂))
      (h : Raises fuel scope (.loop test body) m₂ v m') :
      Raises (fuel + 1) scope (.loop test body) m v m'

variable {task : Task}

theorem Raises.run (h : Raises fuel scope task m v m') :
    task.run fuel scope m = (.exit (.returning v), m') := by
  induction h with
  | bare =>
    simp only [Task.run, statement]
    rfl
  | value he =>
    simp only [Task.run, statement]
    rw [bind_value he]
    rfl
  | block h ih =>
    simp only [Task.run, statement]
    rw [bind_extend]
    exact ih
  | ifThen htest h ih =>
    simp only [Task.run, statement]
    rw [bind_value htest, bind_condition]
    exact ih
  | ifElse htest h ih =>
    rename_i b _ _ _ _
    simp only [Task.run, statement]
    rw [bind_value htest, bind_condition]
    cases b with
    | true | false => exact ih
  | loop h ih =>
    simp only [Task.run, statement]
    exact ih
  | first h ih =>
    simp only [Task.run, statements]
    exact bind_exit ih
  | later hs h ih =>
    simp only [Task.run, statements]
    rw [bind_value hs]
    exact ih
  | round htest h ih =>
    simp only [Task.run, Signalled.loop]
    rw [bind_value htest, bind_condition, if_pos rfl]
    exact bind_exit ih
  | again htest hbody h ih =>
    simp only [Task.run, Signalled.loop]
    rw [bind_value htest, bind_condition, if_pos rfl, bind_value hbody]
    exact ih

/-- The value of a condition with a signal behind it. -/
theorem exists_condition {test : Expr} {keyword : String} {f : Bool → Signalled Value}
    (h : (expression fuel scope test >>= fun w =>
      lift (Eval.ofExcept (w.condition test.line keyword)) >>= f) m =
        (.exit (.returning v), m')) :
    ∃ b m₁, expression fuel scope test m = (.value (.bool b), m₁) ∧
      f b m₁ = (.exit (.returning v), m') := by
  obtain ⟨w, m₁, htest, hrest⟩ := (expression_silent test).of_bind h
  cases w with
  | bool b =>
    rw [bind_condition] at hrest
    exact ⟨b, m₁, htest, hrest⟩
  | _ =>
    obtain ⟨_, _, hcondition, -⟩ := Silent.of_bind ⟨_, rfl⟩ hrest
    cases hcondition

/-- What ends with a signal reaches a `return`. -/
theorem Raises.of_run (h : task.run fuel scope m = (.exit (.returning v), m')) :
    Raises fuel scope task m v m' := by
  -- By induction on the fuel, since a loop is met again as it is.  What cannot signal is passed
  -- over by `of_bind`, and what is left has less fuel.
  induction fuel generalizing scope task m v m' with
  | zero =>
    cases task <;> simp only [Task.run, statement, statements, Signalled.loop] at h <;> cases h
  | succ fuel ih =>
    cases task with
    | statement s =>
      simp only [Task.run] at h
      cases s with
      | expression l e =>
        simp only [statement] at h
        exact absurd h (expression_silent e).ne_signal
      | print l e =>
        simp only [statement] at h
        obtain ⟨_, _, -, h⟩ := (expression_silent e).of_bind h
        obtain ⟨_, _, -, h⟩ := Silent.of_bind ⟨_, rfl⟩ h
        cases h
      | declare l x initializer =>
        cases initializer with
        | none =>
          simp only [statement] at h
          obtain ⟨_, _, -, h⟩ := Silent.of_bind ⟨_, rfl⟩ h
          cases h
        | some e =>
          simp only [statement] at h
          obtain ⟨_, _, -, h⟩ := (expression_silent e).of_bind h
          obtain ⟨_, _, -, h⟩ := Silent.of_bind ⟨_, rfl⟩ h
          cases h
      | function l g params bodyLine body =>
        simp only [statement] at h
        obtain ⟨_, _, -, h⟩ := Silent.of_bind ⟨_, rfl⟩ h
        obtain ⟨_, _, -, h⟩ := Silent.of_bind ⟨_, rfl⟩ h
        cases h
      | block l body =>
        simp only [statement] at h
        rw [bind_extend] at h
        exact .block (ih h)
      | ifThen l test yes =>
        simp only [statement] at h
        obtain ⟨b, m₁, htest, h⟩ := exists_condition h
        cases b with
        | false => cases h
        | true => exact .ifThen htest (ih h)
      | ifElse l test yes no =>
        simp only [statement] at h
        obtain ⟨b, m₁, htest, h⟩ := exists_condition h
        refine .ifElse htest (ih ?_)
        cases b with
        | true | false => exact h
      | loop l test body =>
        simp only [statement] at h
        exact .loop (ih h)
      | giveBack l value =>
        cases value with
        | none =>
          simp only [statement] at h
          cases h
          exact .bare
        | some e =>
          simp only [statement] at h
          obtain ⟨w, m₁, he, h⟩ := (expression_silent e).of_bind h
          cases h
          exact .value he
    | statements ss =>
      simp only [Task.run] at h
      cases ss with
      | nil =>
        simp only [statements] at h
        cases h
      | cons s ss =>
        simp only [statements] at h
        obtain h | ⟨w, m₁, hs, h⟩ := of_statement_bind h
        · exact .first (ih h)
        · exact .later hs (ih h)
    | loop test body =>
      simp only [Task.run, Signalled.loop] at h
      obtain ⟨b, m₁, htest, h⟩ := exists_condition h
      cases b with
      | false => cases h
      | true =>
        rw [if_pos rfl] at h
        obtain h | ⟨w, m₂, hbody, h⟩ := of_statement_bind h
        · exact .round htest (ih h)
        · exact .again htest hbody (ih h)

/-- A statement, statements one after the other and a loop end with a signal exactly if evaluation
reaches a `return`. -/
theorem raises_iff : task.run fuel scope m = (.exit (.returning v), m') ↔
    Raises fuel scope task m v m' :=
  ⟨Raises.of_run, Raises.run⟩

/-- A `return` that is reached is one outside of the functions declared on the way. -/
theorem Raises.givesBack (h : Raises fuel scope task m v m') : task.givesBack = true := by
  induction h with
  | bare | value => rfl
  | block h ih | ifThen _ h ih | loop h ih | round _ h ih | again _ _ h ih => exact ih
  | @ifElse _ _ _ _ _ _ b _ _ _ _ _ _ ih =>
    cases b with
    | true => exact Bool.or_eq_true_iff.mpr (.inl ih)
    | false => exact Bool.or_eq_true_iff.mpr (.inr ih)
  | first h ih => exact Bool.or_eq_true_iff.mpr (.inl ih)
  | later _ h ih => exact Bool.or_eq_true_iff.mpr (.inr ih)

/-! ## Calls -/

/-- The machine in which the body of a function begins: a new scope inside of another one, with the
parameters. -/
def entered (m : Machine) (scope : ScopeId) (bindings : List (String × Value)) : Machine :=
  (Eval.defineAll m.scopes.size bindings { m with scopes := m.scopes.add (some scope) }).2

theorem lift_of_ok {x : Eval α} {a : α} (h : (x m).1 = .ok a) :
    lift x m = (.value a, (x m).2) := by
  rw [lift]
  rcases hx : x m with ⟨r, m₁⟩
  rw [hx] at h
  obtain rfl : r = .ok a := h
  rfl

theorem lift_defineAll (bindings : List (String × Value)) :
    lift (Eval.defineAll scope bindings) m =
      (.value (), (Eval.defineAll scope bindings m).2) := by
  refine lift_of_ok ?_
  induction bindings generalizing m with
  | nil => rfl
  | cons b rest ih => exact ih

theorem bind_require (failure : Failure) (a : α) (f : α → Signalled β) :
    (lift (Eval.require failure (some a)) >>= f) m = f a m :=
  bind_value rfl

/-- A call catches what the body of the function comes to. -/
theorem expression_call {l : Int} {f : String} {args : List Expr} {g : Function}
    {vs : List Value} (hf : m.scopes.get? scope f = some (.function g))
    (hargs : expressions (fuel + 1) scope args m = (.value vs, m₁))
    (hlength : vs.length = g.params.length) :
    expression (fuel + 2) scope (.call l f args) m =
      caught (statements fuel m₁.scopes.size g.body) (entered m₁ scope (g.params.zip vs)) := by
  have hlookup : lift (Eval.lookup scope f) m = (.value (some (.function g)), m) := by
    rw [lift, Eval.lookup, hf]
  have harity : (Value.function g).arity? = some g.params.length := rfl
  simp only [expression]
  rw [bind_value hlookup, bind_require, harity, bind_require, bind_value hargs, if_pos hlength]
  simp only [apply]
  rw [bind_extend, bind_value (lift_defineAll _)]
  rfl

end Signalled

/-! ## The top level -/

namespace Signalled

/-- Behind a statement at the top level a signal ends with its value as that of the statement. -/
def ended (x : Signalled Value) : Signalled Value := fun m =>
  match x m with
  | (⟨_, some (.returning v)⟩, m) => (.value v, m)
  | (⟨_, some (.stopped stop)⟩, m) => (.exit (.stopped stop), m)
  | (⟨v, none⟩, m) => (⟨v, none⟩, m)

end Signalled

/-- What a statement at the top level comes to, with what it wrote. -/
structure SignalledResult where
  statement : Stmt
  yield : Yield Value
  output : String

namespace SignalledResult

/-- The text that shows the value of an expression statement, if there is something to show. -/
def echo? (r : SignalledResult) : Option String :=
  match r.statement, r.yield with
  | .expression _ _, ⟨some v, none⟩ => if v.isNil then none else some (v.text ++ "\n")
  | _, _ => none

end SignalledResult

/-- The same result with its value and its failure side by side. -/
def StatementResult.signalled (r : StatementResult) : SignalledResult :=
  ⟨r.statement,
    match r.outcome with
    | .ok v => .value v
    | .error stop => .exit (.stopped stop),
    r.output⟩

namespace Session

/-- Executes a statement in the global scope; `output` is what it wrote. -/
def executeSignalled (fuel : Nat) (s : Session) (stmt : Stmt) : SignalledResult × Session :=
  let fresh := { s.machine with output := ⟨"", s.machine.output.room⟩ }
  let (yield, machine) := (Signalled.statement fuel global stmt).ended fresh
  (⟨stmt, yield, machine.output.text⟩, ⟨machine⟩)

/-- Writes the value of an expression statement behind what the statement wrote, if there is room
for it. -/
def echoSignalled (r : SignalledResult) (s : Session) : SignalledResult × Session :=
  match r.echo?.filter s.machine.output.hasRoom with
  | some text =>
    let output := s.machine.output.append text
    ({ r with output := output.text }, ⟨{ s.machine with output }⟩)
  | none => (r, s)

/-- Executes statements one after the other in the global scope. -/
def executeAllSignalled (fuel : Nat) (echoing : Bool) (s : Session) :
    List Stmt → List SignalledResult × Session
  | [] => ([], s)
  | stmt :: rest =>
    let (r, s) := executeSignalled fuel s stmt
    let (r, s) := if echoing then echoSignalled r s else (r, s)
    let (rs, s) := executeAllSignalled fuel echoing s rest
    (r :: rs, s)

/-- Runs a program; with `echoing` the values of expression statements are written too. -/
def runSignalled (fuel : Nat) (echoing : Bool) (s : Session) (p : Program) :
    List SignalledResult × Session :=
  executeAllSignalled fuel echoing s p.body

variable {fuel : Nat} {s : Session}

theorem executeSignalled_eq (stmt : Stmt) : executeSignalled fuel s stmt =
    ((execute fuel s stmt).1.signalled, (execute fuel s stmt).2) := by
  rw [executeSignalled, (Signalled.matches_all fuel).statement]
  simp only [Signalled.ended, Signalled.raise, execute]
  rcases Eval.statement fuel global stmt { s.machine with output := ⟨"", s.machine.output.room⟩ }
    with ⟨stop | v | v, m⟩ <;> rfl

theorem echoSignalled_eq (r : StatementResult) : echoSignalled r.signalled s =
    ((echo r s).1.signalled, (echo r s).2) := by
  have htext : r.signalled.echo? = echo? r := by
    obtain ⟨stmt, outcome, output⟩ := r
    cases outcome <;> cases stmt <;> rfl
  rw [echoSignalled, echo, htext]
  cases (echo? r).filter s.machine.output.hasRoom <;> rfl

theorem executeAllSignalled_eq (echoing : Bool) (ss : List Stmt) :
    executeAllSignalled fuel echoing s ss =
      ((executeAll fuel echoing s ss).1.map StatementResult.signalled,
        (executeAll fuel echoing s ss).2) := by
  induction ss generalizing s with
  | nil => rfl
  | cons stmt rest ih =>
    rw [executeAllSignalled, executeSignalled_eq]
    cases echoing with
    | false => simp only [executeAll, ih]; rfl
    | true => simp only [executeAll, echoSignalled_eq, ih]; rfl

end Session

/-! ## The signal is confined -/

/-- A value or a failure, not both and not the signal. -/
def Yield.Settled {α : Type} (y : Yield α) : Prop :=
  (∃ a, y = .value a) ∨ ∃ stop, y = .exit (.stopped stop)

theorem StatementResult.settled_signalled (r : StatementResult) : r.signalled.yield.Settled := by
  obtain ⟨stmt, outcome, output⟩ := r
  cases outcome with
  | ok v => exact .inl ⟨v, rfl⟩
  | error stop => exact .inr ⟨stop, rfl⟩

namespace Signalled

/-- Where the signal can be met, in evaluation that starts with the machine `m` in a scope. -/
structure Confined (fuel : Nat) (scope : ScopeId) (m : Machine) : Prop where
  /-- Expressions do not end with it. -/
  expression : ∀ e v, (Signalled.expression fuel scope e m).1.exit? ≠ some (.returning v)
  /-- Statements end with it where evaluation reaches a `return`, with the value given back
  there. -/
  reached : ∀ s v m', Signalled.statement fuel scope s m = (.exit (.returning v), m') ↔
    Raises fuel scope (.statement s) m v m'
  /-- Then a `return` stands in the statement, outside of the functions declared in it. -/
  statement : ∀ s v, (Signalled.statement fuel scope s m).1.exit? = some (.returning v) →
    s.givesBack = true
  /-- A call of a function that reaches a `return` has the value given back there. -/
  called : ∀ l f args g vs m₁ v m', m.scopes.get? scope f = some (.function g) →
    expressions (fuel + 1) scope args m = (.value vs, m₁) → vs.length = g.params.length →
    Raises fuel m₁.scopes.size (.statements g.body) (entered m₁ scope (g.params.zip vs)) v m' →
    Signalled.expression (fuel + 2) scope (.call l f args) m = (.value v, m')
  /-- A call of a function whose body comes to its end is nil. -/
  calledNil : ∀ l f args g vs m₁ w m', m.scopes.get? scope f = some (.function g) →
    expressions (fuel + 1) scope args m = (.value vs, m₁) → vs.length = g.params.length →
    statements fuel m₁.scopes.size g.body (entered m₁ scope (g.params.zip vs)) = (.value w, m') →
    Signalled.expression (fuel + 2) scope (.call l f args) m = (.value .nil, m')
  /-- A statement at the top level has a value or a failure. -/
  executed : ∀ s, (Session.executeSignalled fuel ⟨m⟩ s).1.yield.Settled
  /-- So do all statements of a program. -/
  run : ∀ echoing p, ∀ r ∈ (Session.runSignalled fuel echoing ⟨m⟩ p).1, r.yield.Settled

/-- Evaluation with the signal is evaluation, and the signal is confined, whatever the machine holds
and wherever evaluation starts. -/
theorem confined (fuel : Nat) (scope : ScopeId) (m : Machine) :
    Matches fuel ∧
    (∀ s, Session.executeSignalled fuel ⟨m⟩ s =
      ((Session.execute fuel ⟨m⟩ s).1.signalled, (Session.execute fuel ⟨m⟩ s).2)) ∧
    (∀ echoing p, Session.runSignalled fuel echoing ⟨m⟩ p =
      ((Session.run fuel echoing ⟨m⟩ p).1.map StatementResult.signalled,
        (Session.run fuel echoing ⟨m⟩ p).2)) ∧
    Confined fuel scope m := by
  refine ⟨matches_all fuel, Session.executeSignalled_eq,
    fun echoing p => Session.executeAllSignalled_eq echoing p.body, ?_⟩
  constructor
  case expression => exact fun e v => (expression_silent e).not_returning
  case reached => exact fun s v m' => @raises_iff m m' v fuel scope (.statement s)
  case statement =>
    intro s v h
    obtain ⟨m', hrun⟩ := exists_signal h
    exact (@Raises.of_run m m' v fuel scope (.statement s) hrun).givesBack
  case called =>
    intro l f args g vs m₁ v m' hf hargs hlength h
    rw [expression_call hf hargs hlength, caught]
    rw [show statements fuel _ _ _ = _ from h.run]
    rfl
  case calledNil =>
    intro l f args g vs m₁ w m' hf hargs hlength h
    rw [expression_call hf hargs hlength, caught, h]
    rfl
  case executed =>
    intro s
    rw [Session.executeSignalled_eq]
    exact StatementResult.settled_signalled _
  case run =>
    intro echoing p r hr
    rw [Session.runSignalled, Session.executeAllSignalled_eq] at hr
    obtain ⟨r, -, rfl⟩ := List.mem_map.mp hr
    exact r.settled_signalled

/-- A `return` in a block in a loop, met in a call. -/
theorem confined_nested :
    let body : List Stmt := [.loop 1 (.bool 1 true) (.block 1 [.giveBack 1 (some (.string 1 "a"))]),
      .giveBack 2 none]
    let g : Function := ⟨0, "f", [], body⟩
    let m : Machine := ⟨(Scopes.empty.add none).define 0 "f" (.function g), ⟨"", none⟩, [], 1⟩
    let inside := entered m 0 []
    let block := { inside with scopes := inside.scopes.add (some 1) }
    Raises 7 1 (.statements body) inside (.string "a") block ∧
    Signalled.expression 9 0 (.call 3 "f" []) m = (.value (.string "a"), block) := by
  intro body g m inside block
  have htest : expression 4 1 (.bool 1 true) inside = (.value (.bool true), inside) := by
    rw [expression]
    rfl
  have hvalue : expression 1 2 (.string 1 "a") block = (.value (.string "a"), block) := by
    rw [expression]
    rfl
  have hargs : expressions 8 0 [] m = (.value [], m) := by
    rw [expressions]
    rfl
  have hbody : Raises 7 1 (.statements body) inside (.string "a") block :=
    .first (.loop (.round htest (.block (.first (.value hvalue)))))
  exact ⟨hbody,
    (confined 7 0 m).2.2.2.called 3 "f" [] g [] m (.string "a") block rfl hargs rfl hbody⟩

end Signalled

end Lox

import Lox.Proofs.Machine.Simulation

/-!
# From the evaluator to the rules for stacks

Whatever the evaluator ends with in a scope is derived by the rules of `Stack` from the frames that
the scope sees.  The proof is an induction on the fuel: `Sound fuel` says this for all kinds of
computations at once, and each form of an expression or a statement is one step of it.
-/

namespace Lox

theorem Value.condition_of_ne {v : Value} (h : v.kind ≠ .bool) (line : Int) (keyword : String) :
    v.condition line keyword = .error (.fault ⟨line, .operandType keyword v.kind⟩) := by
  cases v with
  | bool b => exact absurd rfl h
  | _ => rfl

namespace Eval

open Stack

/-! ## The rules of the evaluator, step by step -/

/-- The truth value of a condition in a scope. -/
def test (fuel : Nat) (scope : ScopeId) (keyword : String) (e : Expr) : Eval Bool :=
  expression fuel scope e >>= fun v => ofExcept (v.condition e.line keyword)

theorem statement_ifThen (fuel : Nat) (scope : ScopeId) (l : Int) (e : Expr) (yes : Stmt) :
    statement (fuel + 1) scope (.ifThen l e yes) =
      test fuel scope "if" e >>= fun holds =>
        if holds then statement fuel scope yes else pure (.next .nil) := by
  rw [test, bind_assoc, statement]

theorem statement_ifElse (fuel : Nat) (scope : ScopeId) (l : Int) (e : Expr) (yes no : Stmt) :
    statement (fuel + 1) scope (.ifElse l e yes no) =
      test fuel scope "if" e >>= fun holds => statement fuel scope (if holds then yes else no) := by
  rw [test, bind_assoc, statement]
  congr 1
  funext v
  congr 1
  funext holds
  cases holds <;> rfl

/-- What a loop does once its body has ended. -/
def afterBody (fuel : Nat) (scope : ScopeId) (e : Expr) (body : Stmt) : Flow → Eval Flow
  | .next _ => loop fuel scope e body
  | .giveBack v => pure (.giveBack v)

theorem loop_succ (fuel : Nat) (scope : ScopeId) (e : Expr) (body : Stmt) :
    loop (fuel + 1) scope e body =
      test fuel scope "while" e >>= fun holds =>
        if holds then statement fuel scope body >>= afterBody fuel scope e body
        else pure (.next .nil) := by
  rw [test, bind_assoc, loop]
  rfl

/-- What follows a statement in a list. -/
def afterFirst (fuel : Nat) (scope : ScopeId) (ss : List Stmt) : Flow → Eval Flow
  | .next _ => statements fuel scope ss
  | .giveBack v => pure (.giveBack v)

theorem statements_succ_cons (fuel : Nat) (scope : ScopeId) (s : Stmt) (ss : List Stmt) :
    statements (fuel + 1) scope (s :: ss) =
      statement fuel scope s >>= afterFirst fuel scope ss := by
  rw [statements]
  rfl

theorem apply_function (fuel : Nat) (scope : ScopeId) (l : Int) (x : String) (g : Function)
    (args : List Value) :
    apply (fuel + 1) scope l x (.function g) args =
      extend scope >>= fun inner => defineAll inner (g.params.zip args) >>= fun _ =>
        statements fuel inner g.body >>= fun flow => pure (result flow) := by
  rw [apply]
  congr 1
  funext inner
  congr 1
  funext _
  congr 1
  funext flow
  cases flow <;> rfl

theorem require_some_bind {α β : Type} (e : Failure) (a : α) (f : α → Eval β) :
    require e (some a) >>= f = f a := rfl

/-- What a call does with what its name is bound to. -/
def callBound (fuel : Nat) (scope : ScopeId) (l : Int) (g : String) (args : List Expr) :
    Option Value → Eval Value
  | none => fail (.fault ⟨l, .undefinedFunction g⟩)
  | some callee =>
    match callee.arity? with
    | none => fail (.fault ⟨l, .notCallable g callee.kind⟩)
    | some arity => expressions fuel scope args >>= fun vs =>
      if vs.length = arity then apply fuel scope l g callee vs
      else fail (.fault ⟨l, .arity g arity vs.length⟩)

theorem expression_call (fuel : Nat) (scope : ScopeId) (l : Int) (g : String) (args : List Expr) :
    expression (fuel + 1) scope (.call l g args) =
      lookup scope g >>= callBound fuel scope l g args := by
  rw [expression]
  congr 1
  funext bound
  cases bound with
  | none => rfl
  | some callee =>
    rw [callBound, require_some_bind]
    cases callee.arity? with
    | none => rfl
    | some arity => rfl

/-! ## From the evaluator to the rules -/

/-- With this much fuel, everything that ends is derived by the rules. -/
structure Sound (fuel : Nat) : Prop where
  expression : ∀ scope e, Simulates scope (expression fuel scope e)
    fun st out st' => Evaluates st e out st'
  expressions : ∀ scope es, Simulates scope (expressions fuel scope es)
    fun st out st' => EvaluatesAll st es out st'
  apply : ∀ scope l x callee vs, callee.arity? ≠ none →
    Simulates scope (apply fuel scope l x callee vs) fun st out st' => Applies st callee vs out st'
  statement : ∀ scope s, Simulates scope (statement fuel scope s)
    fun st out st' => Executes st s out st'
  statements : ∀ scope ss, Simulates scope (statements fuel scope ss)
    fun st out st' => ExecutesAll st ss out st'
  loop : ∀ scope l e body, Simulates scope (loop fuel scope e body)
    fun st out st' => Executes st (.loop l e body) out st'

theorem Sound.zero : Sound 0 where
  expression _ _ := by rw [Eval.expression]; exact Simulates.outOfFuel
  expressions _ _ := by rw [Eval.expressions]; exact Simulates.outOfFuel
  apply _ _ _ _ _ _ := by rw [Eval.apply]; exact Simulates.outOfFuel
  statement _ _ := by rw [Eval.statement]; exact Simulates.outOfFuel
  statements _ _ := by rw [Eval.statements]; exact Simulates.outOfFuel
  loop _ _ _ _ := by rw [Eval.loop]; exact Simulates.outOfFuel

variable {fuel : Nat}

/-- A computation that leaves the stack alone. -/
theorem Simulates.of_same {α : Type} {x : ScopeId → Eval α} {r : Except Failure α}
    {R : Stack → Except Failure α → Stack → Prop} (hx : Acts x fun st => (r, st))
    (hR : ∀ st, R st r st) (scope : ScopeId) : Simulates scope (x scope) R := by
  refine (hx.simulates scope).mono fun st out st' hg => ?_
  obtain ⟨rfl, rfl⟩ := Prod.mk.inj hg
  exact hR st

theorem Sound.test (h : Sound fuel) (scope : ScopeId) (keyword : String) (e : Expr) :
    Simulates scope (test fuel scope keyword e) fun st out st' => Tests keyword st e out st' := by
  refine (h.expression scope e).bind (fun v => (acts_ofExcept _).simulates scope)
    (fun _ _ _ => .fails) fun st v st₁ out st' hv hg => ?_
  obtain ⟨rfl, rfl⟩ := Prod.mk.inj hg
  by_cases hkind : v.kind = .bool
  · obtain ⟨b, rfl⟩ := Value.exists_of_kind_bool hkind
    exact .bool hv
  · rw [Value.condition_of_ne hkind]
    exact .other hv v.hasKind_kind hkind

/-- Two operands, the left one first, and then what `r` makes of their values. -/
theorem Sound.operands (h : Sound fuel) (scope : ScopeId) {left right : Expr}
    (r : Value → Value → Except Failure Value) {R : Stack → Except Failure Value → Stack → Prop}
    (hleft : ∀ st f st', Evaluates st left (.error f) st' → R st (.error f) st')
    (hright : ∀ st v st₁ f st', Evaluates st left (.ok v) st₁ →
      Evaluates st₁ right (.error f) st' → R st (.error f) st')
    (hboth : ∀ st v st₁ w st', Evaluates st left (.ok v) st₁ →
      Evaluates st₁ right (.ok w) st' → R st (r v w) st') :
    Simulates scope (Eval.expression fuel scope left >>= fun v =>
      Eval.expression fuel scope right >>= fun w => ofExcept (r v w)) R := by
  refine (h.expression scope left).bind (Q := fun v st out st' =>
    (∃ f, Evaluates st right (.error f) st' ∧ out = .error f) ∨
    ∃ w, Evaluates st right (.ok w) st' ∧ out = r v w)
    (fun v => ?_) hleft fun st v st₁ out st' hv hrest => ?_
  · refine (h.expression scope right).bind (fun w => (acts_ofExcept _).simulates scope)
      (fun _ f _ hf => .inl ⟨f, hf, rfl⟩) fun st w st₁ out st' hw hg => ?_
    obtain ⟨rfl, rfl⟩ := Prod.mk.inj hg
    exact .inr ⟨w, hw, rfl⟩
  · obtain ⟨f, hf, rfl⟩ | ⟨w, hw, rfl⟩ := hrest
    · exact hright _ _ _ _ _ hv hf
    · exact hboth _ _ _ _ _ hv hw

theorem Sound.callBound (h : Sound fuel) (scope : ScopeId) (l : Int) (g : String)
    (args : List Expr) (bound : Option Value) :
    Simulates scope (callBound fuel scope l g args bound) fun st out st' =>
      st.lookup g = bound → Evaluates st (.call l g args) out st' := by
  cases bound with
  | none => exact Simulates.of_same (acts_fail _) (fun _ hg => .callUnbound hg) scope
  | some callee =>
    rw [Eval.callBound]
    cases harity : callee.arity? with
    | none =>
      have hcallee := Value.not_takes_iff.mpr harity
      exact Simulates.of_same (acts_fail _)
        (fun _ hg => .callOther hg hcallee callee.hasKind_kind) scope
    | some arity =>
      have hcallee : callee.arity? ≠ none := by rw [harity]; exact Option.some_ne_none arity
      have htakes := Value.takes_iff.mpr harity
      -- The arguments are evaluated before their number is checked.
      refine (h.expressions scope args).bind (Q := fun vs st out st' =>
        if vs.length = arity then Applies st callee vs out st'
        else out = .error (.fault ⟨l, .arity g arity vs.length⟩) ∧ st' = st) (fun vs => ?_)
        (fun _ _ _ hargs hg => .callFails hg htakes hargs)
        fun st vs st₁ out st' hargs hrest hg => ?_
      · split
        · exact h.apply scope l g callee vs hcallee
        · exact Simulates.of_same (acts_fail _) (fun _ => ⟨rfl, rfl⟩) scope
      · split at hrest
        · exact .call hg htakes hargs ‹_› hrest
        · obtain ⟨rfl, rfl⟩ := hrest
          exact .callArity hg htakes hargs ‹_›

theorem Sound.expression_succ (h : Sound fuel) (scope : ScopeId) (e : Expr) :
    Simulates scope (Eval.expression (fuel + 1) scope e)
      fun st out st' => Evaluates st e out st' := by
  cases e with
  | number l x =>
    rw [Eval.expression]
    exact Simulates.of_same (acts_pure _) (fun _ => .number) scope
  | string l s =>
    rw [Eval.expression]
    exact Simulates.of_same (acts_pure _) (fun _ => .string) scope
  | bool l b =>
    rw [Eval.expression]
    exact Simulates.of_same (acts_pure _) (fun _ => .bool) scope
  | nil l =>
    rw [Eval.expression]
    exact Simulates.of_same (acts_pure _) (fun _ => .nil) scope
  | name l x =>
    rw [Eval.expression]
    refine (((acts_lookup x).bind fun bound => acts_require _ bound).simulates scope).mono
      fun st out st' hg => ?_
    simp only [andThenOn] at hg
    obtain ⟨rfl, rfl⟩ := Prod.mk.inj hg
    cases hx : st.lookup x with
    | none => exact .unbound hx
    | some v => exact .name hx
  | group l inner =>
    rw [Eval.expression]
    exact (h.expression scope inner).mono fun _ _ _ => .group
  | unary l op operand =>
    rw [Eval.expression]
    refine (h.expression scope operand).bind (fun v => (acts_ofExcept _).simulates scope)
      (fun _ _ _ => .unaryFails) fun st v st₁ out st' hv hg => ?_
    obtain ⟨rfl, rfl⟩ := Prod.mk.inj hg
    exact .unary hv (UnaryOp.means_iff.mpr rfl)
  | binary l op left right =>
    rw [Eval.expression]
    refine h.operands scope (op.evaluate l) (fun _ _ _ => .binaryLeftFails)
      (fun _ _ _ _ _ => .binaryRightFails) fun _ _ _ _ _ hleft hright => ?_
    exact .binary hleft hright (BinaryOp.means_iff.mpr rfl)
  | logical l op left right =>
    rw [Eval.expression]
    refine h.operands scope (op.evaluate l) (fun _ _ _ => .logicalLeftFails)
      (fun _ _ _ _ _ => .logicalRightFails) fun _ _ _ _ _ hleft hright => ?_
    exact .logical hleft hright (LogicalOp.means_iff.mpr rfl)
  | assign l x value =>
    rw [Eval.expression]
    refine (h.expression scope value).bind (fun v =>
      ((acts_assign l x v).bind fun _ => acts_pure v).simulates scope)
      (fun _ _ _ => .assignFails) fun st v st₁ out st' hv hg => ?_
    cases hx : Frame.assign? x v st₁.frames with
    | none =>
      simp only [andThenOn, hx] at hg
      obtain ⟨rfl, rfl⟩ := Prod.mk.inj hg
      exact .assignUnbound hv hx
    | some frames =>
      simp only [andThenOn, hx] at hg
      obtain ⟨rfl, rfl⟩ := Prod.mk.inj hg
      exact .assign hv hx
  | call l g args =>
    rw [expression_call]
    refine ((acts_lookup g).simulates scope).bind (h.callBound scope l g args)
      (fun _ _ _ hg => absurd hg (by simp)) fun st bound st₁ out st' hg hrest => ?_
    obtain ⟨hbound, rfl⟩ := Prod.mk.inj hg
    exact hrest (Except.ok.inj hbound)

theorem Sound.expressions_succ (h : Sound fuel) (scope : ScopeId) (es : List Expr) :
    Simulates scope (Eval.expressions (fuel + 1) scope es)
      fun st out st' => EvaluatesAll st es out st' := by
  cases es with
  | nil =>
    rw [Eval.expressions]
    exact Simulates.of_same (acts_pure _) (fun _ => .nil) scope
  | cons e es =>
    rw [Eval.expressions]
    refine (h.expression scope e).bind (Q := fun v st out st' =>
      (∃ f, EvaluatesAll st es (.error f) st' ∧ out = .error f) ∨
      ∃ vs, EvaluatesAll st es (.ok vs) st' ∧ out = .ok (v :: vs))
      (fun v => ?_) (fun _ _ _ => .headFails) fun st v st₁ out st' hv hrest => ?_
    · refine (h.expressions scope es).bind (fun vs => (acts_pure _).simulates scope)
        (fun _ f _ hf => .inl ⟨f, hf, rfl⟩) fun st vs st₁ out st' hvs hg => ?_
      obtain ⟨rfl, rfl⟩ := Prod.mk.inj hg
      exact .inr ⟨vs, hvs, rfl⟩
    · obtain ⟨f, hf, rfl⟩ | ⟨vs, hvs, rfl⟩ := hrest
      · exact .tailFails hv hf
      · exact .cons hv hvs

/-- The parameters of a call are bound in the frame on top. -/
theorem foldl_define_push (st : Stack) (f : Frame Value) (bindings : List (String × Value)) :
    bindings.foldl (fun st b => st.define b.1 b.2) (st.push f) =
      st.push (bindings.foldl (fun f b => f.set b.1 b.2) f) := by
  induction bindings generalizing f with
  | nil => rfl
  | cons b rest ih => exact ih (f.set b.1 b.2)

/-- What a native function does, as a function on stacks. -/
def nativeOn (n : Native) (st : Stack) : Except Failure Value × Stack :=
  match n.action with
  | .announce =>
    if st.output.hasRoom ("called " ++ n.name ++ "\n") then
      (.ok .nil, st.write ("called " ++ n.name ++ "\n"))
    else (.error (.native n.name Output.refusal), st)
  | .host none => (.ok .nil, { st with hostCalls := n.name :: st.hostCalls })
  | .host (some message) =>
    (.error (.native n.name message), { st with hostCalls := n.name :: st.hostCalls })

theorem answers_iff {st st' : Stack} {n : Native} {out : Except Failure Value} :
    Answers st n out st' ↔ nativeOn n st = (out, st') := by
  obtain ⟨name, action⟩ := n
  constructor
  · intro h
    cases h with
    | refused hroom =>
      simp only [nativeOn, Output.refuses_iff.mp hroom]
      rfl
    | announce haccepts =>
      obtain ⟨hroom, rfl⟩ := Output.accepts_iff.mp haccepts
      simp only [nativeOn, hroom]
      rfl
    | hostFails => rfl
    | host => rfl
  · intro h
    unfold nativeOn at h
    match action, h with
    | .announce, h =>
      by_cases hroom : st.output.hasRoom ("called " ++ name ++ "\n") = true
      · obtain ⟨rfl, rfl⟩ := Prod.mk.inj ((if_pos hroom).symm.trans h)
        exact .announce (Output.accepts_iff.mpr ⟨hroom, rfl⟩)
      · obtain ⟨rfl, rfl⟩ := Prod.mk.inj ((if_neg hroom).symm.trans h)
        exact .refused (Output.refuses_iff.mpr (Bool.eq_false_iff.mpr hroom))
    | .host none, h =>
      obtain ⟨rfl, rfl⟩ := Prod.mk.inj h
      exact .host
    | .host (some message), h =>
      obtain ⟨rfl, rfl⟩ := Prod.mk.inj h
      exact .hostFails

theorem acts_callNative (n : Native) : Acts (fun _ => callNative n) (nativeOn n) := by
  obtain ⟨name, action⟩ := n
  match action with
  | .announce =>
    refine ((acts_write (.native name) ("called " ++ name ++ "\n")).bind
      fun _ => acts_pure Value.nil).congr fun st => ?_
    by_cases hroom : st.output.hasRoom ("called " ++ name ++ "\n") = true
    · simp only [andThenOn, nativeOn, if_pos hroom]
    · simp only [andThenOn, nativeOn, if_neg hroom]
  | .host none =>
    exact (acts_noteCall name).bind fun _ => acts_pure Value.nil
  | .host (some message) =>
    exact (acts_noteCall name).bind fun _ => acts_fail (.native name message)

theorem Sound.apply_succ (h : Sound fuel) (scope : ScopeId) (l : Int) (x : String) (callee : Value)
    (vs : List Value) (hcallee : callee.arity? ≠ none) :
    Simulates scope (Eval.apply (fuel + 1) scope l x callee vs)
      fun st out st' => Applies st callee vs out st' := by
  cases callee with
  | function g =>
    rw [apply_function]
    -- Inside the new scope the parameters are defined one by one, then the body runs.
    refine Simulates.extend (P := fun st out st' => ∃ o,
      ExecutesAll ((g.params.zip vs).foldl (fun st b => st.define b.1 b.2) st) g.body o st' ∧
      out = o.map result) (fun inner => ?_) fun st out st' hbody => ?_
    · refine ((acts_defineAll _).simulates inner).bind
        (Q := fun _ st out st' => ∃ o, ExecutesAll st g.body o st' ∧ out = o.map result)
        (fun _ => ?_) (fun _ _ _ hg => absurd hg (by simp)) fun st _ st₁ out st' hg hrest => ?_
      · refine (h.statements inner g.body).bind (fun flow => (acts_pure _).simulates inner)
          (fun _ f _ hf => ⟨.error f, hf, rfl⟩) fun st flow st₁ out st' hflow hg => ?_
        obtain ⟨rfl, rfl⟩ := Prod.mk.inj hg
        exact ⟨.ok flow, hflow, rfl⟩
      · obtain ⟨_, rfl⟩ := Prod.mk.inj hg
        exact hrest
    · obtain ⟨o, hbody, rfl⟩ := hbody
      rw [foldl_define_push] at hbody
      exact .function hbody
  | native n =>
    rw [Eval.apply]
    exact ((acts_callNative n).simulates scope).mono fun _ _ _ hn => .native (answers_iff.mpr hn)
  | _ => exact absurd rfl hcallee

theorem Sound.loop_succ (h : Sound fuel) (scope : ScopeId) (l : Int) (e : Expr) (body : Stmt) :
    Simulates scope (Eval.loop (fuel + 1) scope e body)
      fun st out st' => Executes st (.loop l e body) out st' := by
  rw [Eval.loop_succ]
  -- The rules for a loop begin with its condition, so what follows is said for any stack before it.
  refine (h.test scope "while" e).bind (Q := fun holds st out st' => ∀ st₀,
    Tests "while" st₀ e (.ok holds) st → Executes st₀ (.loop l e body) out st')
    (fun holds => ?_) (fun _ _ _ => .loopFails)
    fun st holds st₁ out st' htest hrest => hrest st htest
  cases holds with
  | false => exact Simulates.of_same (acts_pure _) (fun _ _ => .loopEnds) scope
  | true =>
    refine (h.statement scope body).bind (Q := fun flow st out st' =>
      match flow with
      | .next _ => Executes st (.loop l e body) out st'
      | .giveBack v => out = .ok (.giveBack v) ∧ st' = st)
      (fun flow => ?_) (fun _ _ _ hf _ htest => .loopBodyFails htest hf)
      fun st flow st₁ out st' hbody hrest st₀ htest => ?_
    · cases flow with
      | next v => exact h.loop scope l e body
      | giveBack v => exact Simulates.of_same (acts_pure _) (fun _ => ⟨rfl, rfl⟩) scope
    · cases flow with
      | next v => exact .loopRepeats htest hbody hrest
      | giveBack v =>
        obtain ⟨rfl, rfl⟩ := hrest
        exact .loopGivesBack htest hbody

theorem Sound.statements_succ (h : Sound fuel) (scope : ScopeId) (ss : List Stmt) :
    Simulates scope (Eval.statements (fuel + 1) scope ss)
      fun st out st' => ExecutesAll st ss out st' := by
  cases ss with
  | nil =>
    rw [Eval.statements]
    exact Simulates.of_same (acts_pure _) (fun _ => .nil) scope
  | cons s ss =>
    rw [statements_succ_cons]
    refine (h.statement scope s).bind (Q := fun flow st out st' =>
      match flow with
      | .next _ => ExecutesAll st ss out st'
      | .giveBack v => out = .ok (.giveBack v) ∧ st' = st)
      (fun flow => ?_) (fun _ _ _ => .fails) fun st flow st₁ out st' hs hrest => ?_
    · cases flow with
      | next v => exact h.statements scope ss
      | giveBack v => exact Simulates.of_same (acts_pure _) (fun _ => ⟨rfl, rfl⟩) scope
    · cases flow with
      | next v => exact .next hs hrest
      | giveBack v =>
        obtain ⟨rfl, rfl⟩ := hrest
        exact .givesBack hs

theorem Sound.statement_succ (h : Sound fuel) (scope : ScopeId) (s : Stmt) :
    Simulates scope (Eval.statement (fuel + 1) scope s)
      fun st out st' => Executes st s out st' := by
  cases s with
  | expression l e =>
    rw [Eval.statement]
    refine (h.expression scope e).bind (fun v => (acts_pure _).simulates scope)
      (fun _ _ _ => .expressionFails) fun st v st₁ out st' hv hg => ?_
    obtain ⟨rfl, rfl⟩ := Prod.mk.inj hg
    exact .expression hv
  | print l e =>
    rw [Eval.statement]
    refine (h.expression scope e).bind (fun v =>
      ((acts_write .print (v.text ++ "\n")).bind fun _ => acts_pure (Flow.next .nil)).simulates
        scope) (fun _ _ _ => .printFails) fun st v st₁ out st' hv hg => ?_
    by_cases hroom : st₁.output.hasRoom (v.text ++ "\n") = true
    · simp only [andThenOn, if_pos hroom] at hg
      obtain ⟨rfl, rfl⟩ := Prod.mk.inj hg
      exact .print hv v.shown_text (Output.accepts_iff.mpr ⟨hroom, rfl⟩)
    · simp only [andThenOn, if_neg hroom] at hg
      obtain ⟨rfl, rfl⟩ := Prod.mk.inj hg
      exact .printRefused hv v.shown_text (Output.refuses_iff.mpr (Bool.eq_false_iff.mpr hroom))
  | declare l x initializer =>
    cases initializer with
    | none =>
      rw [Eval.statement]
      refine (((acts_define x .nil).bind fun _ => acts_pure (Flow.next .nil)).simulates
        scope).mono fun st out st' hg => ?_
      obtain ⟨rfl, rfl⟩ := Prod.mk.inj hg
      exact .declareNil
    | some e =>
      rw [Eval.statement]
      refine (h.expression scope e).bind (fun v =>
        ((acts_define x v).bind fun _ => acts_pure (Flow.next .nil)).simulates scope)
        (fun _ _ _ => .declareFails) fun st v st₁ out st' hv hg => ?_
      obtain ⟨rfl, rfl⟩ := Prod.mk.inj hg
      exact .declare hv
  | function l g params bodyLine body =>
    rw [Eval.statement]
    refine (((acts_newFunction g params body).bind fun f => (acts_define g f).bind fun _ =>
      acts_pure (Flow.next .nil)).simulates scope).mono fun st out st' hg => ?_
    obtain ⟨rfl, rfl⟩ := Prod.mk.inj hg
    exact .function
  | block l body =>
    rw [Eval.statement]
    exact Simulates.extend (fun inner => h.statements inner body) fun _ _ _ => .block
  | ifThen l test yes =>
    rw [statement_ifThen]
    refine (h.test scope "if" test).bind (Q := fun holds st out st' =>
      if holds then Executes st yes out st' else out = .ok (.next .nil) ∧ st' = st)
      (fun holds => ?_) (fun _ _ _ => .ifThenFails) fun st holds st₁ out st' htest hrest => ?_
    · cases holds with
      | true => exact h.statement scope yes
      | false => exact Simulates.of_same (acts_pure _) (fun _ => ⟨rfl, rfl⟩) scope
    · cases holds with
      | true => exact .ifThen htest hrest
      | false =>
        obtain ⟨rfl, rfl⟩ := hrest
        exact .ifThenSkips htest
  | ifElse l test yes no =>
    rw [statement_ifElse]
    exact (h.test scope "if" test).bind (fun holds => h.statement scope _)
      (fun _ _ _ => .ifElseFails) fun _ _ _ _ _ => .ifElse
  | loop l test body =>
    rw [Eval.statement]
    exact h.loop scope l test body
  | giveBack l value =>
    cases value with
    | none =>
      rw [Eval.statement]
      exact Simulates.of_same (acts_pure _) (fun _ => .giveBackNil) scope
    | some e =>
      rw [Eval.statement]
      refine (h.expression scope e).bind (fun v => (acts_pure _).simulates scope)
        (fun _ _ _ => .giveBackFails) fun st v st₁ out st' hv hg => ?_
      obtain ⟨rfl, rfl⟩ := Prod.mk.inj hg
      exact .giveBack hv

/-- Whatever the evaluator ends with, the rules derive. -/
theorem sound (fuel : Nat) : Sound fuel := by
  induction fuel with
  | zero => exact .zero
  | succ fuel ih =>
    exact ⟨ih.expression_succ, ih.expressions_succ, ih.apply_succ, ih.statement_succ,
      ih.statements_succ, ih.loop_succ⟩

end Eval

end Lox

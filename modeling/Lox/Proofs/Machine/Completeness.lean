import Lox.Proofs.Machine.Soundness

/-!
# From the rules for stacks to the evaluator

What the rules of `Stack` derive, the evaluator ends with as soon as it has enough fuel.  The proof
follows the derivation; each rule says which computations come one after the other.  Together with
the other direction, a scope of a machine behaves exactly like a stack of frames
(`Eval.ends_iff_derives`).
-/

namespace Lox

open Eval

namespace Stack

/-- The parameters of a call end up in the frame on top. -/
theorem covers_defineAll (st : Stack) (bindings : List (String × Value)) :
    Covers (fun _ scope => defineAll scope bindings) (st.push Frame.empty) (.ok ())
      (st.push (Frame.ofList bindings)) := by
  refine (acts_defineAll bindings).covers ?_
  rw [foldl_define_push]
  rfl

/-- A call goes on with what its name is bound to. -/
theorem covers_call {st st' : Stack} {l : Int} {g : String} {args : List Expr}
    {bound : Option Value} {out : Except Failure Value} (hg : st.lookup g = bound)
    (h : Covers (fun fuel scope => callBound fuel scope l g args bound) st out st') :
    Covers (fun fuel scope => expression fuel scope (.call l g args)) st out st' := by
  refine covers_succ_iff.mp ?_
  simp only [expression_call]
  subst hg
  exact ((acts_lookup g).covers rfl).bind_ok h

/-- A loop begins with its condition. -/
theorem covers_loop {st st' : Stack} {l : Int} {e : Expr} {body : Stmt}
    {out : Except Failure Flow}
    (h : Covers (fun fuel scope => test fuel scope "while" e >>= fun holds =>
      if holds then statement fuel scope body >>= afterBody fuel scope e body
      else pure (.next .nil)) st out st') :
    Covers (fun fuel scope => statement fuel scope (.loop l e body)) st out st' := by
  refine covers_succ_iff.mp (covers_succ_iff.mp ?_)
  simp only [statement, loop_succ]
  exact h

mutual

theorem Evaluates.covered : {st : Stack} → {e : Expr} → {out : Except Failure Value} →
    {st' : Stack} → Evaluates st e out st' →
    Covers (fun fuel scope => expression fuel scope e) st out st'
  -- In every case one unit of fuel opens the rule, and the parts of the rule get the rest.
  | _, _, _, _, .number => by
    refine covers_succ_iff.mp ?_
    simp only [expression]
    exact (acts_pure _).covers rfl
  | _, _, _, _, .string => by
    refine covers_succ_iff.mp ?_
    simp only [expression]
    exact (acts_pure _).covers rfl
  | _, _, _, _, .bool => by
    refine covers_succ_iff.mp ?_
    simp only [expression]
    exact (acts_pure _).covers rfl
  | _, _, _, _, .nil => by
    refine covers_succ_iff.mp ?_
    simp only [expression]
    exact (acts_pure _).covers rfl
  | _, _, _, _, .name h => by
    refine covers_succ_iff.mp ?_
    simp only [expression]
    exact ((acts_lookup _).covers rfl).bind_ok ((acts_require _ _).covers (by rw [h]; rfl))
  | _, _, _, _, .unbound h => by
    refine covers_succ_iff.mp ?_
    simp only [expression]
    exact ((acts_lookup _).covers rfl).bind_ok ((acts_require _ _).covers (by rw [h]; rfl))
  | _, _, _, _, .group h => by
    refine covers_succ_iff.mp ?_
    simp only [expression]
    exact h.covered
  | _, _, _, _, .unaryFails h => by
    refine covers_succ_iff.mp ?_
    simp only [expression]
    exact h.covered.bind_error
  | _, _, _, _, .unary h hop => by
    obtain rfl := UnaryOp.means_iff.mp hop
    refine covers_succ_iff.mp ?_
    simp only [expression]
    exact h.covered.bind_ok ((acts_ofExcept _).covers rfl)
  | _, _, _, _, .binaryLeftFails hleft => by
    refine covers_succ_iff.mp ?_
    simp only [expression]
    exact hleft.covered.bind_error
  | _, _, _, _, .binaryRightFails hleft hright => by
    refine covers_succ_iff.mp ?_
    simp only [expression]
    exact hleft.covered.bind_ok hright.covered.bind_error
  | _, _, _, _, .binary hleft hright hop => by
    obtain rfl := BinaryOp.means_iff.mp hop
    refine covers_succ_iff.mp ?_
    simp only [expression]
    exact hleft.covered.bind_ok (hright.covered.bind_ok ((acts_ofExcept _).covers rfl))
  | _, _, _, _, .logicalLeftFails hleft => by
    refine covers_succ_iff.mp ?_
    simp only [expression]
    exact hleft.covered.bind_error
  | _, _, _, _, .logicalRightFails hleft hright => by
    refine covers_succ_iff.mp ?_
    simp only [expression]
    exact hleft.covered.bind_ok hright.covered.bind_error
  | _, _, _, _, .logical hleft hright hop => by
    obtain rfl := LogicalOp.means_iff.mp hop
    refine covers_succ_iff.mp ?_
    simp only [expression]
    exact hleft.covered.bind_ok (hright.covered.bind_ok ((acts_ofExcept _).covers rfl))
  | _, _, _, _, .assignFails h => by
    refine covers_succ_iff.mp ?_
    simp only [expression]
    exact h.covered.bind_error
  | _, _, _, _, .assignUnbound h hx => by
    refine covers_succ_iff.mp ?_
    simp only [expression]
    refine h.covered.bind_ok (((acts_assign _ _ _).covers ?_).bind_error)
    rw [hx]
  | _, _, _, _, @Evaluates.assign _ _ l x _ v _ h hx => by
    refine covers_succ_iff.mp ?_
    simp only [expression]
    have hassign := (acts_assign l x v).covers (by rw [hx])
    exact h.covered.bind_ok (hassign.bind_ok ((acts_pure _).covers rfl))
  | _, _, _, _, .callUnbound hg => by
    refine covers_call hg ?_
    exact (acts_fail _).covers rfl
  | _, _, _, _, .callOther hg hcallee hk => by
    obtain rfl := Value.hasKind_iff.mp hk
    refine covers_call hg ?_
    simp only [callBound, Value.not_takes_iff.mp hcallee]
    exact (acts_fail _).covers rfl
  | _, _, _, _, .callFails hg harity hargs => by
    refine covers_call hg ?_
    simp only [callBound, Value.takes_iff.mp harity]
    exact hargs.covered.bind_error
  | _, _, _, _, .callArity hg harity hargs hne => by
    refine covers_call hg ?_
    simp only [callBound, Value.takes_iff.mp harity]
    refine hargs.covered.bind_ok ?_
    simp only [if_neg hne]
    exact (acts_fail _).covers rfl
  | _, _, _, _, @Evaluates.call _ _ _ l g _ _ _ _ _ hg harity hargs heq happly => by
    refine covers_call hg ?_
    simp only [callBound, Value.takes_iff.mp harity]
    refine hargs.covered.bind_ok ?_
    simp only [if_pos heq]
    exact happly.covered l g

theorem EvaluatesAll.covered : {st : Stack} → {es : List Expr} →
    {out : Except Failure (List Value)} → {st' : Stack} → EvaluatesAll st es out st' →
    Covers (fun fuel scope => expressions fuel scope es) st out st'
  | _, _, _, _, .nil => by
    refine covers_succ_iff.mp ?_
    simp only [expressions]
    exact (acts_pure _).covers rfl
  | _, _, _, _, .headFails hhead => by
    refine covers_succ_iff.mp ?_
    simp only [expressions]
    exact hhead.covered.bind_error
  | _, _, _, _, .tailFails hhead htail => by
    refine covers_succ_iff.mp ?_
    simp only [expressions]
    exact hhead.covered.bind_ok htail.covered.bind_error
  | _, _, _, _, .cons hhead htail => by
    refine covers_succ_iff.mp ?_
    simp only [expressions]
    exact hhead.covered.bind_ok (htail.covered.bind_ok ((acts_pure _).covers rfl))

theorem Applies.covered : {st : Stack} → {callee : Value} → {vs : List Value} →
    {out : Except Failure Value} → {st' : Stack} → Applies st callee vs out st' →
    ∀ l x, Covers (fun fuel scope => apply fuel scope l x callee vs) st out st'
  | _, _, _, _, _, .function hbody, _, _ => by
    refine covers_succ_iff.mp ?_
    simp only [apply_function]
    -- The frame of the call is pushed first and popped last, around parameters and body.
    exact ((covers_defineAll _ _).bind_ok (hbody.covered.map result)).extend
  | _, _, _, _, _, .native hn, _, _ => by
    refine covers_succ_iff.mp ?_
    simp only [apply]
    exact (acts_callNative _).covers (answers_iff.mp hn)

theorem Tests.covered : {keyword : String} → {st : Stack} → {e : Expr} →
    {out : Except Failure Bool} → {st' : Stack} → Tests keyword st e out st' →
    Covers (fun fuel scope => test fuel scope keyword e) st out st'
  | _, _, _, _, _, .fails h => h.covered.bind_error
  | _, _, _, _, _, .other h hv hk => by
    obtain rfl := Value.hasKind_iff.mp hv
    exact h.covered.bind_ok ((acts_ofExcept _).covers (by rw [Value.condition_of_ne hk]))
  | _, _, _, _, _, .bool h => h.covered.bind_ok ((acts_ofExcept _).covers rfl)

theorem Executes.covered : {st : Stack} → {s : Stmt} → {out : Except Failure Flow} →
    {st' : Stack} → Executes st s out st' →
    Covers (fun fuel scope => statement fuel scope s) st out st'
  | _, _, _, _, .expressionFails h => by
    refine covers_succ_iff.mp ?_
    simp only [statement]
    exact h.covered.bind_error
  | _, _, _, _, .expression h => by
    refine covers_succ_iff.mp ?_
    simp only [statement]
    exact h.covered.bind_ok ((acts_pure _).covers rfl)
  | _, _, _, _, .printFails h => by
    refine covers_succ_iff.mp ?_
    simp only [statement]
    exact h.covered.bind_error
  | _, _, _, _, .printRefused h hv hroom => by
    obtain rfl := Value.shown_iff.mp hv
    rw [Output.refuses_iff, Bool.eq_false_iff] at hroom
    refine covers_succ_iff.mp ?_
    simp only [statement]
    have hwrite := (acts_write .print _).covers (if_neg hroom)
    exact h.covered.bind_ok hwrite.bind_error
  | _, _, _, _, .print h hv haccepts => by
    obtain rfl := Value.shown_iff.mp hv
    obtain ⟨hroom, rfl⟩ := Output.accepts_iff.mp haccepts
    refine covers_succ_iff.mp ?_
    simp only [statement]
    have hwrite := (acts_write .print _).covers (if_pos hroom)
    exact h.covered.bind_ok (hwrite.bind_ok ((acts_pure _).covers rfl))
  | _, _, _, _, .declareNil => by
    refine covers_succ_iff.mp ?_
    simp only [statement]
    exact ((acts_define _ _).covers rfl).bind_ok ((acts_pure _).covers rfl)
  | _, _, _, _, .declareFails h => by
    refine covers_succ_iff.mp ?_
    simp only [statement]
    exact h.covered.bind_error
  | _, _, _, _, .declare h => by
    refine covers_succ_iff.mp ?_
    simp only [statement]
    exact h.covered.bind_ok
      (((acts_define _ _).covers rfl).bind_ok ((acts_pure _).covers rfl))
  | _, _, _, _, .function => by
    refine covers_succ_iff.mp ?_
    simp only [statement]
    exact ((acts_newFunction _ _ _).covers rfl).bind_ok
      (((acts_define _ _).covers rfl).bind_ok ((acts_pure _).covers rfl))
  | _, _, _, _, .block h => by
    refine covers_succ_iff.mp ?_
    simp only [statement]
    exact h.covered.extend
  | _, _, _, _, .ifThenFails htest => by
    refine covers_succ_iff.mp ?_
    simp only [statement_ifThen]
    exact htest.covered.bind_error
  | _, _, _, _, .ifThenSkips htest => by
    refine covers_succ_iff.mp ?_
    simp only [statement_ifThen]
    exact htest.covered.bind_ok ((acts_pure _).covers rfl)
  | _, _, _, _, .ifThen htest hyes => by
    refine covers_succ_iff.mp ?_
    simp only [statement_ifThen]
    exact htest.covered.bind_ok hyes.covered
  | _, _, _, _, .ifElseFails htest => by
    refine covers_succ_iff.mp ?_
    simp only [statement_ifElse]
    exact htest.covered.bind_error
  | _, _, _, _, .ifElse htest hbranch => by
    refine covers_succ_iff.mp ?_
    simp only [statement_ifElse]
    exact htest.covered.bind_ok hbranch.covered
  | _, _, _, _, .loopFails htest => by
    refine covers_loop ?_
    exact htest.covered.bind_error
  | _, _, _, _, .loopEnds htest => by
    refine covers_loop ?_
    exact htest.covered.bind_ok ((acts_pure _).covers rfl)
  | _, _, _, _, .loopBodyFails htest hbody => by
    refine covers_loop ?_
    exact htest.covered.bind_ok hbody.covered.bind_error
  | _, _, _, _, .loopGivesBack htest hbody => by
    refine covers_loop ?_
    exact htest.covered.bind_ok (hbody.covered.bind_ok ((acts_pure _).covers rfl))
  | _, _, _, _, .loopRepeats htest hbody hagain => by
    -- A loop that goes on is not a statement of its own, so its fuel is one less.
    have hloop := covers_succ_iff.mpr hagain.covered
    simp only [statement] at hloop
    refine covers_loop ?_
    exact htest.covered.bind_ok (hbody.covered.bind_ok hloop)
  | _, _, _, _, .giveBackNil => by
    refine covers_succ_iff.mp ?_
    simp only [statement]
    exact (acts_pure _).covers rfl
  | _, _, _, _, .giveBackFails h => by
    refine covers_succ_iff.mp ?_
    simp only [statement]
    exact h.covered.bind_error
  | _, _, _, _, .giveBack h => by
    refine covers_succ_iff.mp ?_
    simp only [statement]
    exact h.covered.bind_ok ((acts_pure _).covers rfl)

theorem ExecutesAll.covered : {st : Stack} → {ss : List Stmt} → {out : Except Failure Flow} →
    {st' : Stack} → ExecutesAll st ss out st' →
    Covers (fun fuel scope => statements fuel scope ss) st out st'
  | _, _, _, _, .nil => by
    refine covers_succ_iff.mp ?_
    simp only [statements]
    exact (acts_pure _).covers rfl
  | _, _, _, _, .fails h => by
    refine covers_succ_iff.mp ?_
    simp only [statements_succ_cons]
    exact h.covered.bind_error
  | _, _, _, _, .givesBack h => by
    refine covers_succ_iff.mp ?_
    simp only [statements_succ_cons]
    exact h.covered.bind_ok ((acts_pure _).covers rfl)
  | _, _, _, _, .next h hrest => by
    refine covers_succ_iff.mp ?_
    simp only [statements_succ_cons]
    exact h.covered.bind_ok hrest.covered

end

end Stack

/-! ## The two together -/

/-- In a scope of a machine, statements and expressions end with exactly the outcomes, and leave
exactly the frames and the output, that the rules derive from the frames that the scope sees. -/
theorem Eval.ends_iff_derives (m : Machine) (scope : ScopeId) (hscope : scope < m.scopes.size) :
    (∀ s out st', (∃ fuel m', Eval.statement fuel scope s m = (out.mapError Stop.failed, m') ∧
        m'.stack scope = st') ↔ Stack.Executes (m.stack scope) s out st') ∧
    (∀ e out st', (∃ fuel m', Eval.expression fuel scope e m = (out.mapError Stop.failed, m') ∧
        m'.stack scope = st') ↔ Stack.Evaluates (m.stack scope) e out st') := by
  refine ⟨fun s out st' => ⟨?_, fun h => ?_⟩, fun e out st' => ⟨?_, fun h => ?_⟩⟩
  · rintro ⟨fuel, m', hends, rfl⟩
    exact ((sound fuel).statement scope s m out m' hscope hends).1
  · obtain ⟨m', hst', _, n, hends⟩ := h.covered m scope hscope rfl
    exact ⟨n, m', hends n (Nat.le_refl n), hst'⟩
  · rintro ⟨fuel, m', hends, rfl⟩
    exact ((sound fuel).expression scope e m out m' hscope hends).1
  · obtain ⟨m', hst', _, n, hends⟩ := h.covered m scope hscope rfl
    exact ⟨n, m', hends n (Nat.le_refl n), hst'⟩

/-- The block `{ var x = 1 + 1; print x == 2; print "a" < "b" and !nil; return -x; }` writes two
lines, which is all that there is room for, gives `-2` back and leaves no trace of `x`. -/
theorem Eval.ends_iff_derives_returningBlock :
    let m : Machine := ⟨Scopes.empty.add none, ⟨"", some 10⟩, [], 0⟩
    let s : Stmt := .block 1
      [.declare 1 "x" (some (.binary 1 (.arithmetic .add) (.number 1 1) (.number 1 1))),
        .print 1 (.binary 1 .equal (.name 1 "x") (.number 1 2)),
        .print 1 (.logical 1 .and (.binary 1 (.order .less) (.string 1 "a") (.string 1 "b"))
          (.unary 1 .not (.nil 1))),
        .giveBack 1 (some (.unary 1 .negate (.name 1 "x")))]
    0 < m.scopes.size ∧
    ∃ fuel m', Eval.statement fuel 0 s m =
        ((.ok (.giveBack (.number (-2))) : Except Failure Flow).mapError Stop.failed, m') ∧
      m'.stack 0 = { m.stack 0 with output := ⟨"true\ntrue\n", some 0⟩ } := by
  intro m s
  have hscope : 0 < m.scopes.size := by decide
  let inner : Stack := ((m.stack 0).push Frame.empty).define "x" (.number 2)
  let written : Stack := { inner with output := ⟨"true\n", some 5⟩ }
  have htwo : (1 : Float) + 1 = 2 := by decide +kernel
  have hadd : BinaryOp.Means 1 (.arithmetic .add) (.number 1) (.number 1) (.ok (.number 2)) := by
    rw [← htwo]
    exact .value .add
  have hsum : Stack.Evaluates ((m.stack 0).push Frame.empty)
      (.binary 1 (.arithmetic .add) (.number 1 1) (.number 1 1)) (.ok (.number 2))
      ((m.stack 0).push Frame.empty) :=
    .binary .number .number hadd
  have hequal : Stack.Evaluates inner (.binary 1 .equal (.name 1 "x") (.number 1 2))
      (.ok (.bool true)) inner :=
    .binary (.name rfl) .number (.value (.equal .number .number (iff_of_true rfl (.number rfl))))
  have hbefore : Value.Precedes (.string "a") (.string "b") := .string (by decide)
  have hless : Stack.Evaluates written (.binary 1 (.order .less) (.string 1 "a") (.string 1 "b"))
      (.ok (.bool true)) written :=
    .binary .string .string (.value (.order (by decide) .string .string (iff_of_true rfl hbefore)))
  have hand : Stack.Evaluates written (.logical 1 .and _ (.unary 1 .not (.nil 1)))
      (.ok (.bool true)) written :=
    .logical hless (.unary .nil (.notFalsy .nil)) .and
  have hfirst : inner.output.Accepts ("true" ++ "\n") written.output := .limited (by decide)
  have hsecond : written.output.Accepts ("true" ++ "\n") ⟨"true\ntrue\n", some 0⟩ :=
    .limited (by decide)
  have hback : Stack.Executes { written with output := ⟨"true\ntrue\n", some 0⟩ }
      (.giveBack 1 (some (.unary 1 .negate (.name 1 "x")))) (.ok (.giveBack (.number (-2)))) _ :=
    .giveBack (.unary (.name rfl) .negate)
  have hs : Stack.Executes (m.stack 0) s (.ok (.giveBack (.number (-2))))
      { m.stack 0 with output := ⟨"true\ntrue\n", some 0⟩ } :=
    .block (.next (.declare hsum) (.next (.print hequal .true hfirst)
      (.next (.print hand .true hsecond) (.givesBack hback))))
  exact ⟨hscope, ((Eval.ends_iff_derives m 0 hscope).1 s _ _).mpr hs⟩

end Lox

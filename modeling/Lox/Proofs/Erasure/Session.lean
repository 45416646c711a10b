import Lox.Proofs.Erasure.Evaluation
import Lox.Proofs.Machine.Completeness
import Lox.Session

/-!
# Sessions up to lines and groups

Programs that are equal up to lines and groups do the same in sessions that are equal up to them:
either both come to an end or none does, and if they do, the results of their statements and the
sessions at the end are equal up to lines and groups again (`Session.run_erased`).

The evaluator needs fuel for every pair of parentheses, so what is compared is a run with any amount
that is enough for it.  For a statement, the first run gives a derivation in the rules for stacks,
the derivation is carried over to the other tree, and that one is what the other run does with
enough fuel.
-/

namespace Lox

/-- The result of a statement without lines and groups. -/
def StatementResult.erase (r : StatementResult) : StatementResult :=
  ⟨r.statement.erase, Stop.renumberOutcome (fun _ => 0) Value.erase r.outcome, r.output⟩

/-- The statement came to its end before the fuel did. -/
def StatementResult.finished (r : StatementResult) : Bool :=
  match r.outcome with
  | .error .outOfFuel => false
  | _ => true

namespace StatementResult

variable {r r₂ : StatementResult}

theorem erase_eq (hstmt : r.statement.erase = r₂.statement.erase)
    (houtcome : Stop.renumberOutcome (fun _ => 0) Value.erase r.outcome =
      Stop.renumberOutcome (fun _ => 0) Value.erase r₂.outcome)
    (houtput : r.output = r₂.output) : r.erase = r₂.erase := by
  rw [erase, erase, hstmt, houtcome, houtput]

theorem finished_erase (r : StatementResult) : r.erase.finished = r.finished := by
  obtain ⟨stmt, outcome, output⟩ := r
  match outcome with
  | .ok _ | .error (.failed _) | .error .outOfFuel => rfl

/-- Results that are equal up to lines and groups are shown in the same way. -/
theorem echo?_eq (h : r.erase = r₂.erase) : Session.echo? r = Session.echo? r₂ := by
  obtain ⟨stmt, outcome, output⟩ := r
  obtain ⟨stmt₂, outcome₂, output₂⟩ := r₂
  obtain ⟨hstmt, houtcome, -⟩ := StatementResult.mk.inj h
  cases outcome with
  | error stop =>
    cases outcome₂ with
    | error stop₂ => cases stmt <;> cases stmt₂ <;> rfl
    | ok v₂ => cases houtcome
  | ok v =>
    cases outcome₂ with
    | error stop₂ => cases houtcome
    | ok v₂ =>
      have hv : v.erase = v₂.erase := Except.ok.inj houtcome
      cases Stmt.matches_of_erase hstmt with
      | expression _ => simp only [Session.echo?, Value.isNil_eq hv, Value.text_eq hv]
      | _ => rfl

end StatementResult

namespace Machine

/-- The global scope has no scope around it. -/
theorem stack_global (m : Machine) :
    m.stack Session.global =
      ⟨[m.scopes.frame Session.global], m.output, m.hostCalls, m.functions⟩ := by
  have hroot : m.scopes.parent? Session.global = none := by
    cases h : m.scopes.parent? Session.global with
    | none => rfl
    | some p => exact absurd (m.scopes.parent?_lt h) (Nat.not_lt_zero p)
  rw [stack, Scopes.frames, m.scopes.chain_of_root hroot, List.map_cons, List.map_nil]

theorem get?_global (m : Machine) (x : String) :
    m.scopes.get? Session.global x = m.scopes.frame Session.global x := by
  have hframes : m.scopes.frames Session.global = [m.scopes.frame Session.global] :=
    (Stack.mk.inj m.stack_global).1
  rw [Scopes.get?_eq_lookup, hframes, Frame.lookup, List.findSome?_cons]
  cases m.scopes.frame Session.global x <;> rfl

end Machine

namespace Session

variable {s s₂ : Session} {stmt stmt₂ : Stmt} {ss ss₂ : List Stmt}

/-- Two sessions are in the same state but for lines and groups in the functions that are bound. -/
structure Alike (s s₂ : Session) : Prop where
  hasGlobal : global < s.machine.scopes.size
  hasGlobal₂ : global < s₂.machine.scopes.size
  globals : ∀ x, (s.machine.scopes.get? global x).map Value.erase =
    (s₂.machine.scopes.get? global x).map Value.erase
  room : s.machine.output.room = s₂.machine.output.room
  hostCalls : s.machine.hostCalls = s₂.machine.hostCalls
  functions : s.machine.functions = s₂.machine.functions

theorem Alike.refl (h : global < s.machine.scopes.size) : s.Alike s :=
  ⟨h, h, fun _ => rfl, rfl, rfl, rfl⟩

theorem Alike.symm (h : s.Alike s₂) : s₂.Alike s where
  hasGlobal := h.hasGlobal₂
  hasGlobal₂ := h.hasGlobal
  globals x := (h.globals x).symm
  room := h.room.symm
  hostCalls := h.hostCalls.symm
  functions := h.functions.symm

theorem Alike.trans {s₁ : Session} (h : s₁.Alike s) (h' : s.Alike s₂) : s₁.Alike s₂ where
  hasGlobal := h.hasGlobal
  hasGlobal₂ := h'.hasGlobal₂
  globals x := (h.globals x).trans (h'.globals x)
  room := h.room.trans h'.room
  hostCalls := h.hostCalls.trans h'.hostCalls
  functions := h.functions.trans h'.functions

/-- The machine on which the next statement runs. -/
def fresh (s : Session) : Machine :=
  { s.machine with output := ⟨"", s.machine.output.room⟩ }

theorem Alike.stack_eq (h : s.Alike s₂) :
    (s.fresh.stack global).erase = (s₂.fresh.stack global).erase := by
  have hframe : (s.machine.scopes.frame global).erase = (s₂.machine.scopes.frame global).erase := by
    funext x
    have hx := h.globals x
    rwa [Machine.get?_global, Machine.get?_global] at hx
  rw [Machine.stack_global, Machine.stack_global]
  simp only [Stack.erase, fresh, List.map_cons, List.map_nil, hframe, h.room, h.hostCalls,
    h.functions]

theorem alike_of_stack {m m₂ : Machine} (hm : global < m.scopes.size)
    (hm₂ : global < m₂.scopes.size) (h : (m.stack global).erase = (m₂.stack global).erase) :
    Alike ⟨m⟩ ⟨m₂⟩ where
  hasGlobal := hm
  hasGlobal₂ := hm₂
  globals x := by
    have hframes := Stack.frames_eq h
    rw [Machine.stack_global, Machine.stack_global] at hframes
    show (m.scopes.get? global x).map Value.erase = (m₂.scopes.get? global x).map Value.erase
    rw [Machine.get?_global, Machine.get?_global]
    exact congrFun (List.cons.inj hframes).1 x
  room := congrArg Output.room (Stack.output_eq h)
  hostCalls := Stack.hostCalls_eq h
  functions := Stack.functions_eq h

/-! ## Statements -/

theorem execute_eq (fuel : Nat) (s : Session) (stmt : Stmt) :
    s.execute fuel stmt =
      (⟨stmt, (Eval.statement fuel global stmt s.fresh).1.map flowValue,
        (Eval.statement fuel global stmt s.fresh).2.output.text⟩,
        ⟨(Eval.statement fuel global stmt s.fresh).2⟩) := rfl

/-- What a session reports of a computation that ended. -/
theorem execute_of_ends {fuel : Nat} {out : Except Failure Flow} {m : Machine}
    (h : Eval.Ends (Eval.statement fuel global stmt) s.fresh out m) :
    s.execute fuel stmt =
      (⟨stmt, (out.mapError Stop.failed).map flowValue, m.output.text⟩, ⟨m⟩) := by
  have hrun : Eval.statement fuel global stmt
      { s.machine with output := ⟨"", s.machine.output.room⟩ } = (out.mapError Stop.failed, m) := h
  simp only [execute, hrun]

theorem exists_ends_of_finished {fuel : Nat} (h : (s.execute fuel stmt).1.finished = true) :
    ∃ out m, Eval.Ends (Eval.statement fuel global stmt) s.fresh out m := by
  rcases hrun : Eval.statement fuel global stmt s.fresh with ⟨result, m⟩
  have hexecute : s.execute fuel stmt = (⟨stmt, result.map flowValue, m.output.text⟩, ⟨m⟩) := by
    rw [fresh] at hrun
    simp only [execute, hrun]
  match result with
  | .ok flow => exact ⟨.ok flow, m, hrun⟩
  | .error (.failed failure) => exact ⟨.error failure, m, hrun⟩
  | .error .outOfFuel =>
    rw [hexecute] at h
    exact absurd h Bool.false_ne_true

theorem flowValue_eq {flow flow₂ : Flow} (h : flow.erase = flow₂.erase) :
    (flowValue flow).erase = (flowValue flow₂).erase := by
  cases flow <;> cases flow₂ <;>
    simp only [Flow.erase, reduceCtorEq, Flow.next.injEq, Flow.giveBack.injEq] at h
  · exact h
  · exact h

theorem outcome_eq {out out₂ : Except Failure Flow} (h : Failure.Alike Flow.erase out out₂) :
    Stop.renumberOutcome (fun _ => 0) Value.erase ((out.mapError Stop.failed).map flowValue) =
      Stop.renumberOutcome (fun _ => 0) Value.erase
        ((out₂.mapError Stop.failed).map flowValue) := by
  cases h with
  | ok hflow => exact congrArg Except.ok (flowValue_eq hflow)
  | error hfailure => exact congrArg (fun f => Except.error (Stop.failed f)) hfailure

/-- The results of two statements and the sessions after them are equal up to lines and groups. -/
structure Agree (p q : StatementResult × Session) : Prop where
  result : p.1.erase = q.1.erase
  session : p.2.Alike q.2
  output : p.2.machine.output = q.2.machine.output

theorem execute_alike (hs : s.Alike s₂) (hstmt : stmt.erase = stmt₂.erase) {fuel : Nat}
    (hfinished : (s.execute fuel stmt).1.finished = true) :
    ∃ q, Agree (s.execute fuel stmt) q ∧ ∃ n, ∀ k, n ≤ k → s₂.execute k stmt₂ = q := by
  obtain ⟨out, m, hends⟩ := exists_ends_of_finished hfinished
  obtain ⟨hexecutes, hext⟩ :=
    (Eval.sound fuel).statement global stmt s.fresh out m hs.hasGlobal hends
  obtain ⟨out₂, st₂, hexecutes₂, hout, hst⟩ := hexecutes.alike hs.stack_eq hstmt
  obtain ⟨m₂, rfl, hext₂, n, hends₂⟩ :=
    hexecutes₂.covered s₂.fresh global hs.hasGlobal₂ rfl
  refine ⟨_, ⟨?_, ?_, ?_⟩, n, fun k hk => execute_of_ends (hends₂ k hk)⟩
  · have houtput := congrArg Output.text (Stack.output_eq hst)
    rw [execute_of_ends hends]
    exact StatementResult.erase_eq hstmt (outcome_eq hout) houtput
  · rw [execute_of_ends hends]
    exact alike_of_stack (Nat.lt_of_lt_of_le hs.hasGlobal hext.size_le)
      (Nat.lt_of_lt_of_le hs.hasGlobal₂ hext₂.size_le) hst
  · rw [execute_of_ends hends]
    exact Stack.output_eq hst

/-- A statement is executed and then, with `echoing`, shown. -/
def shown (echoing : Bool) (p : StatementResult × Session) : StatementResult × Session :=
  if echoing then echo p.1 p.2 else p

theorem finished_shown (echoing : Bool) (p : StatementResult × Session) :
    (shown echoing p).1.finished = p.1.finished := by
  unfold shown echo
  split
  · split <;> rfl
  · rfl

theorem Agree.shown {p q : StatementResult × Session} (h : Agree p q) (echoing : Bool) :
    Agree (shown echoing p) (shown echoing q) := by
  cases echoing with
  | false => exact h
  | true =>
    show Agree (echo p.1 p.2) (echo q.1 q.2)
    unfold echo
    rw [StatementResult.echo?_eq h.result, h.output]
    split
    · -- Both write the same text behind the same output.
      obtain ⟨hstmt, houtcome, -⟩ := StatementResult.mk.inj h.result
      exact {
        result := StatementResult.erase_eq hstmt houtcome rfl
        session := { h.session with room := rfl }
        output := rfl }
    · exact h

/-! ## Programs -/

theorem executeAll_cons (fuel : Nat) (echoing : Bool) (s : Session) (stmt : Stmt)
    (ss : List Stmt) :
    executeAll fuel echoing s (stmt :: ss) =
      ((shown echoing (s.execute fuel stmt)).1 ::
          (executeAll fuel echoing (shown echoing (s.execute fuel stmt)).2 ss).1,
        (executeAll fuel echoing (shown echoing (s.execute fuel stmt)).2 ss).2) := by
  cases echoing <;> rfl

/-- All statements came to their ends. -/
def Finished (rs : List StatementResult) : Prop := ∀ r ∈ rs, r.finished = true

theorem Finished.of_erase {rs rs₂ : List StatementResult} (h : Finished rs)
    (heq : rs.map StatementResult.erase = rs₂.map StatementResult.erase) : Finished rs₂ := by
  intro r hr
  have hmem : r.erase ∈ rs.map StatementResult.erase := heq ▸ List.mem_map_of_mem hr
  obtain ⟨r', hr', hsame⟩ := List.mem_map.mp hmem
  rw [← r.finished_erase, ← hsame, r'.finished_erase]
  exact h r' hr'

/-- The results of two programs and the sessions after them are equal up to lines and groups. -/
structure SameRun (p q : List StatementResult × Session) : Prop where
  results : p.1.map StatementResult.erase = q.1.map StatementResult.erase
  session : p.2.Alike q.2

theorem SameRun.symm {p q : List StatementResult × Session} (h : SameRun p q) : SameRun q p :=
  ⟨h.results.symm, h.session.symm⟩

theorem SameRun.trans {p q r : List StatementResult × Session} (h : SameRun p q)
    (h' : SameRun q r) : SameRun p r :=
  ⟨h.results.trans h'.results, h.session.trans h'.session⟩

theorem executeAll_alike {fuel : Nat} {echoing : Bool} (hs : s.Alike s₂)
    (hss : Stmt.eraseAll ss = Stmt.eraseAll ss₂)
    (hfinished : Finished (executeAll fuel echoing s ss).1) :
    ∃ n, ∀ k, n ≤ k → SameRun (executeAll fuel echoing s ss) (executeAll k echoing s₂ ss₂) := by
  induction ss generalizing s s₂ ss₂ with
  | nil =>
    obtain rfl := Stmt.eraseAll_eq_nil hss
    exact ⟨0, fun _ _ => ⟨rfl, hs⟩⟩
  | cons stmt ss ih =>
    obtain ⟨stmt₂, rest, rfl, hstmt, hrest⟩ := Stmt.eraseAll_eq_cons hss
    rw [executeAll_cons] at hfinished ⊢
    obtain ⟨hhead, htail⟩ := List.forall_mem_cons.mp hfinished
    rw [finished_shown] at hhead
    obtain ⟨q, hagree, n, hn⟩ := execute_alike hs hstmt hhead
    have hshown := hagree.shown echoing
    obtain ⟨n', hn'⟩ := ih hshown.session hrest htail
    refine ⟨max n n', fun k hk => ?_⟩
    obtain ⟨hresults, hsession⟩ := hn' k (by omega)
    rw [executeAll_cons, hn k (by omega)]
    exact ⟨List.cons_eq_cons.mpr ⟨hshown.result, hresults⟩, hsession⟩

/-- In sessions that are alike, programs that are equal up to lines and groups either both come to
an end or none does; at the end their results are equal up to lines and groups, and the sessions are
alike again. -/
theorem run_erased (hs : s.Alike s₂) {p p₂ : Program} (hp : p.erase = p₂.erase)
    (echoing : Bool) :
    ((∃ fuel, Finished (s.run fuel echoing p).1) ↔ ∃ fuel, Finished (s₂.run fuel echoing p₂).1) ∧
    ∀ fuel fuel₂, Finished (s.run fuel echoing p).1 → Finished (s₂.run fuel₂ echoing p₂).1 →
      SameRun (s.run fuel echoing p) (s₂.run fuel₂ echoing p₂) := by
  have hbody : Stmt.eraseAll p.body = Stmt.eraseAll p₂.body := (Program.mk.inj hp).2
  refine ⟨⟨?_, ?_⟩, fun fuel fuel₂ hfinished hfinished₂ => ?_⟩
  · rintro ⟨fuel, hfinished⟩
    obtain ⟨n, hn⟩ := executeAll_alike hs hbody hfinished
    exact ⟨n, hfinished.of_erase (hn n (Nat.le_refl n)).results⟩
  · rintro ⟨fuel, hfinished⟩
    obtain ⟨n, hn⟩ := executeAll_alike hs.symm hbody.symm hfinished
    exact ⟨n, hfinished.of_erase (hn n (Nat.le_refl n)).results⟩
  · -- With more fuel than either bound asks for, the second run is like the first and like itself.
    obtain ⟨n, hn⟩ := executeAll_alike hs hbody hfinished
    obtain ⟨n₂, hn₂⟩ := executeAll_alike (.refl hs.hasGlobal₂) rfl hfinished₂
    have hfirst := hn (max n n₂) (by omega)
    have hsecond := hn₂ (max n n₂) (by omega)
    exact hfirst.trans hsecond.symm

/-- A function with parentheses in other lines, a call of it and a failing statement. -/
theorem run_erased_call :
    let declared (body : List Stmt) : Session :=
      ⟨⟨(Scopes.empty.add none).define 0 "f" (.function ⟨0, "f", [], body⟩), ⟨"", none⟩, [], 1⟩⟩
    let s := declared [.giveBack 1 (some (.bool 1 true))]
    let s₂ := declared [.giveBack 3 (some (.group 3 (.bool 4 true)))]
    let p : Program := ⟨1, [.expression 1 (.call 1 "f" []), .print 1 (.unary 1 .negate (.nil 1))]⟩
    let p₂ : Program := ⟨7, [.expression 7 (.group 7 (.call 7 "f" [])),
      .print 8 (.unary 8 .negate (.group 9 (.nil 9)))]⟩
    s.Alike s₂ ∧ p.erase = p₂.erase ∧
    Finished (s.run 9 true p).1 ∧ Finished (s₂.run 9 true p₂).1 ∧
    SameRun (s.run 9 true p) (s₂.run 9 true p₂) := by
  intro declared s s₂ p p₂
  have hs : s.Alike s₂ := {
    hasGlobal := by decide
    hasGlobal₂ := by decide
    globals := fun x => by
      rw [Machine.get?_global, Machine.get?_global]
      show (if "f" = x then some _ else none : Option Value).map Value.erase =
        (if "f" = x then some _ else none : Option Value).map Value.erase
      split <;> rfl
    room := rfl
    hostCalls := rfl
    functions := rfl }
  have hp : p.erase = p₂.erase := rfl
  have hfinished : Finished (s.run 9 true p).1 := by unfold Finished; decide +kernel
  have hfinished₂ : Finished (s₂.run 9 true p₂).1 := by unfold Finished; decide +kernel
  exact ⟨hs, hp, hfinished, hfinished₂, (run_erased hs hp true).2 9 9 hfinished hfinished₂⟩

end Session

end Lox

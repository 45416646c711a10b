import Lox.Proofs.Safety.Evaluation
import Lox.Proofs.Token.Tokenization

/-!
# Safety of sessions

Texts that are run one after the other in a session with built-in natives and unlimited output can
fail only in the documented ways, on lines of the texts run so far, and meet no hazard
(`Session.run_safe`).  What a text leaves bound is well-formed over its lines, flawed or not, so the
next text starts on a well-formed machine again.
-/

namespace Lox

/-- The lines of tokens begin with one. -/
theorem Source.one_le_of_hasLine {text : String} {line : Int} (h : Source.HasLine text line) :
    1 ≤ line := by
  obtain ⟨t, ht, rfl⟩ := h
  obtain ⟨before, behind, -, -, hline⟩ :=
    (Token.scans_scanBehind [] text.toList).token_place t ht
  rw [hline, Token.lineBehind]
  omega

namespace Session

variable {lines : Int → Prop} {s : Session}

/-! ## Statements -/

theorem execute_safe (fuel : Nat) (hs : s.machine.WellFormed lines) {stmt : Stmt}
    (hstmt : stmt.WellFormed lines) :
    s.executeGuarded fuel stmt = .ok (s.execute fuel stmt) ∧
      (s.execute fuel stmt).2.machine.WellFormed lines ∧
      Stop.Allowed lines (fun _ => True) (s.execute fuel stmt).1.outcome := by
  have hfresh : Machine.WellFormed lines
      { s.machine with output := ⟨"", s.machine.output.room⟩ } := ⟨hs.bound, hs.room⟩
  obtain ⟨hguarded, hwf, hallowed⟩ := (Eval.safe fuel).statement global stmt hstmt _ hfresh
  rcases hrun : Eval.statement fuel global stmt
    { s.machine with output := ⟨"", s.machine.output.room⟩ } with ⟨out, m⟩
  have hexecute : s.execute fuel stmt = (⟨stmt, out.map flowValue, m.output.text⟩, ⟨m⟩) := by
    simp only [execute, hrun]
  rw [hrun] at hwf hallowed
  rw [executeGuarded, hguarded, Guarded.lift, hrun, hexecute]
  cases out with
  | ok flow => exact ⟨rfl, hwf, trivial⟩
  | error stop => exact ⟨rfl, hwf, hallowed⟩

theorem outcome_echo (r : StatementResult) (s : Session) : (echo r s).1.outcome = r.outcome := by
  unfold echo
  split <;> rfl

theorem wellFormed_echo (hs : s.machine.WellFormed lines) (r : StatementResult) :
    (echo r s).2.machine.WellFormed lines := by
  unfold echo
  split
  · exact hs.append _
  · exact hs

theorem executeAll_safe (fuel : Nat) (echoing : Bool) (hs : s.machine.WellFormed lines)
    {ss : List Stmt} (hss : ∀ stmt ∈ ss, stmt.WellFormed lines) :
    executeAllGuarded fuel echoing s ss = .ok (executeAll fuel echoing s ss) ∧
      (executeAll fuel echoing s ss).2.machine.WellFormed lines ∧
      ∀ r ∈ (executeAll fuel echoing s ss).1,
        Stop.Allowed lines (fun _ => True) r.outcome := by
  induction ss generalizing s with
  | nil => exact ⟨rfl, hs, fun r hr => absurd hr List.not_mem_nil⟩
  | cons stmt rest ih =>
    obtain ⟨hstmt, hrest⟩ := List.forall_mem_cons.mp hss
    obtain ⟨hguarded, hwf, hallowed⟩ := execute_safe fuel hs hstmt
    rw [executeAllGuarded, hguarded]
    cases echoing with
    | false =>
      obtain ⟨hguarded', hwf', hallowed'⟩ := ih hwf hrest
      refine ⟨?_, hwf', List.forall_mem_cons.mpr ⟨hallowed, hallowed'⟩⟩
      show (executeAllGuarded fuel false (execute fuel s stmt).2 rest >>= fun p =>
        .ok ((execute fuel s stmt).1 :: p.1, p.2)) = _
      rw [hguarded']
      rfl
    | true =>
      obtain ⟨hguarded', hwf', hallowed'⟩ := ih (wellFormed_echo hwf (execute fuel s stmt).1) hrest
      rw [← outcome_echo _ (execute fuel s stmt).2] at hallowed
      refine ⟨?_, hwf', List.forall_mem_cons.mpr ⟨hallowed, hallowed'⟩⟩
      show (executeAllGuarded fuel true
        (echo (execute fuel s stmt).1 (execute fuel s stmt).2).2 rest >>= fun p =>
          .ok ((echo (execute fuel s stmt).1 (execute fuel s stmt).2).1 :: p.1, p.2)) = _
      rw [hguarded']
      rfl

/-! ## Sessions -/

/-- The sessions that come up when texts are run one after the other, from a start with the named
built-in natives and unlimited output. -/
inductive Reached (natives : List String) : List String → Session → Prop
  | start : Reached natives [] (start natives none)
  | run {texts : List String} {s : Session} (h : Reached natives texts s) (fuel : Nat)
      (echoing : Bool) (label text : String) :
      Reached natives (texts ++ [text]) (s.run fuel echoing (Source.read label text).program).2

theorem wellFormed_bind (hs : s.machine.WellFormed lines) {n : Native} (hn : n ∈ Native.builtins) :
    (s.bind n).machine.WellFormed lines := by
  have hall : ∀ n ∈ Native.builtins, n.action = .announce := by decide
  exact hs.define global n.name (v := .native n) (hall n hn)

theorem wellFormed_start (natives : List String) :
    (start natives none).machine.WellFormed lines := by
  have hempty : Machine.WellFormed lines ⟨Scopes.empty.add none, ⟨"", none⟩, [], 0⟩ :=
    ⟨fun id x v hv => absurd (Scopes.empty.frame_of_add hv) (by
      simp [Scopes.frame, Scopes.bindings, Scopes.empty, Bindings.find?]), rfl⟩
  refine List.foldlRecOn (motive := fun s => s.machine.WellFormed lines) _ bind hempty
    fun s hs n hn => ?_
  obtain ⟨name, -, hfind⟩ := List.mem_filterMap.mp hn
  exact wellFormed_bind hs (List.mem_of_find?_eq_some hfind)

/-- A session is well-formed over all lines of the texts that were run. -/
theorem Reached.wellFormed {natives texts : List String} (h : Reached natives texts s)
    (hlines : ∀ t ∈ texts, ∀ line, Source.HasLine t line → lines line) :
    s.machine.WellFormed lines := by
  induction h with
  | start => exact wellFormed_start natives
  | run h fuel echoing label text ih =>
    obtain ⟨hbefore, htext⟩ := List.forall_mem_append.mp hlines
    have hprogram := Source.wellFormed_read label text (htext text (List.mem_singleton_self _))
    exact (executeAll_safe fuel echoing (ih hbefore) hprogram).2.1

/-- A text that is run after others meets no hazard, and what fails in it fails with a documented
fault on the line of a token of one of these texts, unless the fuel gives out. -/
theorem run_safe {natives texts : List String} (h : Reached natives texts s) (fuel : Nat)
    (echoing : Bool) (label text : String) :
    s.runGuarded fuel echoing (Source.read label text).program =
        .ok (s.run fuel echoing (Source.read label text).program) ∧
      ∀ r ∈ (s.run fuel echoing (Source.read label text).program).1,
        ∀ stop, r.outcome = .error stop →
          stop = .outOfFuel ∨ ∃ f : Fault, stop = .failed (.fault f) ∧ f.cause.Documented ∧
            1 ≤ f.line ∧ ∃ t ∈ texts ++ [text], Source.HasLine t f.line := by
  have hs : s.machine.WellFormed (fun line => ∃ t ∈ texts ++ [text], Source.HasLine t line) :=
    h.wellFormed fun t ht line hline => ⟨t, List.mem_append_left _ ht, hline⟩
  have hprogram : ∀ stmt ∈ (Source.read label text).program.body,
      stmt.WellFormed (fun line => ∃ t ∈ texts ++ [text], Source.HasLine t line) :=
    Source.wellFormed_read label text fun line hline =>
      ⟨text, List.mem_append_right _ (List.mem_singleton_self _), hline⟩
  obtain ⟨hguarded, -, hallowed⟩ := executeAll_safe fuel echoing hs hprogram
  refine ⟨hguarded, fun r hr stop hstop => ?_⟩
  have hdocumented := hallowed r hr
  rw [hstop] at hdocumented
  match stop with
  | .outOfFuel => exact .inl rfl
  | .failed (.fault f) =>
    obtain ⟨⟨t, ht, hline⟩, hcause⟩ := hdocumented
    exact .inr ⟨f, rfl, hcause, Source.one_le_of_hasLine hline, t, ht, hline⟩

/-- A sum with a variable that an earlier text has set to nil. -/
theorem run_safe_sum :
    let first := (Source.read "" "var x;").program
    let second := (Source.read "" "x + 1;").program
    let s := ((start ["clock"] none).run 100 false first).2
    Reached ["clock"] ["var x;"] s ∧
    s.runGuarded 100 false second = .ok (s.run 100 false second) ∧
    ∀ r ∈ (s.run 100 false second).1, ∀ stop, r.outcome = .error stop →
      stop = .outOfFuel ∨ ∃ f : Fault, stop = .failed (.fault f) ∧ f.cause.Documented ∧
        1 ≤ f.line ∧ ∃ t ∈ ["var x;", "x + 1;"], Source.HasLine t f.line := by
  intro first second s
  have hreached : Reached ["clock"] ["var x;"] s := .run .start 100 false "" "var x;"
  exact ⟨hreached, run_safe hreached 100 false "" "x + 1;"⟩

end Session

end Lox

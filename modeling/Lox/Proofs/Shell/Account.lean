import Lox.Proofs.Shell.Echo
import Lox.Proofs.Source.Reading
import Lox.Shell.Report
import Mathlib.Data.List.Forall2

/-!
# What a report says

The report of a source that is run says how it went: the exit code tells diagnostics from failures
and these from success, standard error has one line for each of them, and standard output has what
each statement wrote and what it is worth (`Shell.accounts_runSource`).

The statements are executed one after the other, each of them once.  This is said by the rules for
stacks, so it holds as far as the statements come to their ends.
-/

namespace Lox

/-! ## Statements one after the other -/

namespace Stack

/-- The stack with nothing written on it yet. -/
def fresh (st : Stack) : Stack := { st with output := ⟨"", st.output.room⟩ }

/-- What a statement that stands alone is worth: a value that it gives back is its own. -/
inductive Worth : Except Failure Flow → Except Stop Value → Prop
  | next {v : Value} : Worth (.ok (.next v)) (.ok v)
  | giveBack {v : Value} : Worth (.ok (.giveBack v)) (.ok v)
  | failed {f : Failure} : Worth (.error f) (.error (.failed f))

/-- Every one of some statements is executed, once, on the stack that the one before it has left,
whatever that one ended with; these are the results. -/
inductive Performs : Stack → List Stmt → List StatementResult → Stack → Prop
  | nil {st : Stack} : Performs st [] [] st
  | cons {st st₁ st' : Stack} {stmt : Stmt} {rest : List Stmt} {out : Except Failure Flow}
      {outcome : Except Stop Value} {results : List StatementResult}
      (h : Executes st.fresh stmt out st₁) (hworth : Worth out outcome)
      (hrest : Performs st₁ rest results st') :
      Performs st (stmt :: rest) (⟨stmt, outcome, st₁.output.text⟩ :: results) st'

theorem worth_flowValue (out : Except Failure Flow) :
    Worth out ((out.mapError .failed).map Session.flowValue) := by
  cases out with
  | error f => exact .failed
  | ok flow => cases flow <;> constructor

end Stack

namespace Session

variable {s : Session} {ss : List Stmt}

theorem stack_fresh (s : Session) : s.fresh.stack global = (s.machine.stack global).fresh := rfl

theorem performs_executeAll (fuel : Nat) (hs : global < s.machine.scopes.size)
    (hfinished : Finished (s.executeAll fuel false ss).1) :
    Stack.Performs (s.machine.stack global) ss (s.executeAll fuel false ss).1
      ((s.executeAll fuel false ss).2.machine.stack global) := by
  induction ss generalizing s with
  | nil => exact .nil
  | cons stmt ss ih =>
    rw [executeAll_cons, shown, if_neg Bool.false_ne_true] at hfinished ⊢
    obtain ⟨hhead, htail⟩ := List.forall_mem_cons.mp hfinished
    obtain ⟨out, m, hends⟩ := exists_ends_of_finished hhead
    -- What the fuel was enough for is derived by the rules.
    obtain ⟨hexecutes, hext⟩ := (Eval.sound fuel).statement global stmt s.fresh out m hs hends
    rw [execute_of_ends hends] at htail ⊢
    rw [stack_fresh] at hexecutes
    exact .cons hexecutes (Stack.worth_flowValue out)
      (ih (Nat.lt_of_lt_of_le hs hext.size_le) htail)

theorem executeAll_take (fuel : Nat) (echoing : Bool) (s : Session) (ss : List Stmt) (n : Nat) :
    (s.executeAll fuel echoing (ss.take n)).1 = (s.executeAll fuel echoing ss).1.take n := by
  induction ss generalizing s n with
  | nil => rw [List.take_nil, executeAll, List.take_nil]
  | cons stmt ss ih =>
    cases n with
    | zero => rfl
    | succ n => rw [List.take_succ_cons, executeAll_cons, executeAll_cons, List.take_succ_cons, ih]

theorem map_statement_executeAll (fuel : Nat) (s : Session) (ss : List Stmt) :
    (s.executeAll fuel false ss).1.map StatementResult.statement = ss := by
  induction ss generalizing s with
  | nil => rfl
  | cons stmt ss ih =>
    rw [executeAll_cons, List.map_cons, ih]
    rfl

theorem hasGlobal_start (natives : List String) (room : Option Nat) :
    global < (start natives room).machine.scopes.size := by
  refine List.foldlRecOn (motive := fun s => global < s.machine.scopes.size) _ bind ?_
    fun s hs n _ => ?_
  · exact Nat.lt_of_lt_of_eq (Nat.succ_pos _) (Scopes.empty.size_add none).symm
  · rwa [bind, Scopes.size_define]

end Session

/-- What comes of the statements of a source in a new session. -/
def Settings.results (settings : Settings) (source : Source) : List StatementResult :=
  (settings.session.run Session.ampleFuel false source.program).1

theorem Settings.run_echo (settings : Settings) (source : Source) :
    (settings.session.run Session.ampleFuel settings.echo source.program).1 =
      (settings.results source).map fun r => if settings.echo then Session.echoed r else r := by
  cases settings.echo with
  | false => exact (List.map_id _).symm
  | true => exact Session.executeAll_echoing _ (Session.unlimited_start _) rfl

namespace Shell

/-! ## What is shown -/

/-- What standard output has of a statement: what it wrote and, with `echoing`, the value of an
expression statement unless that is nil. -/
inductive Shows (echoing : Bool) (r : StatementResult) : String → Prop
  | value {line : Int} {e : Expr} {v : Value} {text : String} (hechoing : echoing = true)
      (hstatement : r.statement = .expression line e) (hvalue : r.outcome = .ok v)
      (hv : v ≠ .nil) (hshown : v.Shown text) : Shows echoing r (r.output ++ (text ++ "\n"))
  | plain (h : echoing = true → ∀ line e v, r.statement = .expression line e →
      r.outcome = .ok v → v = .nil) : Shows echoing r r.output

theorem shows_echoed (r : StatementResult) : Shows true r (Session.echoed r).output := by
  obtain ⟨stmt, outcome, output⟩ := r
  have hplain (h : Session.echo? ⟨stmt, outcome, output⟩ = none) :
      (Session.echoed ⟨stmt, outcome, output⟩).output = output := by
    rw [Session.echoed, h, Option.getD_none, String.append_empty]
  cases stmt with
  | expression line e =>
    cases outcome with
    | error stop =>
      rw [hplain rfl]
      exact .plain fun _ _ _ _ _ hvalue => nomatch hvalue
    | ok v =>
      cases v with
      | nil =>
        rw [hplain rfl]
        exact .plain fun _ _ _ _ _ hvalue => (Except.ok.inj hvalue).symm
      | _ => exact .value rfl rfl rfl nofun (Value.shown_text _)
  | _ =>
    rw [hplain rfl]
    exact .plain fun _ _ _ _ hstatement => nomatch hstatement

theorem shows_output (echoing : Bool) (r : StatementResult) :
    Shows echoing r (if echoing then Session.echoed r else r).output := by
  cases echoing with
  | true => exact shows_echoed r
  | false => exact .plain fun h => nomatch h

/-! ## What is reported -/

/-- The texts that report on some statements: one for each of them that failed. -/
inductive Reports : List StatementResult → List String → Prop
  | nil : Reports [] []
  | failed {r : StatementResult} {stop : Stop} {rest : List StatementResult} {texts : List String}
      (h : r.outcome = .error stop) (hrest : Reports rest texts) :
      Reports (r :: rest) (stop.text :: texts)
  | ok {r : StatementResult} {v : Value} {rest : List StatementResult} {texts : List String}
      (h : r.outcome = .ok v) (hrest : Reports rest texts) : Reports (r :: rest) texts

/-- Reports are red if this is asked for, or if they go to a terminal and nothing is asked for. -/
inductive Red : ColorMode → Bool → Prop
  | always {terminal : Bool} : Red .always terminal
  | auto : Red .auto true

/-- The line on standard error for a text that is reported. -/
inductive Line (mode : ColorMode) (terminal : Bool) : String → String → Prop
  | red {text : String} (h : Red mode terminal) :
      Line mode terminal text ("\x1b[31m" ++ text ++ "\x1b[0m" ++ "\n")
  | plain {text : String} (h : ¬ Red mode terminal) : Line mode terminal text (text ++ "\n")

theorem reports_filterMap (results : List StatementResult) :
    Reports results (results.filterMap StatementResult.report?) := by
  induction results with
  | nil => exact .nil
  | cons r rest ih =>
    obtain ⟨stmt, outcome, output⟩ := r
    cases outcome with
    | ok v => exact .ok rfl ih
    | error stop => exact .failed rfl ih

theorem red_iff {mode : ColorMode} {terminal : Bool} :
    Red mode terminal ↔ mode.isRed terminal = true := by
  constructor
  · intro h
    cases h <;> rfl
  · intro h
    cases mode with
    | auto =>
      obtain rfl : terminal = true := h
      exact .auto
    | always => exact .always
    | never => cases h

theorem line_reportLine (mode : ColorMode) (terminal : Bool) (text : String) :
    Line mode terminal text (reportLine (mode.isRed terminal) text) := by
  rw [reportLine]
  split
  · exact .red (red_iff.mpr ‹_›)
  · exact .plain (mt red_iff.mp ‹_›)

/-! ## The report of a source -/

/-- A report tells how running a source with some settings went. -/
structure Accounts (settings : Settings) (terminal : Bool) (source : Source) (report : Report) :
    Prop where
  flawed : report.code.number = 65 ↔ source.scanErrors ≠ [] ∨ source.parseErrors ≠ []
  failed : report.code.number = 70 ↔ (source.scanErrors = [] ∧ source.parseErrors = []) ∧
    ∃ r ∈ settings.results source, ∃ stop, r.outcome = .error stop
  ok : report.code.number = 0 ↔ (source.scanErrors = [] ∧ source.parseErrors = []) ∧
    ∀ r ∈ settings.results source, ∃ v, r.outcome = .ok v
  statements : (settings.results source).map StatementResult.statement = source.program.body
  /-- The statements are executed in order, as far as all of them end. -/
  performed : ∀ n, Session.Finished ((settings.results source).take n) → ∃ st,
    Stack.Performs (settings.session.machine.stack Session.global) (source.program.body.take n)
      ((settings.results source).take n) st
  /-- A line for each diagnostic, those of scanning first, and for each statement that failed. -/
  errors : ∃ reports lines, Reports (settings.results source) reports ∧
    List.Forall₂ (Line settings.color terminal) (source.scanErrors.map ScanError.text ++
      source.parseErrors.map ParseError.text ++ reports) lines ∧
    report.errors = String.join lines
  errors_empty : report.errors = "" ↔ report.code.number = 0
  output : ∃ texts, List.Forall₂ (Shows settings.echo) (settings.results source) texts ∧
    report.output = String.join texts

section

variable (settings : Settings) (terminal : Bool) (source : Source)

theorem output_runSource :
    (runSource settings terminal source).output = String.join ((settings.results source).map
      fun r => (if settings.echo then Session.echoed r else r).output) := by
  show writtenBy (settings.session.run Session.ampleFuel settings.echo source.program).1 = _
  rw [Settings.run_echo, writtenBy, List.map_map]
  rfl

/-- Echoing concerns neither failures nor their reports. -/
theorem outcome_echoed (echoing : Bool) (r : StatementResult) :
    (if echoing then Session.echoed r else r).outcome = r.outcome := by
  cases echoing <;> rfl

theorem code_runSource :
    (runSource settings terminal source).code =
      if source.isFlawed then .flawedSource
      else if (settings.results source).any StatementResult.failed then .failedStatement
      else .ok := by
  have hfailed : StatementResult.failed ∘ (fun r =>
      if settings.echo then Session.echoed r else r) = StatementResult.failed := by
    funext r
    simp only [Function.comp_apply, StatementResult.failed, outcome_echoed]
  simp only [runSource, Settings.run_echo, List.any_map, hfailed]

theorem errors_runSource :
    (runSource settings terminal source).errors =
      String.join ((source.scanErrors.map ScanError.text ++
        source.parseErrors.map ParseError.text ++
        (settings.results source).filterMap StatementResult.report?).map
          (reportLine (settings.color.isRed terminal))) := by
  have hreport : StatementResult.report? ∘ (fun r =>
      if settings.echo then Session.echoed r else r) = StatementResult.report? := by
    funext r
    simp only [Function.comp_apply, StatementResult.report?, outcome_echoed]
  simp only [runSource, Settings.run_echo, reportLines, List.filterMap_map, hreport,
    Source.diagnostics, List.map_append, List.map_map]
  rfl

end

theorem reportLine_ne_empty (red : Bool) (text : String) : reportLine red text ≠ "" := by
  rw [reportLine, Ne, String.append_eq_empty_iff]
  exact fun h => absurd h.2 (by decide)

theorem join_reportLine_eq_empty_iff {red : Bool} {texts : List String} :
    String.join (texts.map (reportLine red)) = "" ↔ texts = [] := by
  cases texts with
  | nil => exact iff_of_true rfl rfl
  | cons text rest =>
    rw [List.map_cons, String.join_cons, String.append_eq_empty_iff]
    exact iff_of_false (fun h => reportLine_ne_empty red text h.1) (List.cons_ne_nil text rest)

theorem failed_eq_true_iff {r : StatementResult} :
    r.failed = true ↔ ∃ stop, r.outcome = .error stop := by
  obtain ⟨stmt, outcome, output⟩ := r
  cases outcome with
  | ok v => exact iff_of_false nofun nofun
  | error stop => exact iff_of_true rfl ⟨stop, rfl⟩

theorem failed_eq_false_iff {r : StatementResult} :
    r.failed = false ↔ ∃ v, r.outcome = .ok v := by
  obtain ⟨stmt, outcome, output⟩ := r
  cases outcome with
  | ok v => exact iff_of_true rfl ⟨v, rfl⟩
  | error stop => exact iff_of_false nofun nofun

theorem report?_eq_none_iff {r : StatementResult} :
    r.report? = none ↔ ∃ v, r.outcome = .ok v := by
  obtain ⟨stmt, outcome, output⟩ := r
  cases outcome with
  | ok v => exact iff_of_true rfl ⟨v, rfl⟩
  | error stop => exact iff_of_false nofun nofun

theorem accounts_runSource (settings : Settings) (terminal : Bool) (source : Source) :
    Accounts settings terminal source (runSource settings terminal source) := by
  have hclean := Source.isFlawed_eq_false_iff (s := source)
  have hflawed : source.isFlawed = true ↔ source.scanErrors ≠ [] ∨ source.parseErrors ≠ [] := by
    rw [← Bool.not_eq_false, hclean, Decidable.not_and_iff_not_or_not]
  have hfailed : (settings.results source).any StatementResult.failed = true ↔
      ∃ r ∈ settings.results source, ∃ stop, r.outcome = .error stop := by
    simp only [List.any_eq_true, failed_eq_true_iff]
  have hwell : (settings.results source).any StatementResult.failed = false ↔
      ∀ r ∈ settings.results source, ∃ v, r.outcome = .ok v := by
    simp only [List.any_eq_false, Bool.not_eq_true, failed_eq_false_iff]
  have hok : (runSource settings terminal source).code.number = 0 ↔
      (source.scanErrors = [] ∧ source.parseErrors = []) ∧
        ∀ r ∈ settings.results source, ∃ v, r.outcome = .ok v := by
    rw [code_runSource, ← hclean, ← hwell]
    cases source.isFlawed <;> cases (settings.results source).any StatementResult.failed <;> decide
  exact {
    flawed := by
      rw [code_runSource, ← hflawed]
      cases source.isFlawed <;> cases (settings.results source).any StatementResult.failed <;>
        decide
    failed := by
      rw [code_runSource, ← hclean, ← hfailed]
      cases source.isFlawed <;> cases (settings.results source).any StatementResult.failed <;>
        decide
    ok := hok
    statements := Session.map_statement_executeAll _ _ _
    performed := fun n hfinished => by
      rw [Settings.results, Session.run, ← Session.executeAll_take] at hfinished ⊢
      exact ⟨_, Session.performs_executeAll _ (Session.hasGlobal_start _ _) hfinished⟩
    errors := ⟨_, _, reports_filterMap _, List.forall₂_map_right_iff.mpr
      (List.forall₂_same.mpr fun text _ => line_reportLine settings.color terminal text),
      errors_runSource settings terminal source⟩
    errors_empty := by
      rw [hok, errors_runSource, join_reportLine_eq_empty_iff, List.append_eq_nil_iff,
        List.append_eq_nil_iff, List.map_eq_nil_iff, List.map_eq_nil_iff,
        List.filterMap_eq_nil_iff]
      simp only [report?_eq_none_iff]
    output := ⟨_, List.forall₂_map_right_iff.mpr (List.forall₂_same.mpr fun r _ =>
      shows_output settings.echo r), output_runSource settings terminal source⟩ }

end Shell

end Lox

import Lox.Proofs.Lines.Evaluation
import Lox.Proofs.Source.Reading
import Lox.Shell.Dialogue

/-!
# Dialogues and scripts

A dialogue cuts its lines into sources and runs them one after the other.  If these are read without
diagnostics, the dialogue does what the script of all lines does, the lines in reports apart
(`Shell.Dialogue.hold_lines_eq_script`).

Three facts carry the proof.  A source without diagnostics contributes its tokens to those of the
script and nothing else, because it does not end inside a string.  The declarations of the sources,
put one behind the other, are declarations, because none begins with `else`.  And running them does
not depend on their lines.  Lines are erased on both sides from the beginning, so that texts are
compared by their bare tokens.
-/

namespace Lox

open Token (bareTokens innerTokens StringsClosed)

namespace Shell

/-! ## The text of lines -/

/-- The text of some lines. -/
def textOf (lines : List String) : String := "\n".intercalate lines

theorem toList_textOf_cons_cons (a b : String) (lines : List String) :
    (textOf (a :: b :: lines)).toList = a.toList ++ '\n' :: (textOf (b :: lines)).toList := by
  rw [textOf, String.intercalate_cons_cons, String.toList_append, String.toList_append,
    List.append_assoc]
  rfl

theorem bareTokens_textOf_nil : bareTokens (textOf []).toList = [] := by
  rw [textOf, String.intercalate_nil]
  exact Token.bareTokens_of_isBlank fun _ hc => absurd hc List.not_mem_nil

/-- A text that does not end inside a string contributes its tokens to those of more lines. -/
theorem bareTokens_textOf_cons {text : String} (h : StringsClosed text.toList)
    (lines : List String) :
    bareTokens (textOf (text :: lines)).toList =
      bareTokens text.toList ++ bareTokens (textOf lines).toList := by
  cases lines with
  | nil =>
    rw [bareTokens_textOf_nil, List.append_nil, textOf, String.intercalate_singleton]
  | cons line lines => rw [toList_textOf_cons_cons, Token.bareTokens_newline _ _ h]

/-- The text holds declarations, and running them in the session gives the results and leads to the
session `after`, lines apart. -/
def Runs (s : Session) (text : String) (results : List StatementResult) (after : Session) : Prop :=
  ∃ body, Phrase.Declarations (bareTokens text.toList) body ∧
    s.bare.executeAll Session.ampleFuel true body =
      (results.map StatementResult.bare, after.bare)

theorem runs_textOf_nil (s : Session) : Runs s (textOf []) [] s := by
  refine ⟨[], ?_, rfl⟩
  rw [bareTokens_textOf_nil]
  exact .nil

/-- A text that does not end inside a string is run before the lines behind it. -/
theorem Runs.cons {s s₁ s₂ : Session} {text : String} {rs₁ rs₂ : List StatementResult}
    {lines : List String} (h : Runs s text rs₁ s₁) (hstrings : StringsClosed text.toList)
    (hlines : Runs s₁ (textOf lines) rs₂ s₂) : Runs s (textOf (text :: lines)) (rs₁ ++ rs₂) s₂ := by
  obtain ⟨ss, hss, hrun⟩ := h
  obtain ⟨rest, hrest, hrunRest⟩ := hlines
  refine ⟨ss ++ rest, ?_, ?_⟩
  · rw [bareTokens_textOf_cons hstrings]
    exact hss.append hrest
  · rw [Session.executeAll_append, hrun, hrunRest, List.map_append]

/-- Running the source that is read from a text gives the same results and the same session. -/
theorem Runs.eq_run {s after : Session} {text : String} {results : List StatementResult}
    (h : Runs s text results after) (label : String) :
    (s.run Session.ampleFuel true (Source.read label text).program).1.map StatementResult.bare =
      results.map StatementResult.bare ∧
    (s.run Session.ampleFuel true (Source.read label text).program).2.bare = after.bare := by
  obtain ⟨body, hbody, hrun⟩ := h
  have hsame : Stmt.bares (Source.read label text).program.body = body := by
    rw [Grammar.declarations_iff_statements, Source.statements_bareTokens label text] at hbody
    exact (Prod.mk.inj hbody).1
  have hbare := s.executeAll_renumber (fun _ => 0) Session.ampleFuel true
    (Source.read label text).program.body
  rw [← hsame] at hrun
  exact Prod.mk.inj (hbare.symm.trans hrun)

namespace Dialogue

/-- The text of the lines that have not been run yet. -/
def unread (d : Dialogue) (lines : List String) : String :=
  textOf (if d.pending.isEmpty then lines else d.pending :: lines)

/-- It makes no difference whether a line is still to come or stands behind the text so far. -/
theorem unread_cons (d : Dialogue) (line : String) (lines : List String) :
    d.unread (line :: lines) = textOf (Intake.behind d.pending line :: lines) := by
  rw [unread, Intake.behind]
  split
  · rfl
  · rw [textOf, textOf, String.intercalate_cons_cons, String.intercalate_cons_append]

end Dialogue

/-! ## Turns -/

/-- The source of the turn, if it has one that is not blank, is read without diagnostics. -/
def Turn.Clean (t : Turn) : Prop :=
  match t.intake with
  | .source text =>
    Text.isBlankText text = false → (Source.read Dialogue.label text).isFlawed = false
  | _ => True

instance : DecidablePred Turn.Clean
  | ⟨_, .source text, _, _⟩ =>
    inferInstanceAs (Decidable (Text.isBlankText text = false →
      (Source.read Dialogue.label text).isFlawed = false))
  | ⟨_, .waiting _, _, _⟩ => .isTrue trivial
  | ⟨_, .dropped, _, _⟩ => .isTrue trivial
  | ⟨_, .closed _, _, _⟩ => .isTrue trivial

theorem Turn.Clean.source {t : Turn} {text : String} (h : t.Clean) (ht : t.intake = .source text)
    (htext : Text.isBlankText text = false) :
    (Source.read Dialogue.label text).isFlawed = false := by
  rw [Turn.Clean, ht] at h
  exact h htext

namespace Dialogue

/-- The turns for some answers and the end of input after them, with the dialogue that is left. -/
def held (d : Dialogue) : List Answer → List Turn × Dialogue
  | [] =>
    let (turn, e) := d.step .ended
    if turn.intake.isClosed then ([turn], e)
    else
      let (last, e) := e.step .ended
      ([turn, last], e)
  | answer :: rest =>
    let (turn, e) := d.step answer
    if turn.intake.isClosed then ([turn], e)
    else
      let (turns, e) := e.held rest
      (turn :: turns, e)

theorem held_fst (d : Dialogue) (answers : List Answer) :
    (d.held answers).1 = d.hold answers := by
  induction answers generalizing d with
  | nil =>
    simp only [held, hold, finish]
    split <;> rfl
  | cons answer rest ih =>
    simp only [held, hold, ← ih]
    split <;> rfl

variable {d : Dialogue} {answer : Answer} {text : String}

theorem hold_cons (h : (d.step answer).1.intake.isClosed = false) (rest : List Answer) :
    d.hold (answer :: rest) = (d.step answer).1 :: (d.step answer).2.hold rest := by
  simp only [hold, h, Bool.false_eq_true, if_false]

theorem held_cons_snd (h : (d.step answer).1.intake.isClosed = false) (rest : List Answer) :
    (d.held (answer :: rest)).2 = ((d.step answer).2.held rest).2 := by
  simp only [held, h, Bool.false_eq_true, if_false]

/-! ### One step -/

theorem step_waiting (h : Intake.next d.pending answer = .waiting text) :
    d.step answer = (⟨d.prompt, .waiting text, [], []⟩, ⟨d.session, text⟩) := by
  simp only [step, h]
  rfl

theorem step_ended (h : d.pending.isEmpty = true) :
    d.step .ended = (⟨d.prompt, .closed none, [], []⟩, ⟨d.session, ""⟩) := by
  simp only [step, Intake.next, h, if_true]
  rfl

theorem step_source (h : Intake.next d.pending answer = .source text) :
    (d.step answer).1.intake = .source text ∧ (d.step answer).2.pending = "" := by
  simp only [step, h]
  split <;> exact ⟨rfl, rfl⟩

/-- A clean turn runs what stands in its source, which does not end inside a string. -/
theorem runs_step (h : Intake.next d.pending answer = .source text)
    (hclean : (d.step answer).1.Clean) :
    StringsClosed text.toList ∧
    Runs d.session text (d.step answer).1.results (d.step answer).2.session := by
  have hsource := hclean.source (step_source h).1
  simp only [step, h]
  cases hblank : Text.isBlankText text with
  | true =>
    have hchars : ∀ c ∈ text.toList, Text.isBlank c = true := List.all_eq_true.mp hblank
    refine ⟨Token.stringsClosed_of_isBlank hchars, [], ?_, rfl⟩
    rw [Token.bareTokens_of_isBlank hchars]
    exact .nil
  | false =>
    have hflawed := hsource hblank
    exact ⟨Source.stringsClosed_of_not_isFlawed hflawed, _,
      Source.declarations_of_not_isFlawed hflawed,
      Session.executeAll_renumber (fun _ => 0) _ _ _ _⟩

/-! ### All steps -/

/-- There is no text before the next line, or one that needs more lines. -/
def Waits (d : Dialogue) : Prop :=
  d.pending.isEmpty = false → Intake.isReady d.pending = false

theorem isEmpty_of_not_isReady (h : Intake.isReady text = false) : text.isEmpty = false := by
  rw [← Bool.not_eq_true, String.isEmpty_iff]
  rintro rfl
  exact absurd h (by decide)

theorem next_line (d : Dialogue) (line : String) :
    Intake.next d.pending (.line line) =
      if Intake.isReady (Intake.behind d.pending line) then
        .source (Intake.behind d.pending line)
      else .waiting (Intake.behind d.pending line) :=
  rfl

theorem next_ended (h : d.pending.isEmpty = false) :
    Intake.next d.pending .ended = .source d.pending := by
  rw [Intake.next, h, if_neg Bool.false_ne_true]

theorem isClosed_step_line (d : Dialogue) (line : String) :
    (d.step (.line line)).1.intake.isClosed = false := by
  have hnext := d.next_line line
  split at hnext
  · rw [(step_source hnext).1]
    rfl
  · rw [step_waiting hnext]
    rfl

/-- A text that needs more lines has diagnostics, so input does not end behind it in clean turns. -/
theorem Waits.isEmpty_pending (hwaits : d.Waits) (hclean : ∀ t ∈ d.finish, t.Clean) :
    d.pending.isEmpty = true := by
  cases hpending : d.pending.isEmpty with
  | true => rfl
  | false =>
    have hnext := next_ended hpending
    have hturn : (d.step .ended).1.Clean := by
      refine hclean _ ?_
      simp only [finish]
      split <;> exact List.mem_cons_self ..
    obtain ⟨hblank, hincomplete⟩ := Bool.or_eq_false_iff.mp (hwaits hpending)
    rw [Bool.not_eq_false'] at hincomplete
    have hflawed := Source.isFlawed_of_isIncomplete Dialogue.label hincomplete
    rw [hturn.source (step_source hnext).1 hblank] at hflawed
    exact absurd hflawed Bool.false_ne_true

/-- The turns for lines run the text of the lines. -/
theorem runs_hold (d : Dialogue) (lines : List String) (hwaits : d.Waits)
    (hclean : ∀ t ∈ d.hold (lines.map .line), t.Clean) :
    Runs d.session (d.unread lines) ((d.hold (lines.map .line)).flatMap Turn.results)
      (d.held (lines.map .line)).2.session := by
  induction lines generalizing d with
  | nil =>
    have hpending := hwaits.isEmpty_pending hclean
    have hstep := step_ended hpending
    have hturns : d.hold [] = [(d.step .ended).1] := by rw [hold, finish, hstep]; rfl
    have hleft : (d.held []).2 = (d.step .ended).2 := by rw [held, hstep]; rfl
    rw [List.map_nil, hturns, hleft, hstep, unread, if_pos hpending]
    exact runs_textOf_nil d.session
  | cons line lines ih =>
    have hnext := d.next_line line
    have hopen := d.isClosed_step_line line
    rw [unread_cons]
    cases hready : Intake.isReady (Intake.behind d.pending line) with
    | true =>
      -- The lines so far are run, and nothing is kept for the next turn.
      rw [hready, if_pos rfl] at hnext
      rw [List.map_cons, hold_cons hopen] at hclean
      rw [List.map_cons, hold_cons hopen, held_cons_snd hopen, List.flatMap_cons]
      obtain ⟨hturn, hturns⟩ := List.forall_mem_cons.mp hclean
      obtain ⟨hstrings, hruns⟩ := runs_step hnext hturn
      have hempty : (d.step (.line line)).2.pending.isEmpty = true := by
        rw [(step_source hnext).2]
        rfl
      have hrest := ih _ (fun h => absurd (h.symm.trans hempty) Bool.false_ne_true) hturns
      rw [unread, if_pos hempty] at hrest
      exact hruns.cons hstrings hrest
    | false =>
      -- Nothing is run, and the text still to run is the same.
      rw [hready, if_neg Bool.false_ne_true] at hnext
      have hstep := step_waiting hnext
      rw [List.map_cons, hold_cons hopen, hstep] at hclean
      rw [List.map_cons, hold_cons hopen, held_cons_snd hopen, List.flatMap_cons, hstep]
      have hlater : Waits ⟨d.session, Intake.behind d.pending line⟩ := fun _ => hready
      have hrest := ih _ hlater (List.forall_mem_cons.mp hclean).2
      have hkept : (Intake.behind d.pending line).isEmpty = false :=
        isEmpty_of_not_isReady hready
      rw [unread, if_neg (by rw [hkept]; exact Bool.false_ne_true)] at hrest
      exact hrest

/-! ### Standard output -/

theorem writtenBy_bare (results : List StatementResult) :
    writtenBy (results.map StatementResult.bare) = writtenBy results := by
  rw [writtenBy, List.map_map]
  rfl

theorem writtenBy_append (rs₁ rs₂ : List StatementResult) :
    writtenBy (rs₁ ++ rs₂) = writtenBy rs₁ ++ writtenBy rs₂ := by
  rw [writtenBy, List.map_append, String.join_append]
  rfl

theorem output_of_open {t : Turn} (h : t.intake.isClosed = false) :
    t.output = writtenBy t.results := by
  rw [Turn.output, h, if_neg Bool.false_ne_true, String.append_empty]

theorem output_finish (d : Dialogue) :
    String.join (d.finish.map Turn.output) =
      writtenBy (d.finish.flatMap Turn.results) ++ "\n" := by
  cases hpending : d.pending.isEmpty with
  | true =>
    rw [finish, step_ended hpending]
    rfl
  | false =>
    have hnext := next_ended hpending
    obtain ⟨hintake, hnone⟩ := step_source hnext
    have hopen : (d.step .ended).1.intake.isClosed = false := by rw [hintake]; rfl
    have hlast := step_ended (d := (d.step .ended).2) (by rw [hnone]; rfl)
    simp only [finish, hopen, Bool.false_eq_true, if_false, hlast, List.map_cons, List.map_nil,
      output_of_open hopen, List.flatMap_cons, List.flatMap_nil, List.append_nil, String.join_cons]
    rfl

/-- The turns for lines write what the statements write, and a line end when input ends. -/
theorem output_hold (d : Dialogue) (lines : List String) :
    String.join ((d.hold (lines.map .line)).map Turn.output) =
      writtenBy ((d.hold (lines.map .line)).flatMap Turn.results) ++ "\n" := by
  induction lines generalizing d with
  | nil => exact d.output_finish
  | cons line lines ih =>
    have hopen := d.isClosed_step_line line
    rw [List.map_cons, hold_cons hopen, List.map_cons, String.join_cons, List.flatMap_cons, ih,
      writtenBy_append, String.append_assoc, output_of_open hopen]

/-! ## The dialogue and the script -/

/-- A dialogue whose sources are read without diagnostics does what the script of its lines does:
the statements have the same results and the global bindings are the same in the end, the lines in
trees and reports apart, and what it writes is what the script writes with echoing, and a line
end. -/
theorem hold_lines_eq_script (settings : Settings) (lines : List String) (label : String)
    (terminal : Bool) (hclean : ∀ t ∈ (start settings).hold (lines.map .line), t.Clean) :
    let turns := (start settings).hold (lines.map .line)
    let last := ((start settings).held (lines.map .line)).2
    let script := Source.read label ("\n".intercalate lines)
    let run := settings.session.run Session.ampleFuel true script.program
    (turns.flatMap Turn.results).map StatementResult.bare = run.1.map StatementResult.bare ∧
    last.session.globals.mapValues Value.bare = run.2.globals.mapValues Value.bare ∧
    String.join (turns.map Turn.output) =
      (runSource { settings with echo := true } terminal script).output ++ "\n" := by
  intro turns last script run
  have hstart : (start settings).Waits := fun h => absurd h Bool.false_ne_true.symm
  obtain ⟨hresults, hsession⟩ := (runs_hold (start settings) lines hstart hclean).eq_run label
  refine ⟨hresults.symm, ?_, ?_⟩
  · have hglobals := congrArg Session.globals hsession
    rw [Session.bare, Session.globals_renumber, Session.globals_renumber] at hglobals
    exact hglobals.symm
  · rw [output_hold, ← writtenBy_bare, ← hresults, writtenBy_bare]
    rfl

/-- A statement over two lines, an empty line and a statement that fails make no difference. -/
theorem hold_lines_eq_script_continued :
    let lines := ["var a = 1;", "a + 1;", "", "print (a", "+ 10);", "nope();", "a;"]
    let turns := (start .default).hold (lines.map .line)
    let script := Source.read "" ("\n".intercalate lines)
    let run := Settings.default.session.run Session.ampleFuel true script.program
    (∀ t ∈ turns, t.Clean) ∧
    (turns.flatMap Turn.results).map StatementResult.bare = run.1.map StatementResult.bare ∧
    (((start .default).held (lines.map .line)).2.session.globals.mapValues Value.bare =
      run.2.globals.mapValues Value.bare) ∧
    String.join (turns.map Turn.output) = "2\n11\n1\n\n" ∧
    (runSource { Settings.default with echo := true } false script).output = "2\n11\n1\n" := by
  intro lines turns script run
  have hclean : ∀ t ∈ turns, t.Clean := by decide +kernel
  obtain ⟨hresults, hglobals, houtput⟩ := hold_lines_eq_script .default lines "" false hclean
  have hwritten : String.join (turns.map Turn.output) = "2\n11\n1\n\n" := by decide +kernel
  refine ⟨hclean, hresults, hglobals, hwritten, ?_⟩
  exact (String.append_left_inj "\n").mp (houtput.symm.trans hwritten)

end Dialogue

end Shell

end Lox

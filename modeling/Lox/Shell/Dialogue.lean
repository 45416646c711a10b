import Lox.Shell.Intake
import Lox.Shell.Report

/-!
# Dialogues

A dialogue prompts for lines, runs the sources that they make in one session, and shows the values
of expression statements.  It goes on until there is no more input.
-/

namespace Lox.Shell

/-- A session with the text that waits for more lines. -/
structure Dialogue where
  session : Session
  pending : String

/-- One prompt with the answer to it: what was taken in, and what running it brought. -/
structure Turn where
  prompt : String
  intake : Intake
  diagnostics : List Diagnostic
  results : List StatementResult

namespace Turn

/-- The text of a turn on standard output, behind the prompt. -/
def output (t : Turn) : String :=
  writtenBy t.results ++ (if t.intake.isClosed then "\n" else "")

/-- The text of a turn on standard error. -/
def errors (red : Bool) (t : Turn) : String :=
  match t.intake with
  | .closed (some message) => "failed to read input: " ++ message ++ "\n"
  | _ => reportLines red t.diagnostics t.results

/-- The text of a source on one line. -/
def flat (text : String) : String :=
  String.ofList (text.toList.map fun c => if c = '\n' then ' ' else c)

/-- What a turn adds to the history: a source that is not blank, on one line. -/
def entries (t : Turn) : List String :=
  match t.intake with
  | .source text => if Text.isBlankText text then [] else [flat text]
  | _ => []

end Turn

namespace Dialogue

/-- A dialogue in a new session. -/
def start (settings : Settings) : Dialogue := ⟨settings.session, ""⟩

/-- The prompt for the next line. -/
def prompt (d : Dialogue) : String :=
  if d.pending.isEmpty then "> " else "... "

/-- The label of sources that come from a dialogue. -/
def label : String := "<repl>"

/-- Takes an answer in, and runs the source that it makes. -/
def step (d : Dialogue) (answer : Answer) : Turn × Dialogue :=
  let intake := Intake.next d.pending answer
  match intake with
  | .source text =>
    if Text.isBlankText text then (⟨d.prompt, intake, [], []⟩, ⟨d.session, ""⟩)
    else
      let source := Source.read label text
      let (results, session) := d.session.run Session.ampleFuel true source.program
      (⟨d.prompt, intake, source.diagnostics, results⟩, ⟨session, ""⟩)
  | _ => (⟨d.prompt, intake, [], []⟩, ⟨d.session, intake.pending⟩)

/-- The turns when there is no more input: a text that waits for more lines is run as it is. -/
def finish (d : Dialogue) : List Turn :=
  let (turn, d) := d.step .ended
  if turn.intake.isClosed then [turn] else [turn, (d.step .ended).1]

/-- The turns for some answers and the end of input after them. -/
def hold (d : Dialogue) : List Answer → List Turn
  | [] => d.finish
  | answer :: rest =>
    let (turn, d) := d.step answer
    if turn.intake.isClosed then [turn] else turn :: d.hold rest

end Dialogue

end Lox.Shell

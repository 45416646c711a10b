import Lox.Project.Settings
import Lox.Source

/-!
# Reports

What a run leaves for the one who started it: an exit code, what was written to standard output and
what was written to standard error.
-/

namespace Lox

/-- Reports are red in this mode; `terminal` says whether they go to a terminal. -/
def ColorMode.isRed (mode : ColorMode) (terminal : Bool) : Bool :=
  match mode with
  | auto => terminal
  | always => true
  | never => false

namespace Shell

/-- How a run ended. -/
inductive ExitCode where
  | ok
  /-- Nothing was run: the arguments, the settings or the script are not usable. -/
  | refused
  /-- The source has diagnostics. -/
  | flawedSource
  /-- A statement failed. -/
  | failedStatement
  deriving DecidableEq, Repr

/-- The number of an exit code. -/
def ExitCode.number : ExitCode → Nat
  | ok => 0
  | refused => 1
  | flawedSource => 65
  | failedStatement => 70

/-- What a run leaves. -/
structure Report where
  code : ExitCode
  output : String
  errors : String
  deriving DecidableEq, Repr

/-- A line of a report, in red if asked for. -/
def reportLine (red : Bool) (text : String) : String :=
  (if red then "\x1b[31m" ++ text ++ "\x1b[0m" else text) ++ "\n"

/-- The lines for the diagnostics of a source, then those for the statements that failed. -/
def reportLines (red : Bool) (diagnostics : List Diagnostic) (results : List StatementResult) :
    String :=
  String.join ((diagnostics.map Diagnostic.text ++ results.filterMap StatementResult.report?).map
    (reportLine red))

/-- What statements wrote, one after the other. -/
def writtenBy (results : List StatementResult) : String :=
  String.join (results.map StatementResult.output)

/-- Runs a source in a new session.  All of it that could be read is run, and its diagnostics count
more than the failures of its statements. -/
def runSource (settings : Settings) (terminal : Bool) (source : Source) : Report :=
  let results := (settings.session.run Session.ampleFuel settings.echo source.program).1
  { code :=
      if source.isFlawed then .flawedSource
      else if results.any StatementResult.failed then .failedStatement
      else .ok
    output := writtenBy results
    errors := reportLines (settings.color.isRed terminal) source.diagnostics results }

end Shell

end Lox

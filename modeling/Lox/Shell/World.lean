import Lox.Shell.Job

/-!
# Worlds

A world is all that a command line depends on, as a value: files, standard input, the home
directory, and what is a terminal.  In a world a command line has one outcome, a report and the
files that it leaves.
-/

namespace Lox.Shell

/-- The bytes that standard input gives, and the message with which reading fails behind them, if it
does. -/
structure Supply where
  bytes : List UInt8
  failure? : Option String

namespace Supply

/-- Standard input read to its end. -/
def whole (s : Supply) : Except String String :=
  match s.failure? with
  | some message => .error message
  | none => .ok (Text.Utf8.decodeText s.bytes)

/-- Standard input read line by line. -/
def answers (s : Supply) : List Answer :=
  (Text.Line.cut s.bytes).map (fun line => .line line.text) ++ s.failure?.toList.map .failure

end Supply

/-- All that a command line depends on. -/
structure World where
  files : FileTree
  /-- The directory from which other paths start. -/
  here : String
  home : Option String
  input : Supply
  inputIsTerminal : Bool
  errorsToTerminal : Bool

namespace World

/-- The world as a host of command lines. -/
def host (w : World) : Host Id where
  files := w.files.view w.here
  input := w.input.whole
  inputIsTerminal := w.inputIsTerminal

/-- The turns of a dialogue in the world. -/
def turns (w : World) (settings : Settings) : List Turn :=
  (Dialogue.start settings).hold w.input.answers

/-- The files with the history that a dialogue leaves. -/
def remember (w : World) (settings : Settings) (turns : List Turn) : FileTree :=
  match historyFile? settings w.home with
  | none => w.files
  | some path =>
    let history := History.ofReading (w.files.read w.here path)
    w.files.write w.here path (history.addAll (turns.flatMap Turn.entries)).text

/-- Holds a dialogue. -/
def converse (w : World) (settings : Settings) : Report × FileTree :=
  let turns := w.turns settings
  let red := settings.color.isRed w.errorsToTerminal
  (⟨.ok, greeting ++ String.join (turns.map fun t => t.prompt ++ t.output),
    String.join (turns.map (Turn.errors red))⟩, w.remember settings turns)

/-- Does a job. -/
def perform (w : World) : Job → Report × FileTree
  | .refuse refusal => (⟨.refused, "", refusal.text⟩, w.files)
  | .present text => (⟨.ok, text, ""⟩, w.files)
  | .run settings source => (runSource settings w.errorsToTerminal source, w.files)
  | .converse settings => w.converse settings

/-- The job that arguments ask for in the world. -/
def job (w : World) (args : List String) : Job :=
  (Job.ofArguments w.host args : Id Job)

/-- What the arguments of the command line lead to. -/
def run (w : World) (args : List String) : Report × FileTree :=
  w.perform (w.job args)

end World

end Lox.Shell

import Lox.Project.Discovery
import Lox.Project.Load
import Lox.Shell.Arguments
import Lox.Shell.Dialogue
import Lox.Shell.History

/-!
# Jobs

A command line is turned into a job: it is refused, or there is a text to show, a source to run, or
a dialogue to hold.  Settings and sources are looked up on the way, in any context that has files.
-/

namespace Lox.Shell

/-- The name and the version of the program. -/
def version : String := "lox 0.1.0-dev"

/-- How the program is used. -/
def usage : String :=
  "Usage:\n" ++
  "  lox [--config <lox.yml>]               start a REPL (or run stdin when piped)\n" ++
  "  lox [--config <lox.yml>] <file.lox>    run a script\n" ++
  "  lox run [<file.lox>]                   run a script or the configured entry\n" ++
  "  lox repl                               start a REPL\n" ++
  "  lox --version                          print the version\n" ++
  "\n" ++
  "Exit codes: 0 ok, 65 scan/parse errors, 70 runtime errors, 1 usage or I/O errors.\n"

/-- Why nothing is run. -/
inductive Refusal where
  | usage (error : UsageError)
  | settings (error : Settings.LoadError)
  /-- No script is given and the settings name none. -/
  | noEntry
  | source (error : Source.LoadError)

namespace Refusal

/-- A refusal as it is reported. -/
def text : Refusal → String
  | usage (.unknownFlag flag) => (UsageError.unknownFlag flag).text ++ "\n" ++ Shell.usage
  | usage error => error.text ++ "\n"
  | settings error => "failed to load config: " ++ error.text ++ "\n"
  | noEntry =>
    "lox run requires a script path (no entry in " ++ Settings.fileName ++ ")\n"
  | source error => "failed to load program: " ++ error.text ++ "\n"

end Refusal

/-- What is to be done. -/
inductive Job where
  | refuse (refusal : Refusal)
  | present (text : String)
  | run (settings : Settings) (source : Source)
  | converse (settings : Settings)

/-- Where a command line gets what it needs, in a context `m`. -/
structure Host (m : Type → Type) where
  files : FileView m
  /-- The whole of standard input, or why it cannot be read. -/
  input : m (Except String String)
  inputIsTerminal : Bool

namespace Job

variable {m : Type → Type} [Monad m]

/-- The label of a source that comes from standard input. -/
def inputLabel : String := "<stdin>"

/-- Looks up the settings and goes on with them. -/
def withSettings (host : Host m) (config start : String) (next : Settings → m Job) : m Job := do
  match ← Settings.resolve host.files config start with
  | .error e => return .refuse (.settings e)
  | .ok settings => next settings

/-- The job of running a source that was loaded. -/
def ofLoaded (settings : Settings) : Except Source.LoadError Source → Job
  | .error e => .refuse (.source e)
  | .ok source => .run settings source

/-- The job that a command asks for, with the settings file under the path `config`. -/
def ofCommand (host : Host m) (config : String) : Command → m Job
  | .help => return .present usage
  | .version => return .present (version ++ "\n")
  | .script path =>
    withSettings host config (Path.directory path) fun settings => do
      return ofLoaded settings (← Source.load host.files path)
  | .entry =>
    withSettings host config "." fun settings => do
      if settings.entryPath.isEmpty then return .refuse .noEntry
      else return ofLoaded settings (← Source.load host.files settings.entryPath)
  | .piped =>
    withSettings host config "." fun settings => do
      return ofLoaded settings (Source.ofReading inputLabel (← host.input))
  | .dialogue => withSettings host config "." fun settings => return .converse settings

/-- The job that the arguments of the command line ask for. -/
def ofArguments (host : Host m) (args : List String) : m Job :=
  match Arguments.extract args with
  | .error e => return .refuse (.usage e)
  | .ok arguments =>
    match Command.ofArguments host.inputIsTerminal arguments.rest with
    | .error e => return .refuse (.usage e)
    | .ok command => ofCommand host arguments.config command

end Job

/-! ## Dialogues on the command line -/

/-- The first line of a dialogue. -/
def greeting : String := version ++ " (Ctrl-D to exit)\n"

/-- The file that keeps the history: the one of the settings, or one in the home directory. -/
def historyFile? (settings : Settings) (home : Option String) : Option String :=
  let path := settings.historyPath home
  if path.isEmpty then home.map fun h => Path.join h ".lox_history" else some path

/-- The history in a file; there is none where the file cannot be read. -/
def History.ofReading : Except FileError String → History
  | .ok text => .ofText text
  | .error _ => ⟨[]⟩

end Lox.Shell

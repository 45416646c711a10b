import Lox.Files.Tree
import Lox.Project.Decode

/-!
# Finding and loading settings

The settings of a project are in the nearest `lox.yml` on the way up from where it is started.  A
path given by hand is loaded instead, whatever lies on the way.
-/

namespace Lox.Settings

/-- The name of a settings file. -/
def fileName : String := "lox.yml"

/-- Why settings cannot be loaded. -/
inductive LoadError where
  | emptyPath
  | unreadable (path : String) (error : FileError)
  | undecodable (path : String) (error : DecodeError)
  | invalid (issues : List Issue)

namespace LoadError

/-- The wording of a loading error. -/
def text : LoadError → String
  | emptyPath => "config: empty path"
  | unreadable path error => "config: open " ++ path ++ ": " ++ error.text path
  | undecodable path .empty => "config: " ++ path ++ " is empty"
  | undecodable path error => "config: parse " ++ path ++ ": " ++ error.text
  | invalid issues => issuesText (issues.map Issue.text)

end LoadError

/-- The settings in the text of a file. -/
def ofText (path text : String) : Except LoadError Settings :=
  match Draft.ofText text with
  | .error e => .error (.undecodable path e)
  | .ok draft =>
    match draft.check path with
    | .ok settings => .ok settings
    | .error issues => .error (.invalid issues)

/-- A directory can be opened like a file and is then found not to hold YAML. -/
def unreadable (path : String) : FileError → LoadError
  | .isADirectory =>
    .undecodable path (.malformed ⟨"input error: " ++ FileError.isADirectory.text path, 0, 0⟩)
  | error => .unreadable path error

variable {m : Type → Type} [Monad m]

/-- Loads the settings in a file. -/
def load (files : FileView m) (path : String) : m (Except LoadError Settings) := do
  if path.isEmpty then return .error .emptyPath
  else
    let path := Path.absolute files.here path
    match ← files.read path with
    | .error e => return .error (unreadable path e)
    | .ok text => return ofText path text

/-- The first of some paths that leads to a file. -/
def firstFile (files : FileView m) : List String → m (Option String)
  | [] => return none
  | path :: rest => do
    if (← files.kind? path) = some .file then return some path else firstFile files rest

/-- The nearest settings file on the way up from `start`, or from the directory of `start` if it is
a file. -/
def find (files : FileView m) (start : String) : m (Option String) := do
  let start := Path.absolute files.here start
  let directory := if (← files.kind? start) = some .file then Path.directory start else start
  firstFile files ((Path.ancestors directory).map fun d => Path.join d fileName)

/-- The settings in the file `path`, or if that is empty in the nearest settings file on the way up
from `start`, or else the default settings. -/
def resolve (files : FileView m) (path start : String) : m (Except LoadError Settings) := do
  if !path.isEmpty then load files path
  else
    match ← find files start with
    | some found => load files found
    | none => return .ok default

end Lox.Settings

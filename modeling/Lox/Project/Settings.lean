import Lox.Files.Path
import Lox.Session
import Lox.Text.Blank
import Lox.Text.LowerCase

/-!
# Project settings

What a project can set: its name, the script it starts with, the natives that its scripts may use,
whether values are echoed, the colour of reports, and where the history of inputs is kept.
-/

namespace Lox

/-- When reports are coloured. -/
inductive ColorMode where
  | auto | always | never
  deriving DecidableEq, Repr

namespace ColorMode

/-- The word for a colour mode. -/
def word : ColorMode → String
  | auto => "auto"
  | always => "always"
  | never => "never"

/-- The colour mode for a word. -/
def ofWord? (s : String) : Option ColorMode :=
  [auto, always, never].find? fun m => m.word == s

end ColorMode

/-- The settings of a project. -/
structure Settings where
  /-- The settings file, empty if there is none. -/
  path : String
  name : String
  /-- The script that the project starts with, empty if there is none. -/
  entry : String
  natives : List String
  echo : Bool
  color : ColorMode
  /-- The file that inputs are kept in, empty if none is set. -/
  history : String

namespace Settings

/-- The settings of a project without a settings file. -/
def default : Settings :=
  ⟨"", "", "", Native.builtinNames, false, .auto, ""⟩

/-- The path of the first script; it starts from the directory of the settings file. -/
def entryPath (s : Settings) : String :=
  if s.entry.isEmpty || Path.isAbsolute s.entry || s.path.isEmpty then s.entry
  else Path.join (Path.directory s.path) s.entry

/-- The path of the history, in which a leading tilde stands for the home directory; empty if the
home directory is needed and not known. -/
def historyPath (s : Settings) (home : Option String) : String :=
  match s.history.toList with
  | '~' :: rest =>
    match home with
    | some h => Path.join h (String.ofList rest)
    | none => ""
  | _ => s.history

/-- A new session with the natives of the settings. -/
def session (s : Settings) : Session :=
  Session.start s.natives none

/-! ## Validation -/

/-- Something that the settings of a project must not be. -/
inductive Issue where
  | emptyEntry
  | unknownNative (name : String)
  | invalidColor (word : String)
  deriving DecidableEq, Repr

/-- The wording of an issue. -/
def Issue.text : Issue → String
  | emptyEntry => "entry must be a non-empty path when provided"
  | unknownNative name =>
    "natives: unknown native " ++ Text.Quoted.text name ++ " (known: " ++
      ", ".intercalate Native.builtinNames ++ ")"
  | invalidColor word =>
    "color must be one of auto, always, never (got " ++ Text.Quoted.text word ++ ")"

/-- A list of issues as it is reported. -/
def issuesText (issues : List String) : String :=
  if issues.isEmpty then "config: invalid configuration"
  else "config validation failed:" ++ String.join (issues.map fun i => "\n- " ++ i)

/-- Settings as they are written, before they are checked. -/
structure Draft where
  name : String := ""
  entry : Option String := none
  natives : Option (List String) := none
  echo : Bool := false
  color : String := ""
  history : String := ""

namespace Draft

/-- The entry without blanks at its ends, if one is given. -/
def trimmedEntry (d : Draft) : Option String := d.entry.map Text.trim

/-- The natives that a session gets: those given, without blanks and empty names, or all. -/
def chosenNatives (d : Draft) : List String :=
  match d.natives with
  | none => Native.builtinNames
  | some names => (names.map Text.trim).filter fun n => !n.isEmpty

/-- The word for the colour mode, in lower case; none given is `auto`. -/
def colorWord (d : Draft) : String :=
  let word := Text.trim d.color
  if word.isEmpty then ColorMode.auto.word else Text.lower word

/-- What is wrong with a draft, in the order of the settings. -/
def issues (d : Draft) : List Issue :=
  let entry := if d.trimmedEntry = some "" then [.emptyEntry] else []
  let natives := (d.chosenNatives.filter fun n => !Native.isBuiltin n).map .unknownNative
  let color := if (ColorMode.ofWord? d.colorWord).isNone then [.invalidColor d.colorWord] else []
  entry ++ natives ++ color

/-- The settings that a draft in the file `path` gives, or what is wrong with it. -/
def check (d : Draft) (path : String) : Except (List Issue) Settings :=
  if d.issues.isEmpty then
    .ok { path := path
          name := Text.trim d.name
          entry := d.trimmedEntry.getD ""
          natives := d.chosenNatives
          echo := d.echo
          color := (ColorMode.ofWord? d.colorWord).getD .auto
          history := Text.trim d.history }
  else .error d.issues

end Draft

end Settings

end Lox

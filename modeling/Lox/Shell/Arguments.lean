/-!
# Arguments

What the arguments of the command line ask for.  The flag for the settings file can stand anywhere
and is taken out first, in either of its spellings; the last one counts.  What is left is a command.
-/

namespace Lox.Shell

/-- Arguments that make no command. -/
inductive UsageError where
  | missingConfigPath
  | unexpected (args : List String)
  | unknownFlag (flag : String)
  deriving DecidableEq, Repr

/-- The flag that is followed by the path of the settings file. -/
def configFlag : String := "--config"

/-- The wording of a usage error. -/
def UsageError.text : UsageError → String
  | missingConfigPath => configFlag ++ " requires a path"
  | unexpected args => "unexpected arguments: " ++ " ".intercalate args
  | unknownFlag flag => "unknown flag " ++ flag

/-! ## The flag for the settings file -/

/-- The arguments without the flags for the settings file, and the path that the last of these
gives. -/
structure Arguments where
  config? : Option String
  rest : List String
  deriving DecidableEq, Repr

namespace Arguments

/-- The path in an argument that is flag and path in one. -/
def joined? (arg : String) : Option String :=
  let start := (configFlag ++ "=").toList
  if start.isPrefixOf arg.toList then some (String.ofList (arg.toList.drop start.length)) else none

/-- A path in front of arguments, which counts if none of them gives another. -/
def withConfig (path : String) (a : Arguments) : Arguments :=
  { a with config? := a.config? <|> some path }

/-- A plain argument in front of arguments. -/
def withPlain (arg : String) (a : Arguments) : Arguments :=
  { a with rest := arg :: a.rest }

/-- Takes the flags for the settings file out of the arguments. -/
def extract : List String → Except UsageError Arguments
  | [] => .ok ⟨none, []⟩
  | [arg] =>
    if arg = configFlag then .error .missingConfigPath
    else match joined? arg with
      | some path => if path.isEmpty then .error .missingConfigPath else .ok ⟨some path, []⟩
      | none => .ok ⟨none, [arg]⟩
  | arg :: next :: rest =>
    if arg = configFlag then (extract rest).map (withConfig next)
    else match joined? arg with
      | some path =>
        if path.isEmpty then .error .missingConfigPath
        else (extract (next :: rest)).map (withConfig path)
      | none => (extract (next :: rest)).map (withPlain arg)

/-- The path of the settings file, empty if none is given. -/
def config (a : Arguments) : String := a.config?.getD ""

end Arguments

/-! ## Commands -/

/-- What the command line is asked to do. -/
inductive Command where
  | help
  | version
  /-- Run the script under a path. -/
  | script (path : String)
  /-- Run the script that the settings name. -/
  | entry
  /-- Run what standard input holds. -/
  | piped
  /-- Talk to the user line by line. -/
  | dialogue
  deriving DecidableEq, Repr

namespace Command

/-- Running a script: one path, or none for the script that the settings name. -/
def ofScript : List String → Except UsageError Command
  | [] => .ok .entry
  | [path] => .ok (.script path)
  | _ :: extra => .error (.unexpected extra)

/-- The command that arguments make; without any it depends on where input comes from. -/
def ofArguments (inputIsTerminal : Bool) : List String → Except UsageError Command
  | [] => .ok (if inputIsTerminal then .dialogue else .piped)
  | word :: rest =>
    if ["--help", "-h", "help"].contains word then .ok .help
    else if ["--version", "-V", "version"].contains word then .ok .version
    else if word = "run" then ofScript rest
    else if word = "repl" then
      if rest.isEmpty then .ok .dialogue else .error (.unexpected rest)
    else if word.toList.head? = some '-' then .error (.unknownFlag word)
    else ofScript (word :: rest)

end Command

end Lox.Shell

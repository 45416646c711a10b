import Lox.Shell.Job

/-!
# The program

The command line on a real system: it looks up files, reads standard input, and writes reports.  All
decisions are made by `Job` and `Dialogue`.
-/

namespace Lox.Shell.Live

/-- Why a file cannot be read, from the error that reading it raised. -/
def fileError : IO.Error → FileError
  | .noFileOrDirectory _ _ _ => .notFound
  | .inappropriateType (some _) _ _ => .notADirectory
  | .inappropriateType none _ _ => .isADirectory
  | e => .other (toString e)

/-- The text of a file. -/
def readFile (path : String) : IO (Except FileError String) := do
  try
    let bytes ← IO.FS.readBinFile path
    return .ok (Text.Utf8.decodeText bytes.toList)
  catch e => return .error (fileError e)

/-- What a path leads to. -/
def kindAt (path : String) : IO (Option EntryKind) := do
  match ← readFile path with
  | .ok _ => return some .file
  | .error .isADirectory => return some .directory
  | .error _ => return none

/-- The bytes of a stream up to its end, behind those read before. -/
partial def readBytes (stream : IO.FS.Stream) (before : ByteArray) : IO ByteArray := do
  let chunk ← stream.read 65536
  if chunk.isEmpty then return before else readBytes stream (before ++ chunk)

/-- The text of a stream up to its end. -/
def readStream (stream : IO.FS.Stream) : IO (Except String String) := do
  try
    let bytes ← readBytes stream ByteArray.empty
    return .ok (Text.Utf8.decodeText bytes.toList)
  catch e => return .error (toString e)

/-- The host of the command line. -/
def host : IO (Host IO) := do
  let input ← IO.getStdin
  return {
    files := ⟨(← IO.getEnv "PWD").getD "/", kindAt, readFile⟩
    input := readStream input
    inputIsTerminal := ← input.isTty }

/-- The home directory. -/
def home : IO (Option String) := do
  return (← IO.getEnv "HOME").filter fun h => !h.isEmpty

/-- The answers that the next line of a stream gives. -/
def readAnswers (stream : IO.FS.Stream) : IO (List Answer) := do
  try
    let line ← stream.getLine
    return (Text.Line.cut (Text.Utf8.bytes line)).map fun part => .line part.text
  catch e => return [.failure (toString e)]

/-- Holds a dialogue and gives what it adds to the history, the latest first; `ready` are answers
that have been read before. -/
partial def converse (red : Bool) (d : Dialogue) (ready : List Answer) (entries : List String) :
    IO (List String) := do
  let output ← IO.getStdout
  output.putStr d.prompt
  output.flush
  let answers ← if ready.isEmpty then readAnswers (← IO.getStdin) else pure ready
  let (turn, d) := d.step (answers.head?.getD .ended)
  output.putStr turn.output
  (← IO.getStderr).putStr (turn.errors red)
  let entries := turn.entries.reverse ++ entries
  if turn.intake.isClosed then return entries else converse red d answers.tail entries

/-- Writes a history, where that is possible. -/
def writeHistory (path : String) (h : History) : IO Unit := do
  try IO.FS.writeFile path h.text
  catch _ => return ()

/-- Holds a dialogue between reading and writing the history. -/
def dialogue (settings : Settings) (terminal : Bool) : IO Unit := do
  let file? := historyFile? settings (← home)
  let history ← match file? with
    | some path => pure (History.ofReading (← readFile path))
    | none => pure ⟨[]⟩
  (← IO.getStdout).putStr greeting
  let entries ← converse (settings.color.isRed terminal) (.start settings) [] []
  match file? with
  | some path => writeHistory path (history.addAll entries.reverse)
  | none => return ()

/-- Writes a report and gives the number of its exit code. -/
def deliver (r : Report) : IO UInt32 := do
  (← IO.getStdout).putStr r.output
  (← IO.getStderr).putStr r.errors
  return UInt32.ofNat r.code.number

/-- Does a job. -/
def perform : Job → IO UInt32
  | .refuse refusal => deliver ⟨.refused, "", refusal.text⟩
  | .present text => deliver ⟨.ok, text, ""⟩
  | .run settings source => do
    deliver (runSource settings (← (← IO.getStderr).isTty) source)
  | .converse settings => do
    dialogue settings (← (← IO.getStderr).isTty)
    return UInt32.ofNat ExitCode.ok.number

end Lox.Shell.Live

/-- Runs the command line. -/
def main (args : List String) : IO UInt32 := do
  Lox.Shell.Live.perform (← Lox.Shell.Job.ofArguments (← Lox.Shell.Live.host) args)

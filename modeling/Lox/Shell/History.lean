import Lox.Text.Lines

/-!
# Input history

The inputs of earlier dialogues, the oldest first, as they are kept in a file with one input on a
line.  Only the latest inputs are kept.
-/

namespace Lox.Shell

/-- The inputs that are kept, the oldest first. -/
structure History where
  entries : List String
  deriving DecidableEq, Repr

namespace History

/-- The number of inputs that are kept. -/
def limit : Nat := 1000

/-- The latest inputs of a list. -/
def latest (entries : List String) : List String :=
  entries.drop (entries.length - limit)

/-- The history in the text of a file; it is read up to a line that is too long. -/
def ofText (text : String) : History :=
  let lines := (Text.Line.cut (Text.Utf8.bytes text)).takeWhile Text.Line.whole
  ⟨latest (lines.map Text.Line.text)⟩

/-- Adds an input, unless it is the same as the latest one. -/
def add (h : History) (entry : String) : History :=
  if h.entries.getLast? = some entry then h else ⟨latest (h.entries ++ [entry])⟩

/-- Adds inputs one after the other. -/
def addAll (h : History) (entries : List String) : History :=
  entries.foldl add h

/-- The text that keeps the history in a file. -/
def text (h : History) : String :=
  String.join (h.entries.map (· ++ "\n"))

end History

end Lox.Shell

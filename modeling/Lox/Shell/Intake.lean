import Lox.Source
import Lox.Text.Blank

/-!
# Taking in lines

A dialogue reads line by line and collects lines until they make a source: as long as the text so
far is not blank and more of it is needed, it asks for another line.
-/

namespace Lox.Shell

/-- What a prompt is answered with. -/
inductive Answer where
  | line (text : String)
  /-- The user gives up the input so far. -/
  | abort
  /-- Reading fails. -/
  | failure (message : String)
  /-- There is no more input. -/
  | ended
  deriving DecidableEq, Repr

/-- What comes of an answer. -/
inductive Intake where
  /-- More lines are needed behind this text. -/
  | waiting (pending : String)
  /-- The lines make a source. -/
  | source (text : String)
  /-- The lines so far are given up. -/
  | dropped
  /-- The dialogue is over. -/
  | closed (failure? : Option String)
  deriving DecidableEq, Repr

namespace Intake

/-- A line behind the text so far, which is empty if there is none. -/
def behind (pending line : String) : String :=
  if pending.isEmpty then line else pending ++ "\n" ++ line

/-- A text that is taken as a source: it is blank or no more of it is needed. -/
def isReady (text : String) : Bool :=
  Text.isBlankText text || !Source.isIncomplete text

/-- What comes of an answer after the text so far. -/
def next (pending : String) : Answer → Intake
  | .line text =>
    let text := behind pending text
    if isReady text then .source text else .waiting text
  | .abort => .dropped
  | .failure message => .closed (some message)
  | .ended => if pending.isEmpty then .closed none else .source pending

/-- The text that further lines are put behind. -/
def pending : Intake → String
  | waiting text => text
  | _ => ""

/-- No further answer is wanted. -/
def isClosed : Intake → Bool
  | closed _ => true
  | _ => false

end Intake

end Lox.Shell

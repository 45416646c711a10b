import Lox.Files.Tree
import Lox.Source

/-!
# Loading sources

Sources come from a file or from a stream that is read to its end.  Only reading can fail: a source
with diagnostics is loaded all the same.
-/

namespace Lox.Source

/-- Why a source cannot be loaded: what it is called and what went wrong. -/
structure LoadError where
  label : String
  reason : String
  deriving DecidableEq, Repr

/-- The wording of a loading error. -/
def LoadError.text (e : LoadError) : String :=
  "loader: read " ++ e.label ++ ": " ++ e.reason

/-- The source in what was read, under a label. -/
def ofReading (label : String) : Except String String → Except LoadError Source
  | .ok text => .ok (read label text)
  | .error reason => .error ⟨label, reason⟩

/-- Loads the source in a file. -/
def load {m : Type → Type} [Monad m] (files : FileView m) (path : String) :
    m (Except LoadError Source) := do
  match ← files.read path with
  | .ok text => return ofReading path (.ok text)
  | .error e => return ofReading path (.error (e.text path))

end Lox.Source

import Lox.Grammar.Complaint
import Lox.Value.Fault

/-!
# Kinds of errors

What a host can test an error for: whether it is a fault or a parse error of a certain kind.
-/

namespace Lox

/-- The kind of an error that a host can test for. -/
inductive ErrorKind where
  | fault (kind : Fault.Kind)
  | parse (kind : ParseErrorKind)
  deriving DecidableEq, Repr

namespace ErrorKind

/-- The name of a kind of error. -/
def name : ErrorKind → String
  | fault k => k.name
  | parse k => k.name

/-- An error, if it has a kind at all, is of the kind asked for. -/
def accepts (target : ErrorKind) (error? : Option ErrorKind) : Bool :=
  error? = some target

end ErrorKind

end Lox

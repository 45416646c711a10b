import Lox.Grammar.Program

/-!
# Sources

A source is a text with a label, the program read from it, and the diagnostics that came up.  The
program is usable in any case: what could not be read is left out of it.
-/

namespace Lox

/-- Something wrong with a source. -/
inductive Diagnostic where
  | scan (error : ScanError)
  | parse (error : ParseError)

namespace Diagnostic

/-- A diagnostic as it is reported. -/
def text : Diagnostic → String
  | scan e => e.text
  | parse e => e.text

/-- The input ended where more was required. -/
def isUnexpectedEnd : Diagnostic → Bool
  | scan _ => false
  | parse e => e.kind = .unexpectedEnd

end Diagnostic

/-- A text that has been read as a program. -/
structure Source where
  label : String
  program : Program
  scanErrors : List ScanError
  parseErrors : List ParseError

namespace Source

/-- Reads a text as a program. -/
def read (label text : String) : Source :=
  let scanned := Token.scan text
  let parsed := Token.parse scanned.tokens
  ⟨label, parsed.program, scanned.errors, parsed.errors⟩

/-- The diagnostics of a source, those of scanning first. -/
def diagnostics (s : Source) : List Diagnostic :=
  s.scanErrors.map .scan ++ s.parseErrors.map .parse

/-- The source has a diagnostic. -/
def isFlawed (s : Source) : Bool :=
  !s.diagnostics.isEmpty

/-- All diagnostics, one on a line, each after the label of the source if it has one. -/
def report (s : Source) : String :=
  let labelled (d : Diagnostic) : String :=
    if s.label.isEmpty then d.text else s.label ++ ": " ++ d.text
  "\n".intercalate (s.diagnostics.map labelled)

/-- A text is incomplete if it has diagnostics and all of them say that the input ended too
early. -/
def isIncomplete (text : String) : Bool :=
  let s := read "" text
  s.isFlawed && s.diagnostics.all Diagnostic.isUnexpectedEnd

end Source

end Lox

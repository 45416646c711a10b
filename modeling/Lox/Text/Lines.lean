import Lox.Text.Utf8

/-!
# Lines of a byte stream

Bytes are cut into lines at newlines, through a window of limited size.  A carriage return in front
of a newline belongs to the end of the line.  Where the window holds no newline the bytes in it make
a part of a line, and the next line goes on behind them; a last line needs no newline.
-/

namespace Lox.Text

/-- A line, or a part of one that is too long for the window. -/
structure Line where
  bytes : List UInt8
  whole : Bool
  deriving DecidableEq, Repr

namespace Line

/-- The number of bytes that the window holds. -/
def window : Nat := 4096

/-- The byte that ends a line. -/
def newline : UInt8 := 10

/-- The byte that may stand in front of a newline. -/
def carriageReturn : UInt8 := 13

/-- The bytes without a carriage return at their end. -/
def withoutReturn (bytes : List UInt8) : List UInt8 :=
  if bytes.getLast? = some carriageReturn then bytes.dropLast else bytes

/-- The text of a line. -/
def text (l : Line) : String := Utf8.decodeText l.bytes

/-- The first line of some bytes and what follows it.  A part of a line leaves out a carriage return
at its end, which may be followed by a newline. -/
def first (bytes : List UInt8) : Line × List UInt8 :=
  let shown := bytes.take window
  let line := shown.takeWhile (· != newline)
  if line.length < shown.length then (⟨withoutReturn line, true⟩, bytes.drop (line.length + 1))
  else if shown.length < window then (⟨shown, true⟩, [])
  else
    let part := withoutReturn shown
    (⟨part, false⟩, bytes.drop part.length)

theorem length_withoutReturn (bytes : List UInt8) :
    bytes.length ≤ (withoutReturn bytes).length + 1 := by
  unfold withoutReturn
  split
  · simp only [List.length_dropLast]; omega
  · omega

/-- What follows the first line is shorter than the whole. -/
theorem length_first_lt {bytes : List UInt8} (h : bytes ≠ []) :
    (first bytes).2.length < bytes.length := by
  have pos : 0 < bytes.length := List.length_pos_iff.2 h
  simp only [first]
  split
  · simp only [List.length_drop]; omega
  · split
    · simpa using pos
    · rename_i _ full
      have := length_withoutReturn (bytes.take window)
      simp only [window] at *
      simp only [List.length_drop]
      omega

/-- The lines that bytes hold. -/
def cut (bytes : List UInt8) : List Line :=
  if h : bytes = [] then []
  else
    have := length_first_lt h
    (first bytes).1 :: cut (first bytes).2
termination_by bytes.length

end Line

end Lox.Text

import Lox.Proofs.Grammar.Vocabulary
import Lox.Source

/-!
# Well-formed trees

A tree is well-formed over some lines if its expressions stand on these lines and have no operators
but those of the language.  Whatever is read from a text is well-formed over the lines of its
tokens, also if the text is flawed and also where a `for` is spelled out (`Source.wellFormed_read`).
-/

namespace Lox

mutual

/-- An expression stands on the given lines and has no operators but those of the language. -/
def Expr.WellFormed (lines : Int → Prop) : Expr → Prop
  | .number l _ | .string l _ | .bool l _ | .nil l | .name l _ => lines l
  | .unary l op operand => lines l ∧ op ∈ UnaryOp.known ∧ operand.WellFormed lines
  | .binary l op left right =>
    lines l ∧ op ∈ BinaryOp.known ∧ left.WellFormed lines ∧ right.WellFormed lines
  | .logical l op left right =>
    lines l ∧ op ∈ LogicalOp.known ∧ left.WellFormed lines ∧ right.WellFormed lines
  | .group l inner => lines l ∧ inner.WellFormed lines
  | .assign l _ value => lines l ∧ value.WellFormed lines
  | .call l _ args => lines l ∧ Expr.AllWellFormed lines args

/-- All of these expressions are well-formed. -/
def Expr.AllWellFormed (lines : Int → Prop) : List Expr → Prop
  | [] => True
  | e :: es => e.WellFormed lines ∧ Expr.AllWellFormed lines es

end

mutual

/-- The expressions of a statement are well-formed. -/
def Stmt.WellFormed (lines : Int → Prop) : Stmt → Prop
  | .expression _ value | .print _ value => value.WellFormed lines
  | .declare _ _ initializer => ∀ e ∈ initializer, e.WellFormed lines
  | .function _ _ _ _ body | .block _ body => Stmt.AllWellFormed lines body
  | .ifThen _ test yes => test.WellFormed lines ∧ yes.WellFormed lines
  | .ifElse _ test yes no => test.WellFormed lines ∧ yes.WellFormed lines ∧ no.WellFormed lines
  | .loop _ test body => test.WellFormed lines ∧ body.WellFormed lines
  | .giveBack _ value => ∀ e ∈ value, e.WellFormed lines

/-- All of these statements are well-formed. -/
def Stmt.AllWellFormed (lines : Int → Prop) : List Stmt → Prop
  | [] => True
  | s :: ss => s.WellFormed lines ∧ Stmt.AllWellFormed lines ss

end

variable {lines : Int → Prop}

theorem Expr.WellFormed.lines_line {e : Expr} (h : e.WellFormed lines) : lines e.line := by
  cases e with
  | number | string | bool | nil | name => exact h
  | unary | binary | logical | group | assign | call => exact h.1

/-! ## Trees over a vocabulary -/

section Vocabulary

variable {v : Vocabulary}

mutual

/-- A tree made of given lines is well-formed over them. -/
theorem Expr.Over.wellFormed : {e : Expr} → e.Over v → e.WellFormed v.line
  | .number .., h | .name .., h => h.1
  | .string .., h | .bool .., h | .nil .., h => h
  | .unary .., ⟨hline, hop, h⟩ => ⟨hline, hop, h.wellFormed⟩
  | .binary .., ⟨hline, hop, hleft, hright⟩ | .logical .., ⟨hline, hop, hleft, hright⟩ =>
    ⟨hline, hop, hleft.wellFormed, hright.wellFormed⟩
  | .group .., ⟨hline, h⟩ => ⟨hline, h.wellFormed⟩
  | .assign .., ⟨hline, _, h⟩ => ⟨hline, h.wellFormed⟩
  | .call .., ⟨hline, _, h⟩ => ⟨hline, Expr.allWellFormed_of_allOver h⟩

theorem Expr.allWellFormed_of_allOver : {es : List Expr} → Expr.AllOver v es →
    Expr.AllWellFormed v.line es
  | [], _ => trivial
  | _ :: _, ⟨h, hs⟩ => ⟨h.wellFormed, Expr.allWellFormed_of_allOver hs⟩

end

mutual

theorem Stmt.Over.wellFormed : {s : Stmt} → s.Over v → s.WellFormed v.line
  | .expression .., ⟨_, h⟩ | .print .., ⟨_, h⟩ => h.wellFormed
  | .declare .., ⟨_, _, h⟩ => fun e he => (h e he).wellFormed
  | .giveBack .., ⟨_, h⟩ => fun e he => (h e he).wellFormed
  | .function .., ⟨_, _, _, _, h⟩ => Stmt.allWellFormed_of_allOver h
  | .block .., ⟨_, h⟩ => Stmt.allWellFormed_of_allOver h
  | .ifThen .., ⟨_, htest, hyes⟩ => ⟨htest.wellFormed, hyes.wellFormed⟩
  | .ifElse .., ⟨_, htest, hyes, hno⟩ => ⟨htest.wellFormed, hyes.wellFormed, hno.wellFormed⟩
  | .loop .., ⟨_, htest, hbody⟩ => ⟨htest.wellFormed, hbody.wellFormed⟩

theorem Stmt.allWellFormed_of_allOver : {ss : List Stmt} → Stmt.AllOver v ss →
    Stmt.AllWellFormed v.line ss
  | [], _ => trivial
  | _ :: _, ⟨h, hs⟩ => ⟨h.wellFormed, Stmt.allWellFormed_of_allOver hs⟩

end

end Vocabulary

/-! ## Sources -/

/-- Every statement that is read from tokens is well-formed over their lines. -/
theorem Grammar.wellFormed_statements (ts : List Token) (h : ∀ t ∈ ts, lines t.line) :
    ∀ s ∈ (statements ts).1, s.WellFormed lines := by
  intro s hs
  let v : Vocabulary := ⟨lines, fun _ => True, fun _ => True⟩
  have hover : s.Over v := over_statements ts
    (fun t ht => ⟨h t ht, fun _ => trivial, fun _ => trivial, fun _ => trivial⟩) s hs
  exact hover.wellFormed

/-- The line is that of a token of the text. -/
def Source.HasLine (text : String) (line : Int) : Prop :=
  ∃ t ∈ (Token.scan text).tokens, t.line = line

/-- Every statement of a source is well-formed over the lines of its tokens. -/
theorem Source.wellFormed_read (label text : String)
    (h : ∀ line, Source.HasLine text line → lines line) :
    ∀ s ∈ (Source.read label text).program.body, s.WellFormed lines :=
  Grammar.wellFormed_statements _ fun t ht =>
    h t.line ⟨t, (List.takeWhile_prefix _).mem ht, rfl⟩

end Lox

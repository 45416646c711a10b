import Lox.Proofs.Grammar.Acceptance
import Lox.Proofs.Grammar.Locality
import Lox.Proofs.Token.Lines
import Lox.Source

/-!
# What is read from a source

A source is read from its tokens, and where it stands does not matter: its bare tokens are read as
its program without lines.  If it has no diagnostics, they are declarations.
-/

namespace Lox

open Token (bareTokens innerTokens StringsClosed)

namespace Source

variable {label text : String}

/-- A source is read from its tokens; the token for its end serves errors only. -/
theorem read_eq (label text : String) :
    (read label text).program.body = (Grammar.statements (innerTokens text.toList)).1 ∧
    (read label text).parseErrors =
      (Grammar.statements (innerTokens text.toList)).2.map
        (·.toError (Token.endOf text.toList)) := by
  have hinner : Token.NoEnd (innerTokens text.toList) := Token.kind_innerTokens text.toList
  have hparse := hinner.parse_append (rfl : (Token.endOf text.toList).kind = .endOfInput)
  rwa [← Token.scan_tokens] at hparse

/-- The bare tokens of a source are read as its program without lines. -/
theorem statements_bareTokens (label text : String) :
    Grammar.statements (bareTokens text.toList) =
      (Stmt.bares (read label text).program.body,
        (Grammar.statements (innerTokens text.toList)).2.map (Complaint.renumber fun _ => 0)) := by
  have hbare := Grammar.statements_renumber (fun _ => 0) (innerTokens text.toList)
  rw [← Token.bare_innerTokens, (read_eq label text).1, Stmt.bares, Stmt.renumberAll_eq_map]
  exact hbare

theorem isFlawed_eq_false_iff {s : Source} :
    s.isFlawed = false ↔ s.scanErrors = [] ∧ s.parseErrors = [] := by
  rw [isFlawed, Bool.not_eq_false', List.isEmpty_iff, diagnostics, List.append_eq_nil_iff,
    List.map_eq_nil_iff, List.map_eq_nil_iff]

theorem stringsClosed_of_not_isFlawed (h : (read label text).isFlawed = false) :
    StringsClosed text.toList :=
  fun _ hp => Token.not_flawed_of_errors (isFlawed_eq_false_iff.mp h).1 hp _

/-- The bare tokens of a source without diagnostics are declarations. -/
theorem declarations_of_not_isFlawed (h : (read label text).isFlawed = false) :
    Phrase.Declarations (bareTokens text.toList)
      (Stmt.bares (read label text).program.body) := by
  obtain ⟨-, hparse⟩ := isFlawed_eq_false_iff.mp h
  rw [(read_eq label text).2, List.map_eq_nil_iff] at hparse
  rw [Grammar.declarations_iff_statements, statements_bareTokens label, hparse]
  rfl

/-- A text that needs more lines has diagnostics. -/
theorem isFlawed_of_isIncomplete (label : String) (h : isIncomplete text = true) :
    (read label text).isFlawed = true :=
  (Bool.and_eq_true_iff.mp h).1

end Source

end Lox

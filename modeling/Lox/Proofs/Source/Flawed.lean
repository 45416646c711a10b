import Lox.Proofs.Grammar.Passage
import Lox.Proofs.Source.Reading
import Lox.Proofs.Token.Flaw

/-!
# Programs of flawed sources

What scanning does not accept is left out of the tokens, and reading goes on as if blanks stood
there.  So a scan error inside a statement does not keep the statement from being read: it is left
out only if the tokens around the error do not make a statement (`read_flawed`).
-/

namespace Lox.Source

open Grammar (Crosses Passage)
open Token (blankFlaws endOf innerTokens scan)

/-- The passages of the tokens of a text. -/
def passages (text : String) : List Passage := Grammar.passages (innerTokens text.toList)

/-- No statement has tokens on both sides of a scan error. -/
def OmitsFlawed (text : String) : Prop :=
  ∀ e ∈ (scan text).errors, ∀ p ∈ passages text, ¬p.Straddles fun t => t.offset < e.offset

instance (text : String) : Decidable (OmitsFlawed text) :=
  inferInstanceAs (Decidable (∀ e ∈ (scan text).errors, ∀ p ∈ passages text,
    ¬p.Straddles fun t => t.offset < e.offset))

/-- A statement with a character in it that is not accepted need not be left out. -/
theorem not_omitsFlawed_print : ¬OmitsFlawed "print 1 @;" := by decide +kernel

/-- Where no declaration is read across the error, all statements are on one side of it. -/
example : OmitsFlawed "var x = @;\nprint (1;\nprint 2;" := by decide +kernel

/-- A scan error at the end of `front`, where `behind` are the tokens behind it. -/
structure ErrorBehind (text : String) (e : ScanError) (front : String) (behind : List Token) :
    Prop where
  isPrefix : front.toList <+: text.toList
  offset_eq : e.offset = front.length
  tokens_eq : innerTokens text.toList = innerTokens front.toList ++ behind
  offset_lt : ∀ t ∈ innerTokens front.toList, t.offset < e.offset
  lt_offset : ∀ t ∈ behind, e.offset < t.offset

theorem exists_errorBehind {text : String} {e : ScanError} (he : e ∈ (scan text).errors) :
    ∃ front behind, ErrorBehind text e front behind := by
  obtain ⟨front, rest, ts, ts', es, htext, hoffset, htokens, hfront, hbehind, hscans⟩ :=
    (Token.scans_scanBehind [] text.toList).split he
  obtain rfl : innerTokens front = ts := by
    have hscan := congrArg Token.Scan.tokens hscans.eq_scanBehind
    exact (List.append_inj' hscan rfl).1
  have hsplit : innerTokens text.toList ++ [endOf text.toList] = innerTokens front ++ ts' := htokens
  -- The token for the end of the text is none of those in front of the error.
  obtain ⟨behind, rfl⟩ : ∃ behind, ts' = behind ++ [endOf text.toList] := by
    obtain ⟨more, hmore, hend⟩ | ⟨behind, -, hts'⟩ := List.append_eq_append_iff.mp hsplit
    · cases more with
      | nil => exact ⟨[], hend.symm⟩
      | cons t more =>
        obtain ⟨rfl, -⟩ := List.cons.inj hend
        have hmem : endOf text.toList ∈ innerTokens front := by simp [hmore]
        exact absurd rfl (Token.kind_innerTokens front _ hmem)
    · exact ⟨behind, hts'⟩
  rw [← List.append_assoc] at hsplit
  refine ⟨String.ofList front, behind, ?_, ?_, ?_, ?_, fun t ht => ?_⟩
  · rw [String.toList_ofList, htext]
    exact List.prefix_append front rest
  · rw [hoffset, ← String.length_toList, String.toList_ofList]
    rfl
  · rw [String.toList_ofList]
    exact (List.append_inj' hsplit rfl).1
  · rw [String.toList_ofList]
    exact hfront
  · exact hbehind t (List.mem_append_left _ ht)

namespace ErrorBehind

variable {text front : String} {e : ScanError} {behind : List Token}

/-- A statement straddles a scan error exactly if the tokens behind it finish a declaration that is
begun in front of it. -/
theorem straddles_iff (h : ErrorBehind text e front behind) :
    (∃ p ∈ passages text, p.Straddles fun t => t.offset < e.offset) ↔
      Crosses (innerTokens front.toList) behind := by
  have hbehind : ∀ t ∈ behind, ¬t.offset < e.offset :=
    fun t ht => Int.not_lt.mpr (Int.le_of_lt (h.lt_offset t ht))
  rw [passages, h.tokens_eq]
  exact (Grammar.crosses_iff h.offset_lt hbehind).symm

end ErrorBehind

/-- Tokens that begin a statement which others finish end too early on their own, or an `else`
follows. -/
theorem ends_early_of_crosses (label : String) {front : String} {behind : List Token}
    (h : Crosses (innerTokens front.toList) behind) :
    (∃ d ∈ (read label front).parseErrors, d.kind = .unexpectedEnd) ∨
      startsWith .elseWord behind = true := by
  refine (Grammar.ends_early_of_crosses h).imp_left ?_
  rintro ⟨c, hc, htoken⟩
  have hshape : c.objection.isAboutShape = false := by
    refine Bool.eq_false_iff.mpr fun hshape => ?_
    have hsome := Grammar.isSome_token_of_mem _ c hc hshape
    rw [htoken] at hsome
    exact Bool.noConfusion hsome
  refine ⟨_, ?_, Complaint.kind_toError htoken hshape (rfl : (endOf front.toList).kind = _)⟩
  rw [(read_eq label front).2]
  exact List.mem_map.mpr ⟨c, hc, rfl⟩

/-- A source is read as if blanks stood in the place of its flaws.  So a statement has tokens on
both sides of a scan error exactly if those behind it finish what those in front of it begin, and
then the text in front of the error ends too early on its own, or an `else` follows. -/
theorem read_flawed (label text : String) :
    read label (blankFlaws text) = { read label text with scanErrors := [] } ∧
    (read label text).program.body = (passages text).filterMap Passage.statement? ∧
    ∀ e ∈ (read label text).scanErrors, ∃ front behind, ErrorBehind text e front behind ∧
      ((∃ p ∈ passages text, p.Straddles fun t => t.offset < e.offset) ↔
        Crosses (innerTokens front.toList) behind) ∧
      (Crosses (innerTokens front.toList) behind →
        (∃ d ∈ (read label front).parseErrors, d.kind = .unexpectedEnd) ∨
          startsWith .elseWord behind = true) := by
  refine ⟨?_, ?_, fun e he => ?_⟩
  · rw [read, Token.scan_blankFlaws]
    rfl
  · rw [(read_eq label text).1, Grammar.statements_eq_passages]
    rfl
  · obtain ⟨front, behind, h⟩ := exists_errorBehind he
    exact ⟨front, behind, h, h.straddles_iff, ends_early_of_crosses label⟩

end Lox.Source

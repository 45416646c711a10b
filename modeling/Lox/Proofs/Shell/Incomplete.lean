import Lox.Proofs.Grammar.Unfinished
import Lox.Proofs.Shell.Script
import Lox.Proofs.Token.Concatenation

/-!
# Incomplete sources

A dialogue asks for another line exactly if the source so far is incomplete.  It is right to do so.
A source that can be continued to one without diagnostics is incomplete or has none itself
(`Source.isIncomplete_of_continued`), and an incomplete source can be continued to one that has no
diagnostics, or only the one about a target of an assignment that cannot be helped
(`Source.exists_completion`).

What the grammar says about tokens carries over to texts because a line end cuts no token in two:
the tokens in front of it are the same, with their places, whatever stands behind it.
-/

namespace Lox

open Token (bareTokens innerTokens pieces Piece StringsClosed)

namespace Token

/-! ## Tokens of given kinds -/

/-- A text with a token of each of some kinds, one on a line. -/
def spelling (kinds : List Kind) : String := Shell.textOf (kinds.map Kind.name)

theorem kind_bareTokens_name :
    ∀ k ∈ Kind.closing, (bareTokens k.name.toList).map Token.kind = [k] := by
  decide +kernel

theorem unflawed_name : ∀ k ∈ Kind.closing, Unflawed k.name.toList := by
  have hscan : ∀ k ∈ Kind.closing, (scan k.name).errors.isEmpty = true := by decide +kernel
  exact fun k hk => (errors_eq_nil_iff k.name).mp (List.isEmpty_iff.mp (hscan k hk))

theorem unflawed_nil : Unflawed [] := by
  rw [Unflawed, pieces]
  exact fun p hp => absurd hp List.not_mem_nil

/-- The spelling of closing kinds has tokens of these kinds and nothing else. -/
theorem spelling_closing {kinds : List Kind} (h : kinds ⊆ Kind.closing) :
    Unflawed (spelling kinds).toList ∧
      (bareTokens (spelling kinds).toList).map Token.kind = kinds := by
  induction kinds with
  | nil =>
    refine ⟨unflawed_nil, ?_⟩
    rw [spelling, List.map_nil, Shell.bareTokens_textOf_nil, List.map_nil]
  | cons k kinds ih =>
    obtain ⟨hk, hkinds⟩ := List.cons_subset.mp h
    obtain ⟨hunflawed, hmap⟩ := ih hkinds
    have hname := unflawed_name k hk
    constructor
    · cases kinds with
      | nil => exact hname
      | cons k' kinds =>
        rw [spelling, List.map_cons, List.map_cons, Shell.toList_textOf_cons_cons]
        exact (unflawed_newline _ hname.stringsClosed).mpr ⟨hname, hunflawed⟩
    · rw [spelling, List.map_cons, Shell.bareTokens_textOf_cons hname.stringsClosed,
        List.map_append, kind_bareTokens_name k hk]
      exact congrArg (k :: ·) hmap

end Token

namespace Source

/-! ## Continuing a source -/

/-- What is read from a source and a line end with more text behind. -/
theorem exists_statements_newline (label src rest : String)
    (hsrc : StringsClosed src.toList) :
    ∃ moved, moved.map Token.bare = bareTokens rest.toList ∧
      ∃ stop, stop.kind = .endOfInput ∧
      (read label (src ++ "\n" ++ rest)).parseErrors =
        (Grammar.statements (innerTokens src.toList ++ moved)).2.map (·.toError stop) := by
  refine ⟨(innerTokens rest.toList).map
      (Token.moved (src.toList.length + 1) (src.toList.count '\n' + 1)), ?_,
    Token.endOf (src ++ "\n" ++ rest).toList, rfl, ?_⟩
  · rw [List.map_map, ← Token.bare_innerTokens]
    rfl
  · rw [(read_eq label _).2, Token.toList_newline, Token.innerTokens_newline _ _ hsrc]

theorem all_isUnexpectedEnd (s : Source) :
    s.diagnostics.all Diagnostic.isUnexpectedEnd = true ↔
      s.scanErrors = [] ∧ ∀ e ∈ s.parseErrors, e.kind = .unexpectedEnd := by
  rw [diagnostics, List.all_append, Bool.and_eq_true, List.all_map, List.all_map]
  refine and_congr ?_ ?_
  · cases s.scanErrors with
    | nil => exact iff_of_true rfl rfl
    | cons e es => exact iff_of_false Bool.false_ne_true (List.cons_ne_nil e es)
  · rw [List.all_eq_true]
    exact forall₂_congr fun e _ => decide_eq_true_iff

/-- The errors of an incomplete text, one at least, all say that the input ended too early. -/
theorem isIncomplete_iff (label : String) {text : String} :
    isIncomplete text = true ↔ (read label text).scanErrors = [] ∧
      (read label text).parseErrors ≠ [] ∧
      ∀ e ∈ (read label text).parseErrors, e.kind = .unexpectedEnd := by
  have hflawed : (read label text).isFlawed = true ↔
      ¬((read label text).scanErrors = [] ∧ (read label text).parseErrors = []) := by
    rw [← isFlawed_eq_false_iff, Bool.not_eq_false]
  have hincomplete : isIncomplete text = true ↔ (read label text).isFlawed = true ∧
      (read label text).diagnostics.all Diagnostic.isUnexpectedEnd = true := Bool.and_eq_true_iff
  rw [hincomplete, hflawed, all_isUnexpectedEnd]
  exact ⟨fun ⟨hne, hscan, hend⟩ => ⟨hscan, fun hparse => hne ⟨hscan, hparse⟩, hend⟩,
    fun ⟨hscan, hparse, hend⟩ => ⟨fun h => hparse h.2, hscan, hend⟩⟩

/-- A text that can be continued to one without diagnostics has none itself or is incomplete: its
only diagnostic says that the input ended too early. -/
theorem isIncomplete_of_continued (label src rest : String)
    (hscan : (read label src).scanErrors = [])
    (hwhole : (read label (src ++ "\n" ++ rest)).isFlawed = false) :
    (read label src).isFlawed = false ∨
      isIncomplete src = true ∧
        ∃ e, (read label src).parseErrors = [e] ∧ e.kind = .unexpectedEnd := by
  have hclosed := ((Token.errors_eq_nil_iff src).mp hscan).stringsClosed
  obtain ⟨moved, -, stop, -, herrors⟩ := exists_statements_newline label src rest hclosed
  have hread := (read_eq label src).2
  obtain ⟨-, hparse⟩ := isFlawed_eq_false_iff.mp hwhole
  rw [herrors, List.map_eq_nil_iff] at hparse
  obtain hnone | ⟨c, hc, htoken, hshape⟩ := Grammar.statements_of_append _ hparse
  · refine .inl (isFlawed_eq_false_iff.mpr ⟨hscan, ?_⟩)
    rw [hread, hnone, List.map_nil]
  · have hkind : (c.toError (Token.endOf src.toList)).kind = .unexpectedEnd :=
      Complaint.kind_toError htoken hshape rfl
    rw [hc, List.map_singleton] at hread
    refine .inr ⟨(isIncomplete_iff label).mpr ⟨hscan, ?_, ?_⟩, _, hread, hkind⟩
    · rw [hread]
      exact List.cons_ne_nil _ _
    · rw [hread]
      exact List.forall_mem_singleton.mpr hkind

/-- The body of a function may stand on the next line. -/
theorem isIncomplete_of_continued_function :
    let src := "fun f(a) \x7b"
    let rest := "return a; \x7d"
    (read "" src).scanErrors = [] ∧ (read "" (src ++ "\n" ++ rest)).isFlawed = false ∧
    ((read "" src).isFlawed = false ∨
      isIncomplete src = true ∧
        ∃ e, (read "" src).parseErrors = [e] ∧ e.kind = .unexpectedEnd) := by
  intro src rest
  have hscan : (read "" src).scanErrors = [] :=
    List.isEmpty_iff.mp (by decide +kernel)
  have hwhole : (read "" (src ++ "\n" ++ rest)).isFlawed = false := by decide +kernel
  exact ⟨hscan, hwhole, isIncomplete_of_continued "" src rest hscan hwhole⟩

/-- The tokens of an incomplete text give rise to complaints about their end only. -/
theorem statements_of_isIncomplete {src : String} (h : isIncomplete src = true) :
    (Grammar.statements (innerTokens src.toList)).2 ≠ [] ∧
      ∀ c ∈ (Grammar.statements (innerTokens src.toList)).2, c.token? = none := by
  obtain ⟨-, hne, hend⟩ := (isIncomplete_iff "").mp h
  rw [(read_eq "" src).2] at hne hend
  refine ⟨fun hnone => hne (by rw [hnone]; rfl), fun c hc => ?_⟩
  have hkind := hend _ (List.mem_map_of_mem hc)
  cases htoken : c.token? with
  | none => rfl
  | some t =>
    -- An error is about the end only if its token is the end, and no inner token is.
    have hinner := Token.kind_innerTokens src.toList t (Grammar.mem_of_token _ hc htoken)
    rw [ParseError.kind, Complaint.toError, htoken, Option.getD_some, if_neg hinner] at hkind
    split at hkind
    · exact absurd hkind (by decide)
    · split at hkind
      all_goals exact absurd hkind (by decide)

/-- An incomplete text can be continued to one without diagnostics, unless one of its assignments
has something else than a name for its target, and then this is the only diagnostic. -/
theorem exists_completion (label src : String) (h : isIncomplete src = true) :
    ∃ rest, (read label (src ++ "\n" ++ rest)).scanErrors = [] ∧
      ((read label (src ++ "\n" ++ rest)).parseErrors = [] ∨
        ∃ e, (read label (src ++ "\n" ++ rest)).parseErrors = [e] ∧ e.kind = .invalidShape ∧
          e.objection = .invalidTarget ∧ e.token.kind = .equal ∧
          e.token ∈ (Token.scan src).tokens) := by
  obtain ⟨hscan, -, -⟩ := (isIncomplete_iff label).mp h
  have hsrc := (Token.errors_eq_nil_iff src).mp hscan
  obtain ⟨hne, htoken⟩ := statements_of_isIncomplete h
  obtain ⟨kinds, hkinds, hread⟩ := Grammar.statements_completes _ hne htoken
  obtain ⟨hrest, hmap⟩ := Token.spelling_closing hkinds
  obtain ⟨moved, hbare, stop, -, herrors⟩ :=
    exists_statements_newline label src (Token.spelling kinds) hsrc.stringsClosed
  have hmoved : moved.map Token.kind = kinds := by
    rw [← hbare, List.map_map] at hmap
    exact hmap
  refine ⟨Token.spelling kinds, ?_, ?_⟩
  · refine (Token.errors_eq_nil_iff _).mpr ?_
    rw [Token.toList_newline]
    exact (Token.unflawed_newline _ hsrc.stringsClosed).mpr ⟨hsrc, hrest⟩
  · rw [herrors]
    refine (hread moved hmoved).imp (fun hnone => by rw [hnone, List.map_nil]) ?_
    rintro ⟨t, ht, hequal, hone⟩
    refine ⟨⟨.invalidTarget, t⟩, by rw [hone]; rfl, rfl, rfl, hequal, ?_⟩
    rw [Token.scan_tokens]
    exact List.mem_append_left _ ht

/-- An assignment to a group that is still open in a call can only be ended with its error. -/
theorem exists_completion_invalidTarget :
    let src := "\x7b (a) = f(1,"
    isIncomplete src = true ∧
    ∃ rest, (read "" (src ++ "\n" ++ rest)).scanErrors = [] ∧
      ((read "" (src ++ "\n" ++ rest)).parseErrors = [] ∨
        ∃ e, (read "" (src ++ "\n" ++ rest)).parseErrors = [e] ∧ e.kind = .invalidShape ∧
          e.objection = .invalidTarget ∧ e.token.kind = .equal ∧
          e.token ∈ (Token.scan src).tokens) := by
  intro src
  have hincomplete : isIncomplete src = true := by decide +kernel
  exact ⟨hincomplete, exists_completion "" src hincomplete⟩

end Source

end Lox

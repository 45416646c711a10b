import Lox.Grammar.Program
import Lox.Proofs.Grammar.Completeness
import Lox.Proofs.Grammar.Soundness
import Lox.Proofs.Lines.Tree

/-!
# Programs and the grammar

A list of tokens is read without complaints exactly if it is a sequence of declarations, and then
their trees are the program (`declarations_iff_statements`).  In front of further tokens such a
sequence contributes its trees and nothing else (`statements_append`).
-/

namespace Lox

open Reading

namespace Grammar

/-! ## One step through a program -/

theorem statements_made {w rest : List Token} {s : Stmt} (hw : w ≠ [])
    (h : declaration (w ++ rest) = made s w.length) :
    statements (w ++ rest) = (s :: (statements rest).1, (statements rest).2) := by
  obtain ⟨t, v, rfl⟩ := List.exists_cons_of_ne_nil hw
  have hdrop : (v ++ rest).drop ((t :: v).length - 1) = rest := by simp
  rw [List.cons_append] at h ⊢
  rw [statements]
  simp only [h, hdrop]

/-- Declarations in front of tokens that cannot go on with them. -/
theorem statements_append {w : List Token} {body : List Stmt} (h : Phrase.Declarations w body)
    (rest : List Token) (helse : startsWith .elseWord rest = false) :
    statements (w ++ rest) = (body ++ (statements rest).1, (statements rest).2) := by
  induction body generalizing w with
  | nil =>
    cases h
    rfl
  | cons s ss ih =>
    cases h with
    | @cons o v w _ _ hfirst hrest =>
      -- The declarations that follow begin with no `else`, so the first one is read whole.
      have hf := hfirst.read (w ++ rest) fun _ => hrest.startsWith_else helse
      rw [List.append_assoc, statements_made hfirst.ne_nil hf, ih hrest]
      rfl

/-- What is read without complaints is declarations. -/
theorem declarations_of_statements (ts : List Token) (h : (statements ts).2 = []) :
    Phrase.Declarations ts (statements ts).1 := by
  fun_induction statements ts with
  | case1 => exact .nil
  | case2 t rest s taken hmade ss cs hss ih =>
    have hfits := declaration_fits (t :: rest)
    rw [hmade] at hfits
    obtain ⟨w, rest', hts, rfl, o, hs, _⟩ := hfits
    obtain ⟨u, v, rfl⟩ := List.exists_cons_of_ne_nil hs.ne_nil
    rw [List.cons_append] at hts
    obtain ⟨rfl, rfl⟩ := List.cons.inj hts
    have hdrop : (v ++ rest').drop ((t :: v).length - 1) = rest' := by simp
    rw [hdrop] at hss ih
    rw [hss] at ih
    exact .cons hs (ih h)
  | case3 t rest c passed hstuck skipped ss cs hss ih => exact absurd h (List.cons_ne_nil _ _)

/-- A list of tokens is a sequence of declarations exactly if it is read without complaints, and
their trees are what is read. -/
theorem declarations_iff_statements {ts : List Token} {body : List Stmt} :
    Phrase.Declarations ts body ↔ statements ts = (body, []) := by
  constructor
  · intro h
    have hread := statements_append h [] rfl
    rwa [List.append_nil, statements, List.append_nil] at hread
  · intro h
    have hdecl := declarations_of_statements ts (by rw [h])
    rwa [h] at hdecl

end Grammar

/-! ## The end of the input -/

namespace Token

variable {ts : List Token} {stop : Token}

/-- A list of tokens none of which ends the input. -/
def NoEnd (ts : List Token) : Prop :=
  ∀ t ∈ ts, t.kind ≠ .endOfInput

instance (ts : List Token) : Decidable (NoEnd ts) :=
  inferInstanceAs (Decidable (∀ t ∈ ts, t.kind ≠ .endOfInput))

theorem NoEnd.beforeEnd_append (hts : NoEnd ts) (hstop : stop.kind = .endOfInput) :
    beforeEnd (ts ++ [stop]) = ts := by
  have hall : ∀ t ∈ ts, (t.kind != .endOfInput) = true := fun t ht => by simpa using hts t ht
  rw [beforeEnd, List.takeWhile_append_of_pos hall, List.takeWhile_cons_of_neg (by simp [hstop]),
    List.append_nil]

theorem NoEnd.endToken_append (hts : NoEnd ts) (hstop : stop.kind = .endOfInput) :
    endToken (ts ++ [stop]) = stop := by
  have hnone : ts.find? (fun t => t.kind == .endOfInput) = none :=
    List.find?_eq_none.mpr fun t ht => by simpa using hts t ht
  have hfind : (ts ++ [stop]).find? (fun t => t.kind == .endOfInput) = some stop := by
    rw [List.find?_append, hnone, Option.none_or, List.find?_cons_of_pos (by simp [hstop])]
  rw [endToken, hfind]

/-- A program is read from the tokens in front of the end. -/
theorem NoEnd.parse_append (hts : NoEnd ts) (hstop : stop.kind = .endOfInput) :
    (parse (ts ++ [stop])).program.body = (Grammar.statements ts).1 ∧
    (parse (ts ++ [stop])).errors = (Grammar.statements ts).2.map (·.toError stop) := by
  rw [parse, hts.beforeEnd_append hstop, hts.endToken_append hstop]
  exact ⟨rfl, rfl⟩

end Token

/-! ## Acceptance -/

/-- Tokens in front of the end of the input are read as a program without errors exactly if the
grammar derives them, and then the program is the one that the grammar derives, lines apart. -/
theorem Token.parse_accepts_iff (ts : List Token) (stop : Token) (p : Program)
    (hts : Token.NoEnd ts) (hstop : stop.kind = .endOfInput) :
    ((Token.parse (ts ++ [stop])).errors = [] ∧
      (Token.parse (ts ++ [stop])).program.bare = p.bare) ↔
    ∃ body, Phrase.Declarations ts body ∧ Stmt.bares body = Stmt.bares p.body := by
  obtain ⟨hbody, herrors⟩ := hts.parse_append hstop
  rw [herrors, List.map_eq_nil_iff, Program.bare, Program.renumber, Program.renumber,
    Program.mk.injEq, hbody]
  constructor
  · rintro ⟨hclean, -, hbare⟩
    exact ⟨_, Grammar.declarations_of_statements ts hclean, hbare⟩
  · rintro ⟨body, hdecl, hbare⟩
    rw [Grammar.declarations_iff_statements.mp hdecl]
    exact ⟨rfl, rfl, hbare⟩

/-- In `if (a) if (b) c; else d = a or b and c == d < a - b - c * d;` the `else` belongs to the
second `if`, and each of the six levels of operators takes the tighter ones as its operands. -/
theorem Token.parse_accepts_danglingElse :
    let t (k : Token.Kind) (x : String) : Token := ⟨k, x, none, 0, 1⟩
    let n (x : String) : Token := t .identifier x
    let ts := [t .ifWord "if", t .leftParen "(", n "a", t .rightParen ")",
      t .ifWord "if", t .leftParen "(", n "b", t .rightParen ")", n "c", t .semicolon ";",
      t .elseWord "else", n "d", t .equal "=", n "a", t .orWord "or", n "b", t .andWord "and",
      n "c", t .equalEqual "==", n "d", t .less "<", n "a", t .minus "-", n "b", t .minus "-",
      n "c", t .star "*", n "d", t .semicolon ";"]
    let stop := t .endOfInput ""
    let x (a : String) : Expr := .name 0 a
    let difference : Expr := .binary 0 (.arithmetic .subtract)
      (.binary 0 (.arithmetic .subtract) (x "a") (x "b"))
      (.binary 0 (.arithmetic .multiply) (x "c") (x "d"))
    let value : Expr := .logical 0 .or (x "a") (.logical 0 .and (x "b")
      (.binary 0 .equal (x "c") (.binary 0 (.order .less) (x "d") difference)))
    Token.NoEnd ts ∧ stop.kind = .endOfInput ∧
    (Token.parse (ts ++ [stop])).errors = [] ∧
    (Token.parse (ts ++ [stop])).program.bare =
      ⟨0, [.ifThen 0 (x "a") (.ifElse 0 (x "b") (.expression 0 (x "c"))
        (.expression 0 (.assign 0 "d" value)))]⟩ := by
  intro t n ts stop x difference value
  have htext (a : String) : Phrase.TextOf (n a) a := .lexeme nofun
  have hunary (a : String) : Phrase.Unary [n a] (.name 1 a) :=
    .call (.primary (.name rfl (htext a)))
  have hcondition (a : String) :
      Phrase.Condition [t .leftParen "(", n a, t .rightParen ")"] (.name 1 a) :=
    .mk rfl (.of_unary (hunary a)) rfl
  have hyes : Phrase.Statement false [n "c", t .semicolon ";"] (.expression 1 (.name 1 "c")) :=
    .expression (.mk (.of_unary (hunary "c")) rfl)
  -- From the inside out: each level is an operand of the one before it.
  have hname (a : String) := Phrase.Operation.of_unary (hunary a)
  have hproduct := @Phrase.Operation.join .product [] _ _ (t .star "*") _ _ _ (hname "c" _)
    .multiply (hname "d" _)
  have hfirst := @Phrase.Operation.join .sum [.product] _ _ (t .minus "-") _ _ _ (hname "a" _)
    .subtract (hname "b" _)
  have hsum := @Phrase.Operation.join _ _ _ _ (t .minus "-") _ _ _ hfirst .subtract hproduct
  have hless := @Phrase.Operation.join .comparison _ _ _ (t .less "<") _ _ _ (hname "d" _) .less
    hsum
  have hequal := @Phrase.Operation.join .equality _ _ _ (t .equalEqual "==") _ _ _ (hname "c" _)
    .equal hless
  have hand := @Phrase.Operation.join .and _ _ _ (t .andWord "and") _ _ _ (hname "b" _) .and hequal
  have hor := @Phrase.Operation.join .or _ _ _ (t .orWord "or") _ _ _ (hname "a" _) .or hand
  have hassign := @Phrase.Expression.assign (n "d") (t .equal "=") _ _ _ rfl (htext "d") rfl
    (.operation hor)
  have hno := Phrase.Statement.expression (@Phrase.ExpressionStatement.mk _ (t .semicolon ";") _ _
    hassign rfl)
  have hchoice := @Phrase.Statement.ifElse (t .ifWord "if") (t .elseWord "else") _ _ _ _ _ _ _ rfl
    (hcondition "b") hyes rfl hno
  have hwhole := @Phrase.Statement.ifThen (t .ifWord "if") _ _ _ _ _ rfl (hcondition "a") hchoice
  refine ⟨by decide, rfl, (Token.parse_accepts_iff ts stop
    ⟨0, [.ifThen 0 (x "a") (.ifElse 0 (x "b") (.expression 0 (x "c"))
      (.expression 0 (.assign 0 "d" value)))]⟩
    (by decide) rfl).mpr ⟨_, .cons (.statement hwhole) .nil, rfl⟩⟩

end Lox

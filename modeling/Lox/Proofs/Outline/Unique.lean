import Lox.Proofs.Outline.Tree
import Lox.Proofs.Token.Layout

/-!
# Programs and their texts

The parenthesised form of a program shows the whole program but for its lines: two programs that
were read from sources, flawed or not, and that are written in the same way are equal up to their
lines (`Token.render_scan_injective`).
-/

namespace Lox

namespace Outline

/-! ## Outlines as nested lists -/

/-- The text of an outline says what the nested list does. -/
structure Shows (o : Outline) (f : Form) : Prop where
  spelled : f.Spelled
  reads : Reads o.render.toList f.symbols

/-- The parts of an outline, each after a space, say what the nested lists do. -/
structure PartsShow (os : List Outline) (fs : List Form) : Prop where
  spelled : Form.AllSpelled fs
  reads : ∀ a s, Reads a s → Reads (a ++ (renderParts os).toList) (s ++ Form.symbolsAll fs)

theorem PartsShow.nil : PartsShow [] [] where
  spelled := trivial
  reads a s h := by
    rw [renderParts, Form.symbolsAll, List.append_nil]
    simpa using h

theorem PartsShow.cons {o : Outline} {os : List Outline} {f : Form} {fs : List Form}
    (h : Shows o f) (hs : PartsShow os fs) : PartsShow (o :: os) (f :: fs) where
  spelled := ⟨h.spelled, hs.spelled⟩
  reads a s ha := by
    have hboth := hs.reads _ _ (ha.space h.reads)
    have htext : (renderParts (o :: os)).toList =
        ' ' :: o.render.toList ++ (renderParts os).toList := by
      rw [renderParts, String.toList_append, String.toList_append]
      rfl
    rw [htext, Form.symbolsAll, ← List.append_assoc, ← List.append_assoc]
    exact hboth

/-- A leaf shows its word. -/
theorem Shows.leaf {a : Atom} (h : a.Spelled) : Shows (leaf a.spelling) (.atom a) :=
  ⟨h, h.reads⟩

theorem Shows.word {w : String} (h : Plain w.toList) : Shows (.leaf w) (.atom (.word w)) :=
  Shows.leaf (a := .word w) h

/-- The text of a heading says what the nested lists do. -/
structure HeadingShows (heading : String) (fs : List Form) : Prop where
  spelled : Form.AllSpelled fs
  reads : Reads heading.toList (Form.symbolsAll fs)

/-- A form shows what its heading and its parts do. -/
theorem Shows.form {heading : String} {os : List Outline} {fs gs : List Form}
    (hheading : HeadingShows heading fs) (hparts : PartsShow os gs) :
    Shows (.form heading os) (.list (fs ++ gs)) where
  spelled := by
    have hfs := Form.allSpelled_iff.mp hheading.spelled
    have hgs := Form.allSpelled_iff.mp hparts.spelled
    exact Form.allSpelled_iff.mpr (List.forall_mem_append.mpr ⟨hfs, hgs⟩)
  reads := by
    have htext : (Outline.form heading os).render.toList =
        '(' :: (heading.toList ++ (renderParts os).toList) ++ [')'] := by
      simp only [render, String.toList_append]
      rfl
    rw [htext, Form.symbols, Form.symbolsAll_append]
    exact (hparts.reads _ _ hheading.reads).parentheses

/-! ## Headings -/

theorem HeadingShows.word {w : String} (h : Plain w.toList) :
    HeadingShows w [.atom (.word w)] where
  spelled := ⟨h, trivial⟩
  reads := (Shows.word h).reads

/-- A heading of a word and a name. -/
theorem HeadingShows.named {heading w x : String} (hw : Plain w.toList) (hx : Plain x.toList)
    (htext : heading.toList = w.toList ++ ' ' :: x.toList) :
    HeadingShows heading [.atom (.word w), .atom (.word x)] where
  spelled := ⟨hw, hx, trivial⟩
  reads := by
    rw [htext]
    exact (Shows.word hw).reads.space (Shows.word hx).reads

/-- Words with spaces between them. -/
theorem reads_words {xs : List String} (h : ∀ x ∈ xs, Plain x.toList) :
    Reads (" ".intercalate xs).toList (Form.symbolsAll (xs.map fun x => .atom (.word x))) := by
  induction xs with
  | nil =>
    rw [String.intercalate_nil]
    exact reads_nil
  | cons x xs ih =>
    obtain ⟨hx, hxs⟩ := List.forall_mem_cons.mp h
    cases xs with
    | nil =>
      rw [String.intercalate_singleton]
      exact (Shows.word hx).reads
    | cons y ys =>
      rw [String.intercalate_cons_cons, String.toList_append, String.toList_append,
        List.append_assoc]
      exact (Shows.word hx).reads.space (ih hxs)

/-- The heading of a function: its name and, in parentheses, its parameters. -/
theorem HeadingShows.function {f : String} {xs : List String} (hf : Plain f.toList)
    (hxs : ∀ x ∈ xs, Plain x.toList) :
    HeadingShows ("fun " ++ f ++ "(" ++ " ".intercalate xs ++ ")")
      [.atom (.word "fun"), .atom (.word f), .list (xs.map fun x => .atom (.word x))] where
  spelled := by
    have hparams : Form.AllSpelled (xs.map fun x => .atom (.word x)) := by
      refine Form.allSpelled_iff.mpr fun p hp => ?_
      obtain ⟨x, hx, rfl⟩ := List.mem_map.mp hp
      exact hxs x hx
    have hfun : Plain "fun".toList := by decide
    exact ⟨hfun, hf, hparams, trivial⟩
  reads := by
    have hfun : Plain "fun".toList := by decide
    have hnamed : Reads ("fun".toList ++ ' ' :: f.toList) [.word "fun".toList, .word f.toList] :=
      (Shows.word hfun).reads.space (Shows.word hf).reads
    have hwhole := hnamed.before_parenthesis (reads_words hxs).parentheses
    have htext : ("fun " ++ f ++ "(" ++ " ".intercalate xs ++ ")").toList =
        "fun".toList ++ ' ' :: f.toList ++ '(' :: ((" ".intercalate xs).toList ++ [')']) := by
      simp only [String.toList_append, List.append_assoc]
      rfl
    rw [htext, Form.symbolsAll, Form.symbolsAll, Form.symbolsAll, Form.symbolsAll, List.append_nil]
    exact hwhole

end Outline

/-! ## Trees -/

open Outline (Shows PartsShow HeadingShows)

/-- A list that begins with a word. -/
theorem Outline.Shows.headed {w : String} {os : List Outline} {fs : List Outline.Form}
    (hw : Outline.Plain w.toList) (hparts : PartsShow os fs) :
    Shows (.form w os) (.headed w fs) :=
  .form (.word hw) hparts

/-- The words of the notation, operators among them, are plain. -/
theorem Outline.plain_symbols :
    (∀ op ∈ UnaryOp.known, Outline.Plain op.symbol.toList) ∧
    (∀ op ∈ BinaryOp.known, Outline.Plain op.symbol.toList) ∧
    ∀ op ∈ LogicalOp.known, Outline.Plain op.symbol.toList := by
  decide

mutual

/-- The text of an expression says what its shape does. -/
theorem Expr.shows : (e : Expr) → e.Over .written → Shows e.outline e.shape
  | .number _ x, ⟨_, hx⟩ => Shows.leaf (a := .number x) hx
  | .string _ s, _ => Shows.leaf (a := .text s) trivial
  | .bool _ true, _ => .word (by decide)
  | .bool _ false, _ => .word (by decide)
  | .nil _, _ => .word (by decide)
  | .name _ _, ⟨_, hx⟩ => .word hx.plain
  | .unary _ _ operand, ⟨_, hop, h⟩ =>
    .headed (Outline.plain_symbols.1 _ hop) (.cons (operand.shows h) .nil)
  | .binary _ _ left right, ⟨_, hop, hleft, hright⟩ =>
    .headed (Outline.plain_symbols.2.1 _ hop)
      (.cons (left.shows hleft) (.cons (right.shows hright) .nil))
  | .logical _ _ left right, ⟨_, hop, hleft, hright⟩ =>
    .headed (Outline.plain_symbols.2.2 _ hop)
      (.cons (left.shows hleft) (.cons (right.shows hright) .nil))
  | .group _ inner, ⟨_, h⟩ => .headed (by decide) (.cons (inner.shows h) .nil)
  | .assign _ x value, ⟨_, hx, h⟩ =>
    .form (.named (w := "=") (by decide) hx.plain (by rw [String.toList_append]; rfl))
      (.cons (value.shows h) .nil)
  | .call _ f args, ⟨_, hf, hargs⟩ =>
    .form (.named (w := "call") (by decide) hf.plain (by rw [String.toList_append]; rfl))
      (Expr.shows_all args hargs)

theorem Expr.shows_all : (es : List Expr) → Expr.AllOver .written es →
    PartsShow (Expr.outlines es) (Expr.shapes es)
  | [], _ => .nil
  | e :: es, ⟨h, hs⟩ => .cons (e.shows h) (Expr.shows_all es hs)

end

/-- An expression that may be missing shows nothing if it is. -/
theorem Expr.shows_option {e : Option Expr} (h : ∀ a ∈ e, a.Over .written) :
    PartsShow (e.map Expr.outline).toList (e.map Expr.shape).toList := by
  cases e with
  | none => exact .nil
  | some e => exact .cons (e.shows (h e rfl)) .nil

mutual

/-- The text of a statement says what its shape does. -/
theorem Stmt.shows : (s : Stmt) → s.Over .written → Shows s.outline s.shape
  | .expression _ value, ⟨_, h⟩ | .print _ value, ⟨_, h⟩ =>
    .headed (by decide) (.cons (value.shows h) .nil)
  | .declare _ x _, ⟨_, hx, h⟩ =>
    .form (.named (w := "var") (by decide) hx.plain (by rw [String.toList_append]; rfl))
      (Expr.shows_option h)
  | .function _ _ _ _ body, ⟨_, hf, hxs, _, h⟩ =>
    .form (.function hf.plain fun x hx => (hxs x hx).plain)
      (.cons (.headed (by decide) (Stmt.shows_all body h)) .nil)
  | .block _ body, ⟨_, h⟩ => .headed (by decide) (Stmt.shows_all body h)
  | .ifThen _ test yes, ⟨_, htest, hyes⟩ =>
    .headed (by decide) (.cons (test.shows htest) (.cons (yes.shows hyes) .nil))
  | .ifElse _ test yes no, ⟨_, htest, hyes, hno⟩ =>
    .headed (by decide)
      (.cons (test.shows htest) (.cons (yes.shows hyes) (.cons (no.shows hno) .nil)))
  | .loop _ test body, ⟨_, htest, hbody⟩ =>
    .headed (by decide) (.cons (test.shows htest) (.cons (body.shows hbody) .nil))
  | .giveBack _ _, ⟨_, h⟩ => .headed (by decide) (Expr.shows_option h)

theorem Stmt.shows_all : (ss : List Stmt) → Stmt.AllOver .written ss →
    PartsShow (Stmt.outlines ss) (Stmt.shapes ss)
  | [], _ => .nil
  | s :: ss, ⟨h, hs⟩ => .cons (s.shows h) (Stmt.shows_all ss hs)

end

/-! ## Programs -/

/-- Statements with the same shapes are the same, lines apart. -/
theorem Stmt.bares_of_shapes {ss ts : List Stmt} (hs : Stmt.AllOver .written ss)
    (ht : Stmt.AllOver .written ts) (h : Stmt.shapes ss = Stmt.shapes ts) :
    Stmt.bares ss = Stmt.bares ts := by
  have hss := Stmt.ofForms_shapes ss hs
  rw [h, Stmt.ofForms_shapes ts ht] at hss
  exact (Option.some.inj hss).symm

/-- Programs over names and numbers as they can be written, written in the same way, are equal up to
their lines. -/
theorem Program.render_injective {p q : Program} (hp : Stmt.AllOver .written p.body)
    (hq : Stmt.AllOver .written q.body) (h : p.render = q.render) : p.bare = q.bare := by
  have hword : Outline.Plain "program".toList := by decide
  have hshows := Shows.headed hword (Stmt.shows_all p.body hp)
  have hshows' := Shows.headed hword (Stmt.shows_all q.body hq)
  have hsymbols := hshows.reads [] Outline.delimited_nil
  have hsymbols' := hshows'.reads [] Outline.delimited_nil
  have htext : (Outline.form "program" (Stmt.outlines p.body)).render =
      (Outline.form "program" (Stmt.outlines q.body)).render := h
  rw [htext, hsymbols'] at hsymbols
  have hforms := Outline.Form.symbols_injective hshows.spelled hshows'.spelled
    (List.append_cancel_right hsymbols).symm
  have hshapes := (List.cons.inj (Outline.Form.list.inj hforms)).2
  exact congrArg (Program.mk 0) (Stmt.bares_of_shapes hp hq hshapes)

/-! ## Sources -/

namespace Token

/-- The literal of a name is its lexeme. -/
theorem Lexeme.isName {w : List Char} {literal : Option Literal}
    (h : Lexeme w (.token .identifier literal)) :
    IsName (String.ofList w) ∧ literal = some (.text (String.ofList w)) := by
  have hmark : ∀ p ∈ marks, Kind.identifier ≠ p.2 := by decide
  have hword : ∀ p ∈ reservedWords, Kind.identifier ≠ p.2 := by decide
  have hname := h
  cases h with
  | mark hk => exact absurd rfl (hmark _ hk)
  | word hk => exact absurd rfl (hword _ hk)
  | name =>
    rw [IsName, String.toList_ofList]
    exact ⟨hname, rfl⟩

/-- The literal of a number is finite and has no sign. -/
theorem Lexeme.written {w : List Char} {literal : Option Literal}
    (h : Lexeme w (.token .number literal)) :
    ∃ x, literal = some (.number x) ∧ Number.Written x := by
  have hmark : ∀ p ∈ marks, Kind.number ≠ p.2 := by decide
  have hword : ∀ p ∈ reservedWords, Kind.number ≠ p.2 := by decide
  cases h with
  | mark hk => exact absurd rfl (hmark _ hk)
  | word hk => exact absurd rfl (hword _ hk)
  | number hne hwhole hfraction hvalue =>
    rw [Number.Numeral.read_plain hwhole hne hfraction] at hvalue
    exact ⟨_, rfl, Number.Numeral.written_of_ofDigits hvalue⟩

/-- The tokens of a source have only names and numbers as they can be written. -/
theorem written_of_fromLexeme {t : Token} (ht : t.FromLexeme) : Vocabulary.written.Has t := by
  obtain ⟨kind, lexeme, literal, offset, line⟩ := t
  have hlexeme : Lexeme lexeme.toList (.token kind literal) := ht
  refine ⟨trivial, ?_, ?_, ?_⟩
  · rintro rfl
    have hname := hlexeme.isName.1
    rwa [String.ofList_toList] at hname
  · rintro rfl
    obtain ⟨hname, rfl⟩ := hlexeme.isName
    exact hname
  · rintro rfl
    obtain ⟨x, rfl, hx⟩ := hlexeme.written
    exact hx

end Token

/-- The statements that are read from a source are over names and numbers as they can be
written. -/
theorem Token.over_parse_scan (source : String) :
    Stmt.AllOver .written (parse (scan source).tokens).program.body := by
  have hnoEnd : NoEnd (innerTokens source.toList) := kind_innerTokens source.toList
  have hstop : (endOf source.toList).kind = .endOfInput := rfl
  obtain ⟨hbody, -⟩ := hnoEnd.parse_append hstop
  rw [scan_tokens, hbody]
  exact Stmt.allOver_iff.mpr (Grammar.over_statements _ fun t ht =>
    written_of_fromLexeme (fromLexeme_innerTokens source.toList t ht))

/-- Two programs read from sources, flawed or not, that have the same parenthesised form are equal
up to their lines. -/
theorem Token.render_scan_injective (s t : String)
    (h : (parse (scan s).tokens).program.render = (parse (scan t).tokens).program.render) :
    (parse (scan s).tokens).program.bare = (parse (scan t).tokens).program.bare :=
  Program.render_injective (over_parse_scan s) (over_parse_scan t) h

/-- Two layouts of one program, with a minus of either kind, a name like a heading and an escape,
differ in their lines only. -/
theorem Token.render_scan_injective_layout :
    let s := "fun group(a, b) { return -a - 1.50; } print group(\"x\ty\", nil);"
    let t := "fun group ( a,b )\n{ return - a - 1.5 ; }\n\nprint group(\"x\ty\",nil);"
    let p := (parse (scan s).tokens).program
    let q := (parse (scan t).tokens).program
    p.render = q.render ∧ p.body.map Stmt.line = [1, 1] ∧ q.body.map Stmt.line = [1, 4] ∧
      p.bare = q.bare :=
  ⟨by decide +kernel, by decide +kernel, by decide +kernel,
    render_scan_injective _ _ (by decide +kernel)⟩

end Lox

import Lox.Proofs.Machine.Stack
import Lox.Proofs.Number.Sign
import Lox.Proofs.Source.Reading
import Lox.Proofs.Token.Layout

/-!
# What is printed reads back

The text of a finite number, of a truth value and of nil is a program that has this very value, and
so is the text of a string between quotation marks if none is inside (`Value.readsBack`).

A literal is followed through all stages at once: `Value.WrittenAs` says that a text in front of a
semicolon is scanned to tokens that spell an expression with the value.  This holds of lexemes that
are expressions on their own, and a minus sign in front of a number goes through scanning, parsing
and evaluation in the same way.
-/

namespace Lox

open Token (Lexeme Scans Cut lineBehind)
open Text.Quoted (quotationMark)

/-- The expression has the value in every scope of every machine, and leaves the machine as it is;
`depth` is the fuel that it takes. -/
def Expr.Yields (depth : Nat) (e : Expr) (v : Value) : Prop :=
  ∀ fuel scope m, Eval.expression (fuel + depth) scope e m = (.ok v, m)

theorem Expr.Yields.of_pure {e : Expr} {v : Value}
    (h : ∀ fuel scope, Eval.expression (fuel + 1) scope e = pure v) : e.Yields 1 v := by
  intro fuel scope m
  rw [h]
  rfl

namespace Value

/-! ## Literals -/

/-- The text that stands for a value in a program: that of `print`, with strings between quotation
marks. -/
def literal : Value → String
  | string s => "\"" ++ s ++ "\""
  | v => v.text

/-- The value is one that a literal can stand for. -/
def HasLiteral : Value → Prop
  | number x => x.isFinite = true
  | string s => quotationMark ∉ s.toList
  | bool _ | nil => True
  | function _ | native _ => False

/-- In front of a semicolon, the text is scanned to tokens that spell an expression with the
value. -/
def WrittenAs (depth : Nat) (w : List Char) (v : Value) : Prop :=
  ∀ before rest ts es, Scans (before ++ w) (';' :: rest) ts es →
    ∃ t u e, Scans before (w ++ ';' :: rest) (t :: u ++ ts) es ∧ t.line = lineBehind before ∧
      Phrase.Unary (t :: u) e ∧ e.Yields depth v

/-- A lexeme that is an expression on its own. -/
theorem writtenAs_of_lexeme {w : List Char} {k : Token.Kind} {literal : Option Literal}
    {v : Value} (hw : Lexeme w (.token k literal))
    (hleaf : ∀ t : Token, t.kind = k → t.literal = literal →
      ∃ e, Phrase.Primary [t] e ∧ e.Yields 1 v) : WrittenAs 1 w v := by
  intro before rest ts es h
  have hstops : ∀ c ∈ (';' :: rest).head?, Token.Piece.Stops c := by
    rintro c ⟨⟩
    decide
  obtain ⟨e, hprimary, hvalue⟩ :=
    hleaf ⟨k, String.ofList w, literal, before.length, lineBehind before⟩ rfl rfl
  exact ⟨_, [], e, .token (hw.cut_of_stops hstops) h, rfl, .call (.primary hprimary), hvalue⟩

theorem writtenAs_number {x : Float} (h : Number.Written x) :
    WrittenAs 1 (Number.text x).toList (number x) := by
  obtain ⟨whole, fraction, hne, hwhole, hfraction, htext, -⟩ := h.plain
  have hread := h.read_text
  rw [htext] at hread
  rw [htext, String.toList_ofList]
  refine writtenAs_of_lexeme (.number hne hwhole hfraction hread) fun t hkind hliteral => ?_
  exact ⟨_, .number hkind (.payload hliteral), .of_pure fun _ _ => by rw [Eval.expression]⟩

/-- A minus sign in front of a number. -/
theorem writtenAs_neg {w : List Char} {x : Float} (h : WrittenAs 1 w (number x)) :
    WrittenAs 2 ('-' :: w) (number (-x)) := by
  intro before rest ts es hrest
  rw [List.append_cons] at hrest
  obtain ⟨t, u, e, hscans, -, hunary, hvalue⟩ := h (before ++ ['-']) rest ts es hrest
  have hcut : Cut (['-'] ++ (w ++ ';' :: rest)) ⟨['-'], .token .minus none⟩ :=
    Token.cut_iff.mpr ⟨'-', w ++ ';' :: rest, rfl, rfl⟩
  have hscans' := Scans.token hcut hscans
  refine ⟨_, t :: u, _, hscans', rfl, .negate rfl hunary, fun fuel scope m => ?_⟩
  rw [Eval.expression]
  show Eval.andThen (Eval.expression (fuel + 1) scope e) _ m = _
  rw [Eval.andThen, hvalue fuel scope m]
  rfl

theorem writtenAs_string {s : String} (h : quotationMark ∉ s.toList) :
    WrittenAs 1 (quotationMark :: s.toList ++ [quotationMark]) (string s) := by
  refine writtenAs_of_lexeme (.string h) fun t hkind hliteral => ?_
  rw [String.ofList_toList] at hliteral
  exact ⟨_, .string hkind (.payload hliteral), .of_pure fun _ _ => by rw [Eval.expression]⟩

/-- A value with a literal is written as this literal. -/
theorem HasLiteral.writtenAs {v : Value} (h : v.HasLiteral) :
    ∃ depth ≤ 2, WrittenAs depth v.literal.toList v := by
  cases v with
  | number x =>
    rcases Number.written_or_neg h with hx | ⟨y, hy, rfl⟩
    · exact ⟨1, by decide, writtenAs_number hx⟩
    · have htext : (number (-y)).literal.toList = '-' :: (Number.text y).toList := by
        show (Number.text (-y)).toList = _
        rw [Number.text_neg hy, String.toList_append]
        rfl
      exact ⟨2, Nat.le_refl 2, htext ▸ writtenAs_neg (writtenAs_number hy)⟩
  | string s =>
    have htext : (string s).literal.toList = quotationMark :: s.toList ++ [quotationMark] := by
      rw [literal, String.toList_append, String.toList_append]
      rfl
    exact ⟨1, by decide, htext ▸ writtenAs_string h⟩
  | bool b =>
    refine ⟨1, by decide, ?_⟩
    cases b with
    | true => exact writtenAs_of_lexeme (.word (s := "true") (by decide)) fun t hkind _ =>
        ⟨_, .trueWord hkind, .of_pure fun _ _ => by rw [Eval.expression]⟩
    | false => exact writtenAs_of_lexeme (.word (s := "false") (by decide)) fun t hkind _ =>
        ⟨_, .falseWord hkind, .of_pure fun _ _ => by rw [Eval.expression]⟩
  | nil => exact ⟨1, by decide, writtenAs_of_lexeme (.word (s := "nil") (by decide))
      fun t hkind _ => ⟨_, .nilWord hkind, .of_pure fun _ _ => by rw [Eval.expression]⟩⟩
  | function f => exact h.elim
  | native n => exact h.elim

end Value

/-! ## Statements -/

namespace Source

/-- The text is read, without diagnostics, as this statement and no other. -/
def IsStatement (text : String) (s : Stmt) : Prop :=
  ∀ label, (read label text).diagnostics = [] ∧ (read label text).program.body = [s]

/-- A text that is scanned to the tokens of a statement is this statement. -/
theorem isStatement_of_scans {text : String} {ts : List Token} {last : Token} {o : Bool} {s : Stmt}
    (hscans : Scans [] text.toList (ts ++ [last]) []) (hs : Phrase.Declaration o ts s) :
    IsStatement text s := by
  intro label
  have hscan : Token.scan text = ⟨ts ++ [last], []⟩ := hscans.eq_scanBehind
  have htokens := (Token.scan_tokens text).symm.trans (congrArg Token.Scan.tokens hscan)
  obtain ⟨rfl, -⟩ := List.append_inj' htokens rfl
  have hdeclarations := Phrase.Declarations.cons hs .nil
  rw [List.append_nil, Grammar.declarations_iff_statements] at hdeclarations
  obtain ⟨hbody, herrors⟩ := read_eq label text
  rw [hdeclarations] at hbody herrors
  have hscanErrors : (read label text).scanErrors = [] := congrArg Token.Scan.errors hscan
  exact ⟨by rw [diagnostics, hscanErrors, herrors]; rfl, hbody⟩

end Source

namespace Value

/-- A semicolon at the end of a text. -/
theorem exists_scans_semicolon (before : List Char) :
    ∃ stop last : Token, stop.kind = .semicolon ∧ Scans before [';'] [stop, last] [] := by
  have hcut : Cut ([';'] ++ []) ⟨[';'], .token .semicolon none⟩ :=
    Token.cut_iff.mpr ⟨';', [], rfl, rfl⟩
  have hdone := @Scans.done (before ++ [';'])
  exact ⟨_, _, rfl, .token hcut hdone⟩

section WrittenAs

variable {depth : Nat} {w : String} {v : Value} (h : WrittenAs depth w.toList v)

include h

/-- In front of the semicolon that ends a text, a literal is an expression. -/
theorem WrittenAs.scans (before : List Char) :
    ∃ t u stop last e, Scans before (w.toList ++ [';']) (t :: u ++ [stop] ++ [last]) [] ∧
      t.line = lineBehind before ∧ stop.kind = .semicolon ∧ Phrase.Expression (t :: u) e ∧
      e.Yields depth v := by
  obtain ⟨stop, last, hstop, hend⟩ := exists_scans_semicolon (before ++ w.toList)
  obtain ⟨t, u, e, hscans, hline, hunary, hvalue⟩ := h before [] _ _ hend
  refine ⟨t, u, stop, last, e, ?_, hline, hstop, .of_unary hunary, hvalue⟩
  rwa [List.append_assoc]

/-- With a semicolon behind it, a literal is an expression statement. -/
theorem WrittenAs.isStatement_expression :
    ∃ e, Source.IsStatement (w ++ ";") (.expression 1 e) ∧ e.Yields depth v := by
  obtain ⟨t, u, stop, last, e, hscans, hline, hstop, he, hvalue⟩ := h.scans []
  have hs := Phrase.Statement.expression (.mk he hstop)
  rw [hline] at hs
  have htext : (w ++ ";").toList = w.toList ++ [';'] := String.toList_append
  rw [← htext] at hscans
  exact ⟨e, Source.isStatement_of_scans hscans (.statement hs), hvalue⟩

/-- With `print` in front, it is a statement that prints the value. -/
theorem WrittenAs.isStatement_print :
    ∃ e, Source.IsStatement ("print " ++ w ++ ";") (.print 1 e) ∧ e.Yields depth v := by
  obtain ⟨t, u, stop, last, e, hscans, -, hstop, he, hvalue⟩ :=
    h.scans ("print".toList ++ [' '])
  have hlexeme : Lexeme "print".toList (.token .printWord none) :=
    .word (s := "print") (by decide)
  have hcut : Cut ("print".toList ++ ([' '] ++ (w.toList ++ [';']))) ⟨_, .token .printWord none⟩ :=
    hlexeme.cut (by rintro c ⟨⟩; decide)
  have hspace : Scans ([] ++ "print".toList) ([' '] ++ (w.toList ++ [';']))
      (t :: u ++ [stop] ++ [last]) [] := .skip (.inl rfl) (.blank (by decide)) hscans
  obtain ⟨word, hkind, hline, hword⟩ : ∃ word : Token, word.kind = .printWord ∧ word.line = 1 ∧
      Scans [] _ (word :: t :: u ++ [stop] ++ [last]) [] := ⟨_, rfl, rfl, .token hcut hspace⟩
  have hs := Phrase.Statement.print hkind he hstop
  rw [hline] at hs
  have htext : ("print " ++ w ++ ";").toList =
      "print".toList ++ ([' '] ++ (w.toList ++ [';'])) := by
    rw [String.toList_append, String.toList_append, List.append_assoc]
    rfl
  rw [← htext] at hword
  exact ⟨e, Source.isStatement_of_scans hword (.statement hs), hvalue⟩

end WrittenAs

/-! ## Reading back -/

/-- The literal of a value reads back as this value. -/
structure ReadsBack (v : Value) : Prop where
  /-- With a semicolon behind it, the literal is an expression statement whose value is the one
  that was written, wherever it is executed. -/
  read : ∃ e, Source.IsStatement (v.literal ++ ";") (.expression 1 e) ∧ ∀ fuel scope m,
    Eval.statement (fuel + 3) scope (.expression 1 e) m = (.ok (.next v), m)
  /-- With `print` in front, it is a statement that writes what is shown of the value, which of a
  string is the string itself, and a newline. -/
  printed : ∃ e, Source.IsStatement ("print " ++ v.literal ++ ";") (.print 1 e) ∧
    ∃ text, v.Shown text ∧ ∀ fuel scope m o, m.output.Accepts (text ++ "\n") o →
      Eval.statement (fuel + 3) scope (.print 1 e) m = (.ok (.next .nil), { m with output := o })

/-- Every value that a literal can stand for reads back from its literal. -/
theorem readsBack (v : Value) (h : v.HasLiteral) : ReadsBack v := by
  obtain ⟨depth, hdepth, hw⟩ := h.writtenAs
  have hfuel (fuel : Nat) : fuel + 2 = fuel + (2 - depth) + depth := by omega
  constructor
  case read =>
    obtain ⟨e, hs, hvalue⟩ := hw.isStatement_expression
    refine ⟨e, hs, fun fuel scope m => ?_⟩
    rw [Eval.statement]
    show Eval.andThen (Eval.expression (fuel + 2) scope e) _ m = _
    rw [Eval.andThen, hfuel, hvalue]
    rfl
  case printed =>
    obtain ⟨e, hs, hvalue⟩ := hw.isStatement_print
    refine ⟨e, hs, v.text, v.shown_text, fun fuel scope m o ho => ?_⟩
    obtain ⟨hroom, rfl⟩ := Output.accepts_iff.mp ho
    rw [Eval.statement]
    show Eval.andThen (Eval.expression (fuel + 2) scope e) _ m = _
    rw [Eval.andThen, hfuel, hvalue]
    show Eval.andThen (Eval.write .print (v.text ++ "\n")) _ m = _
    rw [Eval.andThen, Eval.write, if_pos hroom]
    rfl

/-- Zero with a sign is written with the sign, and reads back with it. -/
theorem readsBack_negativeZero :
    let zero := number (Number.ofSignAndBits true 0)
    zero.HasLiteral ∧ zero.literal = "-0" ∧ ReadsBack zero := by
  intro zero
  have hfinite : zero.HasLiteral := by
    show (Number.ofSignAndBits true 0).isFinite = true
    decide +kernel
  have htext : zero.literal = "-0" := by
    show Number.text (Number.ofSignAndBits true 0) = "-0"
    decide +kernel
  exact ⟨hfinite, htext, readsBack zero hfinite⟩

end Value

end Lox

import Lox.Proofs.Grammar.Acceptance
import Lox.Proofs.Machine.Discipline
import Lox.Session
import Mathlib.Data.List.Forall2

/-!
# Loops with clauses

A `for` is a `while` in a block, in its tree and in what it does (`Loop.parse_for_eq_while`).  The
two texts are put together from the same clauses, and the grammar makes trees of them that differ
in the lines of the nodes around the clauses only.  Evaluation looks at none of these lines, except
for that of a condition which is no truth value, and the condition that a `for` adds is one.
-/

namespace Lox

/-! ## The same effect -/

/-- The two statements do the same in every scope, with any fuel. -/
def Stmt.SameEffect (s s' : Stmt) : Prop :=
  ∀ fuel scope, Eval.statement fuel scope s = Eval.statement fuel scope s'

/-- The two conditions of a loop come to the same, whatever depends on them. -/
def Expr.SameTest (e e' : Expr) : Prop :=
  ∀ fuel scope (k : Bool → Eval Flow),
    (Eval.expression fuel scope e >>= fun v =>
      Eval.ofExcept (v.condition e.line "while") >>= k) =
    (Eval.expression fuel scope e' >>= fun v =>
      Eval.ofExcept (v.condition e'.line "while") >>= k)

theorem Expr.sameTest_true (l l' : Int) : SameTest (.bool l true) (.bool l' true) := by
  intro fuel scope k
  cases fuel with
  | zero => rw [Eval.expression, Eval.expression]; rfl
  | succ fuel => rw [Eval.expression, Eval.expression]; rfl

namespace Stmt.SameEffect

theorem refl (s : Stmt) : s.SameEffect s := fun _ _ => rfl

theorem expression (l l' : Int) (e : Expr) :
    SameEffect (.expression l e) (.expression l' e) := by
  intro fuel scope
  cases fuel with
  | zero => rw [Eval.statement, Eval.statement]
  | succ fuel => rw [Eval.statement, Eval.statement]

theorem statements {ss ss' : List Stmt} (h : List.Forall₂ SameEffect ss ss') (fuel : Nat)
    (scope : ScopeId) : Eval.statements fuel scope ss = Eval.statements fuel scope ss' := by
  induction fuel generalizing ss ss' with
  | zero => rw [Eval.statements, Eval.statements]
  | succ fuel ih =>
    cases h with
    | nil => rfl
    | cons hs hss =>
      rw [Eval.statements, Eval.statements, hs fuel scope, ih hss]

theorem block {ss ss' : List Stmt} (h : List.Forall₂ SameEffect ss ss') (l l' : Int) :
    SameEffect (.block l ss) (.block l' ss') := by
  intro fuel scope
  cases fuel with
  | zero => rw [Eval.statement, Eval.statement]
  | succ fuel =>
    rw [Eval.statement, Eval.statement]
    exact congrArg (Eval.extend scope >>= ·) (funext (statements h fuel))

theorem loop {e e' : Expr} {s s' : Stmt} (htest : e.SameTest e') (hbody : s.SameEffect s')
    (l l' : Int) : SameEffect (.loop l e s) (.loop l' e' s') := by
  have hloop : ∀ fuel scope, Eval.loop fuel scope e s = Eval.loop fuel scope e' s' := by
    intro fuel scope
    induction fuel with
    | zero => rw [Eval.loop, Eval.loop]
    | succ fuel ih => rw [Eval.loop, Eval.loop, htest, hbody fuel scope, ih]
  intro fuel scope
  cases fuel with
  | zero => rw [Eval.statement, Eval.statement]
  | succ fuel => rw [Eval.statement, Eval.statement, hloop]

end Stmt.SameEffect

namespace Loop

/-! ## Trees -/

/-- The lines of the nodes around the clauses of a loop. -/
structure Lines where
  block : Int
  loop : Int
  /-- The line of the condition that stands for a missing one. -/
  condition : Int
  body : Int
  step : Int

/-- The block that a loop with clauses stands for. -/
def tree (l : Lines) (start : List Stmt) (test step : Option Expr) (body : Stmt) : Stmt :=
  .block l.block (start ++ [.loop l.loop (test.getD (.bool l.condition true))
    (step.elim body fun e => .block l.body [body, .expression l.step e])])

section Tree

variable (l l' : Lines) (start : List Stmt) (test step : Option Expr) (body : Stmt)

theorem bare_tree : (tree l start test step body).bare = (tree l' start test step body).bare := by
  rw [tree, tree, Stmt.bare, Stmt.renumber, Stmt.renumber, Stmt.renumberAll_eq_map,
    Stmt.renumberAll_eq_map, List.map_append, List.map_append]
  cases test <;> cases step <;> rfl

theorem sameEffect_tree :
    (tree l start test step body).SameEffect (tree l' start test step body) := by
  have htest : (test.getD (.bool l.condition true)).SameTest
      (test.getD (.bool l'.condition true)) := by
    cases test with
    | none => exact Expr.sameTest_true l.condition l'.condition
    | some e => exact fun _ _ _ => rfl
  have hbody : (step.elim body fun e => .block l.body [body, .expression l.step e]).SameEffect
      (step.elim body fun e => .block l'.body [body, .expression l'.step e]) := by
    cases step with
    | none => exact .refl body
    | some e => exact .block (.cons (.refl body) (.cons (.expression _ _ e) .nil)) _ _
  have hstart : List.Forall₂ Stmt.SameEffect start start :=
    List.forall₂_same.mpr fun s _ => .refl s
  exact .block (List.rel_append hstart (.cons (.loop htest hbody _ _) .nil)) _ _

end Tree

/-! ## Texts -/

/-- The tokens of the clauses and of the body of a loop.  The first clause has its semicolon; the
condition and the last clause may be empty. -/
structure Clauses where
  start : List Token
  test : List Token
  step : List Token
  body : List Token

/-- An expression that may be missing. -/
inductive Spelled : List Token → Option Expr → Prop
  | none : Spelled [] none
  | some {w : List Token} {e : Expr} (h : Phrase.Expression w e) : Spelled w (some e)

/-- The clauses are complete, and these are their trees. -/
structure Clauses.Spell (c : Clauses) (start : List Stmt) (test step : Option Expr) (body : Stmt) :
    Prop where
  start : Phrase.ForStart c.start start
  test : Spelled c.test test
  step : Spelled c.step step
  body : ∃ o, Phrase.Statement o c.body body

/-- No clause ends the input. -/
def Clauses.NoEnd (c : Clauses) : Prop :=
  Token.NoEnd (c.start ++ c.test ++ c.step ++ c.body)

instance (c : Clauses) : Decidable c.NoEnd :=
  inferInstanceAs (Decidable (Token.NoEnd (c.start ++ c.test ++ c.step ++ c.body)))

/-- The word and the signs around the clauses of a `for`. -/
structure ForMarks where
  word : Token
  paren : Token
  semicolon : Token
  closing : Token
  word_kind : word.kind = .forWord
  paren_kind : paren.kind = .leftParen
  semicolon_kind : semicolon.kind = .semicolon
  closing_kind : closing.kind = .rightParen

/-- `for ( start test ; step ) body` -/
def ForMarks.text (m : ForMarks) (c : Clauses) : List Token :=
  m.word :: m.paren :: c.start ++ (c.test ++ [m.semicolon]) ++ (c.step ++ [m.closing]) ++ c.body

/-- The words and signs around the clauses of a loop that is written as a `while` in a block. -/
structure WhileMarks where
  brace : Token
  word : Token
  paren : Token
  yes : Token
  closing : Token
  inner : Token
  semicolon : Token
  innerEnd : Token
  braceEnd : Token
  brace_kind : brace.kind = .leftBrace
  word_kind : word.kind = .whileWord
  paren_kind : paren.kind = .leftParen
  yes_kind : yes.kind = .trueWord
  closing_kind : closing.kind = .rightParen
  inner_kind : inner.kind = .leftBrace
  semicolon_kind : semicolon.kind = .semicolon
  innerEnd_kind : innerEnd.kind = .rightBrace
  braceEnd_kind : braceEnd.kind = .rightBrace

namespace WhileMarks

variable (m : WhileMarks)

/-- The first clause as a statement; a semicolon alone is none. -/
def first : List Token → List Token
  | [_] => []
  | w => w

/-- The condition; a missing one is `true`. -/
def condition : List Token → List Token
  | [] => [m.yes]
  | w => w

/-- The body, with the last clause behind it in a block if there is one. -/
def repeated (body : List Token) : List Token → List Token
  | [] => body
  | w => m.inner :: (body ++ (w ++ [m.semicolon])) ++ [m.innerEnd]

/-- `{ start while ( test ) { body step ; } }` -/
def text (c : Clauses) : List Token :=
  m.brace :: (first c.start ++
    (m.word :: (m.paren :: m.condition c.test ++ [m.closing]) ++ m.repeated c.body c.step)) ++
    [m.braceEnd]

end WhileMarks

/-! ## The two texts and their trees -/

section Spell

variable {w : List Token} {e : Option Expr}

theorem Spelled.optional (h : Spelled w e) {stop : Token} {k : Token.Kind} (hstop : stop.kind = k) :
    Phrase.Optional k (w ++ [stop]) e := by
  cases h with
  | none => exact .none hstop
  | some h => exact .some h hstop

variable {c : Clauses} {start : List Stmt} {test step : Option Expr} {body : Stmt}

theorem Clauses.Spell.statement_for (h : c.Spell start test step body) (m : ForMarks) :
    ∃ o l, Phrase.Statement o (m.text c) (tree l start test step body) := by
  obtain ⟨o, hbody⟩ := h.body
  let line := m.word.line
  exact ⟨o, ⟨line, line, line, line, line⟩, .forLoop m.word_kind m.paren_kind h.start
    (h.test.optional m.semicolon_kind) (h.step.optional m.closing_kind) hbody⟩

/-- The first clause stands for the same declarations without a `for`. -/
theorem declarations_first (h : Phrase.ForStart w start) :
    Phrase.Declarations (WhileMarks.first w) start := by
  have hone : ∀ {o s}, Phrase.Declaration o w s → Phrase.Declarations w [s] := fun hs => by
    have hall := Phrase.Declarations.cons hs .nil
    rwa [List.append_nil] at hall
  cases h with
  | none => exact .nil
  | declare h =>
    have hfirst : WhileMarks.first w = w := by cases h <;> rfl
    rw [hfirst]
    exact hone (.declare h)
  | expression h =>
    obtain ⟨he, hstop⟩ := h
    rename_i first stop w e
    have hfirst : WhileMarks.first (first :: w ++ [stop]) = first :: w ++ [stop] := by
      cases w <;> rfl
    rw [hfirst]
    exact hone (.statement (.expression (.mk he hstop)))

theorem condition_condition (m : WhileMarks) (h : Spelled w e) :
    Phrase.Condition (m.paren :: m.condition w ++ [m.closing])
      (e.getD (.bool m.yes.line true)) := by
  cases h with
  | none => exact .mk m.paren_kind (.of_primary (.trueWord m.yes_kind)) m.closing_kind
  | some h =>
    obtain ⟨t, v, rfl, -⟩ := h.exists_cons
    exact .mk m.paren_kind h m.closing_kind

theorem exists_statement_repeated (m : WhileMarks) {o : Bool} {v : List Token}
    (hbody : Phrase.Statement o v body) (h : Spelled w e) :
    ∃ o line, Phrase.Statement o (m.repeated v w)
      (e.elim body fun e => .block m.inner.line [body, .expression line e]) := by
  cases h with
  | none => exact ⟨o, 0, hbody⟩
  | some h =>
    obtain ⟨t, u, rfl, -⟩ := h.exists_cons
    have hstep : Phrase.Statement false (t :: u ++ [m.semicolon]) (.expression t.line _) :=
      .expression (.mk h m.semicolon_kind)
    have hall := Phrase.Declarations.cons (.statement hbody)
      (.cons (.statement hstep) .nil)
    rw [List.append_nil] at hall
    exact ⟨false, t.line, .block m.inner_kind hall m.innerEnd_kind⟩

theorem Clauses.Spell.statement_while (h : c.Spell start test step body) (m : WhileMarks) :
    ∃ l, Phrase.Statement false (m.text c) (tree l start test step body) := by
  obtain ⟨o, hbody⟩ := h.body
  obtain ⟨o', line, hrepeated⟩ := exists_statement_repeated m hbody h.step
  have hloop := Phrase.Statement.loop m.word_kind (condition_condition m h.test) hrepeated
  have hall := (declarations_first h.start).append (.cons (.statement hloop) .nil)
  rw [List.append_nil] at hall
  exact ⟨⟨m.brace.line, m.word.line, m.yes.line, m.inner.line, line⟩,
    .block m.brace_kind hall m.braceEnd_kind⟩

end Spell

/-- The statement is all that is read from the tokens. -/
structure ReadAs (ts : List Token) (s : Stmt) : Prop where
  errors_eq : (Token.parse ts).errors = []
  body_eq : (Token.parse ts).program.body = [s]

theorem readAs_statement {o : Bool} {ts : List Token} {s : Stmt} {stop : Token}
    (h : Phrase.Statement o ts s) (hts : Token.NoEnd ts) (hstop : stop.kind = .endOfInput) :
    ReadAs (ts ++ [stop]) s := by
  have hall := Phrase.Declarations.cons (.statement h) .nil
  rw [List.append_nil] at hall
  have hread := Grammar.declarations_iff_statements.mp hall
  obtain ⟨hbody, herrors⟩ := hts.parse_append hstop
  exact ⟨by rw [herrors, hread]; rfl, by rw [hbody, hread]⟩

section NoEnd

theorem noEnd_append {u v : List Token} : Token.NoEnd (u ++ v) ↔ Token.NoEnd u ∧ Token.NoEnd v :=
  List.forall_mem_append

theorem noEnd_cons {t : Token} {v : List Token} :
    Token.NoEnd (t :: v) ↔ t.kind ≠ .endOfInput ∧ Token.NoEnd v :=
  List.forall_mem_cons

theorem noEnd_nil : Token.NoEnd [] := List.forall_mem_nil _

variable {c : Clauses}

theorem Clauses.noEnd_iff : c.NoEnd ↔
    Token.NoEnd c.start ∧ Token.NoEnd c.test ∧ Token.NoEnd c.step ∧ Token.NoEnd c.body := by
  rw [Clauses.NoEnd, noEnd_append, noEnd_append, noEnd_append, and_assoc, and_assoc]

theorem Clauses.NoEnd.for (h : c.NoEnd) (m : ForMarks) : Token.NoEnd (m.text c) := by
  obtain ⟨hstart, htest, hstep, hbody⟩ := Clauses.noEnd_iff.mp h
  have hmarks : m.word.kind ≠ .endOfInput ∧ m.paren.kind ≠ .endOfInput ∧
      m.semicolon.kind ≠ .endOfInput ∧ m.closing.kind ≠ .endOfInput := by
    rw [m.word_kind, m.paren_kind, m.semicolon_kind, m.closing_kind]
    decide
  simp only [ForMarks.text, noEnd_append, noEnd_cons, noEnd_nil, hmarks, hstart, htest, hstep,
    hbody, ne_eq, not_false_eq_true, and_self]

theorem noEnd_first {w : List Token} (h : Token.NoEnd w) : Token.NoEnd (WhileMarks.first w) := by
  unfold WhileMarks.first
  split
  · exact noEnd_nil
  · exact h

theorem noEnd_condition (m : WhileMarks) {w : List Token} (h : Token.NoEnd w) :
    Token.NoEnd (m.condition w) := by
  unfold WhileMarks.condition
  split
  · rw [noEnd_cons, m.yes_kind]
    exact ⟨by decide, noEnd_nil⟩
  · exact h

theorem noEnd_repeated (m : WhileMarks) {v w : List Token} (hv : Token.NoEnd v)
    (hw : Token.NoEnd w) : Token.NoEnd (m.repeated v w) := by
  have hmarks : m.inner.kind ≠ .endOfInput ∧ m.semicolon.kind ≠ .endOfInput ∧
      m.innerEnd.kind ≠ .endOfInput := by
    rw [m.inner_kind, m.semicolon_kind, m.innerEnd_kind]
    decide
  unfold WhileMarks.repeated
  split
  · exact hv
  · simp only [noEnd_append, noEnd_cons, noEnd_nil, hmarks, hv, hw, ne_eq, not_false_eq_true,
      and_self]

theorem Clauses.NoEnd.while (h : c.NoEnd) (m : WhileMarks) : Token.NoEnd (m.text c) := by
  obtain ⟨hstart, htest, hstep, hbody⟩ := Clauses.noEnd_iff.mp h
  have hmarks : m.brace.kind ≠ .endOfInput ∧ m.word.kind ≠ .endOfInput ∧
      m.paren.kind ≠ .endOfInput ∧ m.closing.kind ≠ .endOfInput ∧
      m.braceEnd.kind ≠ .endOfInput := by
    rw [m.brace_kind, m.word_kind, m.paren_kind, m.closing_kind, m.braceEnd_kind]
    decide
  simp only [WhileMarks.text, noEnd_append, noEnd_cons, noEnd_nil, hmarks, noEnd_first hstart,
    noEnd_condition m htest, noEnd_repeated m hbody hstep, ne_eq, not_false_eq_true, and_self]

end NoEnd

/-! ## The same loop -/

/-- The two statements differ in lines only, and not at all in what they do: in every scope of
every machine with any fuel, and at the top level of every session, with or without echo.  Neither
gives a name to a scope that was there before. -/
structure Same (s s' : Stmt) : Prop where
  bare_eq : s.bare = s'.bare
  sameEffect : s.SameEffect s'
  outcomes_eq : ∀ fuel echoing session,
    (Session.executeAll fuel echoing session [s]).1.map (fun r => (r.outcome, r.output)) =
      (Session.executeAll fuel echoing session [s']).1.map fun r => (r.outcome, r.output)
  session_eq : ∀ fuel echoing session,
    (Session.executeAll fuel echoing session [s]).2 =
      (Session.executeAll fuel echoing session [s']).2
  has_eq : ∀ fuel scope (m : Machine), scope < m.scopes.size → ∀ i < m.scopes.size, ∀ x,
    (Eval.statement fuel scope s m).2.scopes.has i x = m.scopes.has i x

/-- A block gives no name to a scope that was there before. -/
theorem has_block (l : Int) (ss : List Stmt) (fuel : Nat) {scope : ScopeId} {m : Machine}
    (hscope : scope < m.scopes.size) {i : ScopeId} (hi : i < m.scopes.size) (x : String) :
    (Eval.statement fuel scope (.block l ss) m).2.scopes.has i x = m.scopes.has i x := by
  have hkeeps : Scopes.Keeps scope [] m.scopes
      (Eval.statement fuel scope (.block l ss) m).2.scopes :=
    (Eval.inductive_disciplined.evaluated fuel).statement (.block l ss) scope m hscope
  by_cases hne : i = scope
  · subst hne
    refine Bool.eq_iff_iff.mpr ⟨fun h => ?_, hkeeps.has_mono x⟩
    exact (hkeeps.declared x h).resolve_right List.not_mem_nil
  · exact hkeeps.has_eq i hi hne x

/-- A block has nothing to echo, so a session learns of it what it does and nothing else. -/
theorem executeAll_block (fuel : Nat) (echoing : Bool) (session : Session) (l : Int)
    (ss : List Stmt) :
    Session.executeAll fuel echoing session [.block l ss] =
      let (r, s) := Session.execute fuel session (.block l ss)
      ([r], s) := by
  cases echoing <;> rfl

theorem same_tree (l l' : Lines) (start : List Stmt) (test step : Option Expr) (body : Stmt) :
    Same (tree l start test step body) (tree l' start test step body) := by
  have heffect := sameEffect_tree l l' start test step body
  have hexecute : ∀ fuel session,
      let r := Session.execute fuel session (tree l start test step body)
      let r' := Session.execute fuel session (tree l' start test step body)
      r.1.outcome = r'.1.outcome ∧ r.1.output = r'.1.output ∧ r.2 = r'.2 := by
    intro fuel session
    simp only [Session.execute, heffect fuel Session.global, and_self]
  refine ⟨bare_tree l l' start test step body, heffect, ?_, ?_, ?_⟩
  · intro fuel echoing session
    obtain ⟨houtcome, houtput, -⟩ := hexecute fuel session
    simp only [tree, executeAll_block, List.map_cons, List.map_nil] at houtcome houtput ⊢
    rw [houtcome, houtput]
  · intro fuel echoing session
    simpa only [tree, executeAll_block] using (hexecute fuel session).2.2
  · exact fun fuel scope m hscope i hi x => has_block _ _ fuel hscope hi x

/-- A `for` is read without complaint as one statement, and so is the block with a `while` that is
put together from the same clauses; the two are the same loop. -/
theorem parse_for_eq_while {c : Clauses} {start : List Stmt} {test step : Option Expr}
    {body : Stmt} (hc : c.Spell start test step body) (hends : c.NoEnd) (m : ForMarks)
    (m' : WhileMarks) {stop stop' : Token} (hstop : stop.kind = .endOfInput)
    (hstop' : stop'.kind = .endOfInput) :
    ∃ s s', ReadAs (m.text c ++ [stop]) s ∧ ReadAs (m'.text c ++ [stop']) s' ∧ Same s s' := by
  obtain ⟨o, l, hfor⟩ := hc.statement_for m
  obtain ⟨l', hwhile⟩ := hc.statement_while m'
  exact ⟨_, _, readAs_statement hfor (hends.for m) hstop,
    readAs_statement hwhile (hends.while m') hstop', same_tree l l' start test step body⟩

/-- `for (var i; a; i = b) if (c) print i;` on one line, and the `while` around it on another: the
body could still take an `else`, and gets the last clause behind it instead. -/
theorem parse_for_eq_while_openIf :
    let t (k : Token.Kind) (x : String) : Token := ⟨k, x, none, 0, 1⟩
    let u (k : Token.Kind) (x : String) : Token := ⟨k, x, none, 0, 7⟩
    let c : Clauses := {
      start := [t .varWord "var", t .identifier "i", t .semicolon ";"]
      test := [t .identifier "a"]
      step := [t .identifier "i", t .equal "=", t .identifier "b"]
      body := [t .ifWord "if", t .leftParen "(", t .identifier "c", t .rightParen ")",
        t .printWord "print", t .identifier "i", t .semicolon ";"] }
    let m : ForMarks := ⟨t .forWord "for", t .leftParen "(", t .semicolon ";", t .rightParen ")",
      rfl, rfl, rfl, rfl⟩
    let m' : WhileMarks := ⟨u .leftBrace "\x7b", u .whileWord "while", u .leftParen "(",
      u .trueWord "true", u .rightParen ")", u .leftBrace "\x7b", u .semicolon ";",
      u .rightBrace "\x7d", u .rightBrace "\x7d", rfl, rfl, rfl, rfl, rfl, rfl, rfl, rfl, rfl⟩
    let stop := t .endOfInput ""
    c.Spell [.declare 1 "i" none] (some (.name 1 "a")) (some (.assign 1 "i" (.name 1 "b")))
        (.ifThen 1 (.name 1 "c") (.print 1 (.name 1 "i"))) ∧
      c.NoEnd ∧ stop.kind = .endOfInput ∧
      ∃ s s', ReadAs (m.text c ++ [stop]) s ∧ ReadAs (m'.text c ++ [stop]) s' ∧ Same s s' := by
  intro t u c m m' stop
  have hname (a : String) : Phrase.Expression [t .identifier a] (.name 1 a) :=
    .of_primary (.name rfl (.lexeme nofun))
  have hword : (t .ifWord "if").kind = .ifWord := rfl
  have hprint : (t .printWord "print").kind = .printWord := rfl
  have hcondition : Phrase.Condition
      [t .leftParen "(", t .identifier "c", t .rightParen ")"] (.name 1 "c") :=
    .mk rfl (hname "c") rfl
  have hsemicolon : (t .semicolon ";").kind = .semicolon := rfl
  have hbody := Phrase.Statement.ifThen hword hcondition (.print hprint (hname "i") hsemicolon)
  have hassign : Phrase.Expression [t .identifier "i", t .equal "=", t .identifier "b"]
      (.assign 1 "i" (.name 1 "b")) := .assign rfl (.lexeme nofun) rfl (hname "b")
  have hspell : c.Spell [.declare 1 "i" none] (some (.name 1 "a"))
      (some (.assign 1 "i" (.name 1 "b"))) (.ifThen 1 (.name 1 "c") (.print 1 (.name 1 "i"))) :=
    ⟨.declare (.plain rfl rfl rfl), .some (hname "a"), .some hassign, ⟨true, hbody⟩⟩
  have hends : c.NoEnd := by decide
  exact ⟨hspell, hends, rfl, parse_for_eq_while hspell hends m m' rfl rfl⟩

end Loop

end Lox

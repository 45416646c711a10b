import Lox.Proofs.Grammar.Diagnosis
import Lox.Proofs.Token.Tokenization
import Mathlib.Data.List.Pairwise

/-!
# Where the lines of a tree are from

Every node that is read has a range of tokens of its own, which spell it, and its line is that of a
token in this range: of the operator, of the `=` or of the parenthesis of a call, and else of the
first token (`Phrase.Node.Mark`).  A `for` stands for more nodes than it spells; these have the
line of the word itself (`Phrase.Node.Supplied`).  `Phrase.Node.Traced` says so of a node and of all
nodes below it, whose ranges lie in its own, and it holds of every statement of a program
(`Token.parse_traced`).  The tokens of a text come with ascending lines, so no node has a line in
front of or behind its statement.
-/

namespace Lox

namespace Phrase

/-! ## Nodes -/

/-- A node of a syntax tree. -/
inductive Node where
  | expr (e : Expr)
  | stmt (s : Stmt)

namespace Node

/-- The line that messages about a node name. -/
def line : Node → Int
  | expr e => e.line
  | stmt s => s.line

/-- The nodes right below a node; the body of a function is a block. -/
def parts : Node → List Node
  | expr (.number _ _) | expr (.string _ _) | expr (.bool _ _) | expr (.nil _)
  | expr (.name _ _) => []
  | expr (.unary _ _ e) | expr (.group _ e) | expr (.assign _ _ e) => [expr e]
  | expr (.binary _ _ left right) | expr (.logical _ _ left right) => [expr left, expr right]
  | expr (.call _ _ arguments) => arguments.map expr
  | stmt (.expression _ e) | stmt (.print _ e) => [expr e]
  | stmt (.declare _ _ e?) | stmt (.giveBack _ e?) => e?.toList.map expr
  | stmt (.function _ _ _ bodyLine body) => [stmt (.block bodyLine body)]
  | stmt (.block _ body) => body.map stmt
  | stmt (.ifThen _ test yes) => [expr test, stmt yes]
  | stmt (.ifElse _ test yes no) => [expr test, stmt yes, stmt no]
  | stmt (.loop _ test body) => [expr test, stmt body]

/-- The first node is the second one or stands below it, at any depth. -/
inductive Within (n : Node) : Node → Prop
  | self : Within n n
  | part {m k : Node} (hpart : m ∈ k.parts) (h : Within n m) : Within n k

/-- The tokens `w`, all of them and no others, spell the node. -/
def Spelled (w : List Token) : Node → Prop
  | expr e => Expression w e
  | stmt s => ∃ o, Declaration o w s

/-! ## The token that a line is from -/

/-- The node has its line from a token that is not its first one. -/
def marksInside : Node → Bool
  | expr (.binary ..) | expr (.logical ..) | expr (.assign ..) | expr (.call ..) => true
  | _ => false

/-- The token among those of a node that gives the node its line. -/
inductive Mark : List Token → Node → Token → Prop
  | operator {v u : List Token} {t : Token} {level : Level} {left right e : Expr} {line : Int}
      (hop : Infix line left right level t.kind e) (hleft : Expression v left)
      (hright : Expression u right) : Mark (v ++ t :: u) (expr e) t
  | assign {name t : Token} {u : List Token} {value : Expr} {line : Int} {x : String}
      (hequals : t.kind = .equal) (hvalue : Expression u value) :
      Mark (name :: t :: u) (expr (.assign line x value)) t
  | call {name t : Token} {u : List Token} {args : List Expr} {line : Int} {f : String}
      (hparen : t.kind = .leftParen) : Mark (name :: t :: u) (expr (.call line f args)) t
  | first {t : Token} {u : List Token} {n : Node} (h : n.marksInside = false) : Mark (t :: u) n t

theorem Mark.mem {w : List Token} {n : Node} {t : Token} (h : Mark w n t) : t ∈ w := by
  cases h with
  | operator _ _ _ => exact List.mem_append_right _ (List.mem_cons_self ..)
  | assign _ _ | call _ => exact List.mem_cons_of_mem _ (List.mem_cons_self ..)
  | first _ => exact List.mem_cons_self ..

end Node

/-- The tokens of a `for`: its word, its clauses and its body. -/
inductive ForLoop : List Token → Token → List Stmt → Option Expr → Option Expr → Stmt → Prop
  | mk {word paren : Token} {u v w x : List Token} {start : List Stmt} {test step : Option Expr}
      {o : Bool} {body : Stmt} (hword : word.kind = .forWord) (hparen : paren.kind = .leftParen)
      (hstart : ForStart u start) (htest : Optional .semicolon v test)
      (hstep : Optional .rightParen w step) (hbody : Statement o x body) :
      ForLoop (word :: paren :: u ++ v ++ w ++ x) word start test step body

namespace Node

/-- What a `for` repeats: its body, with the last clause behind it. -/
def forBody (line : Int) (step : Option Expr) (body : Stmt) : Stmt :=
  step.elim body fun e => .block line [body, .expression line e]

/-- The loop that a `for` stands for; without a condition it goes on. -/
def forWhile (line : Int) (test step : Option Expr) (body : Stmt) : Stmt :=
  .loop line (test.getD (.bool line true)) (forBody line step body)

/-- The nodes that a `for` supplies, beside those of its clauses and its body. -/
inductive Supplied (line : Int) (start : List Stmt) (body : Stmt) :
    Option Expr → Option Expr → Node → Prop
  | outer {test step : Option Expr} :
      Supplied line start body test step
        (stmt (.block line (start ++ [forWhile line test step body])))
  | loop {test step : Option Expr} :
      Supplied line start body test step (stmt (forWhile line test step body))
  | condition {step : Option Expr} : Supplied line start body none step (expr (.bool line true))
  | inner {test : Option Expr} {e : Expr} :
      Supplied line start body test (some e) (stmt (.block line [body, .expression line e]))
  | increment {test : Option Expr} {e : Expr} :
      Supplied line start body test (some e) (stmt (.expression line e))

/-- The node and all nodes below it have their lines from tokens in their own ranges, one inside of
the other and all of them among `ts`. -/
inductive Traced : List Token → Node → Prop
  | read {ts w : List Token} {n : Node} {t : Token} (hwithin : w <:+: ts) (hspelled : n.Spelled w)
      (hmark : n.Mark w t) (hline : n.line = t.line) (hparts : ∀ m ∈ n.parts, Traced w m) :
      Traced ts n
  | supplied {ts w : List Token} {n : Node} {word : Token} {start : List Stmt}
      {test step : Option Expr} {body : Stmt} (hwithin : w <:+: ts)
      (hloop : ForLoop w word start test step body)
      (hsupplied : Supplied word.line start body test step n) (hline : n.line = word.line)
      (hparts : ∀ m ∈ n.parts, Traced w m) : Traced ts n

/-- Further tokens around those of a node do not matter. -/
theorem Traced.mono {w ts : List Token} {n : Node} (h : Traced w n) (hwithin : w <:+: ts) :
    Traced ts n := by
  cases h with
  | read hw hspelled hmark hline hparts =>
    exact .read (hw.trans hwithin) hspelled hmark hline hparts
  | supplied hw hloop hsupplied hline hparts =>
    exact .supplied (hw.trans hwithin) hloop hsupplied hline hparts

theorem Traced.part {ts : List Token} {n m : Node} (h : Traced ts n) (hm : m ∈ n.parts) :
    Traced ts m := by
  cases h with
  | read hwithin _ _ _ hparts | supplied hwithin _ _ _ hparts =>
    exact (hparts m hm).mono hwithin

/-- What is traced is traced at any depth. -/
theorem Traced.within {ts : List Token} {n k : Node} (h : Traced ts k) (hn : n.Within k) :
    Traced ts n := by
  induction hn with
  | self => exact h
  | part hpart _ ih => exact ih (h.part hpart)

theorem Traced.exists_mem {ts : List Token} {n : Node} (h : Traced ts n) :
    ∃ t ∈ ts, n.line = t.line := by
  cases h with
  | read hwithin _ hmark hline _ => exact ⟨_, hwithin.subset hmark.mem, hline⟩
  | supplied hwithin hloop _ hline _ =>
    cases hloop with
    | mk => exact ⟨_, hwithin.subset (by simp), hline⟩

/-- A node that has its line from its first token. -/
theorem Traced.first {t : Token} {u : List Token} {n : Node} (hspelled : n.Spelled (t :: u))
    (hmark : n.marksInside = false) (hline : n.line = t.line)
    (hparts : ∀ m ∈ n.parts, Traced (t :: u) m) : Traced (t :: u) n :=
  .read List.infix_rfl hspelled (.first hmark) hline hparts

end Node

open Node

/-! ## Expressions -/

/-- Operands of some levels are operands of looser levels too. -/
theorem Operation.loosen {levels : List Level} {w : List Token} {e : Expr}
    (h : Operation levels w e) (looser : List Level) : Operation (looser ++ levels) w e := by
  induction looser with
  | nil => exact h
  | cons level looser ih => exact .tighter ih

theorem Expression.of_operation {levels : List Level} {w : List Token} {e : Expr}
    (hlevels : levels <:+ Level.all) (h : Operation levels w e) : Expression w e := by
  obtain ⟨looser, hall⟩ := hlevels
  have hloose := h.loosen looser
  rw [hall, levels_eq] at hloose
  exact .operation hloose

section

variable {line : Int} {left right e : Expr} {level : Level} {k : Token.Kind}

theorem Infix.line_eq (h : Infix line left right level k e) : (expr e).line = line := by
  cases h <;> rfl

theorem Infix.parts_eq (h : Infix line left right level k e) :
    (expr e).parts = [expr left, expr right] := by
  cases h <;> rfl

end

mutual

theorem Expression.traced : {w : List Token} → {e : Expr} → Expression w e → Traced w (expr e)
  | _, _, .assign hname hx hequals hvalue => by
    refine .read List.infix_rfl (Expression.assign hname hx hequals hvalue)
      (.assign hequals hvalue) rfl ?_
    exact List.forall_mem_singleton.mpr
      (hvalue.traced.mono ((List.suffix_cons ..).trans (List.suffix_cons ..)).isInfix)
  | _, _, .operation h => h.traced List.suffix_rfl

theorem Operation.traced : {levels : List Level} → {w : List Token} → {e : Expr} →
    Operation levels w e → levels <:+ Level.all → Traced w (expr e)
  | _, _, _, .unary h, _ => h.traced
  | _, _, _, .tighter h, hlevels => h.traced ((List.suffix_cons ..).trans hlevels)
  | _, _, _, @Operation.join _ _ v u op left right _ hleft hop hright, hlevels => by
    have htighter := (List.suffix_cons ..).trans hlevels
    have hl : Traced (v ++ op :: u) (expr left) :=
      (hleft.traced hlevels).mono (List.prefix_append ..).isInfix
    have hr : Traced (v ++ op :: u) (expr right) :=
      (hright.traced htighter).mono ((List.suffix_cons ..).trans (List.suffix_append ..)).isInfix
    refine .read List.infix_rfl (Expression.of_operation hlevels (.join hleft hop hright))
      (.operator hop (.of_operation hlevels hleft) (.of_operation htighter hright)) ?_ ?_
    · exact hop.line_eq
    · rw [hop.parts_eq]
      exact List.forall_mem_cons.mpr ⟨hl, List.forall_mem_singleton.mpr hr⟩

theorem Unary.traced : {w : List Token} → {e : Expr} → Unary w e → Traced w (expr e)
  | _, _, .not hop h => .first (.of_unary (.not hop h)) rfl rfl
    (List.forall_mem_singleton.mpr (h.traced.mono (List.suffix_cons ..).isInfix))
  | _, _, .negate hop h => .first (.of_unary (.negate hop h)) rfl rfl
    (List.forall_mem_singleton.mpr (h.traced.mono (List.suffix_cons ..).isInfix))
  | _, _, .call h => h.traced

theorem Call.traced : {w : List Token} → {e : Expr} → Call w e → Traced w (expr e)
  | _, _, .call hname hf hparen hargs hstop => by
    refine .read List.infix_rfl (Expression.of_unary (.call (.call hname hf hparen hargs hstop)))
      (.call hparen) rfl ?_
    intro m hm
    obtain ⟨e, he, rfl⟩ := List.mem_map.mp hm
    exact (hargs.traced e (List.mem_of_mem_take he)).mono (List.infix_append [_, _] _ [_])
  | _, _, .primary h => h.traced

theorem Primary.traced : {w : List Token} → {e : Expr} → Primary w e → Traced w (expr e)
  | _, _, .number h hx => .first (.of_primary (.number h hx)) rfl rfl (List.forall_mem_nil _)
  | _, _, .string h hs => .first (.of_primary (.string h hs)) rfl rfl (List.forall_mem_nil _)
  | _, _, .trueWord h => .first (.of_primary (.trueWord h)) rfl rfl (List.forall_mem_nil _)
  | _, _, .falseWord h => .first (.of_primary (.falseWord h)) rfl rfl (List.forall_mem_nil _)
  | _, _, .nilWord h => .first (.of_primary (.nilWord h)) rfl rfl (List.forall_mem_nil _)
  | _, _, .name h hx => .first (.of_primary (.name h hx)) rfl rfl (List.forall_mem_nil _)
  | _, _, .group hparen h hstop => .first (.of_primary (.group hparen h hstop)) rfl rfl
    (List.forall_mem_singleton.mpr (h.traced.mono (List.infix_append [_] _ [_])))

theorem Arguments.traced : {w : List Token} → {es : List Expr} → Arguments w es →
    ∀ e ∈ es, Traced w (expr e)
  | _, _, .none => List.forall_mem_nil _
  | _, _, .some h => h.traced

theorem ArgumentList.traced : {w : List Token} → {es : List Expr} → ArgumentList w es →
    ∀ e ∈ es, Traced w (expr e)
  | _, _, .one h => List.forall_mem_singleton.mpr h.traced
  | _, _, .more hfirst _ hrest => List.forall_mem_cons.mpr
    ⟨hfirst.traced.mono (List.prefix_append ..).isInfix,
      fun e he => (hrest.traced e he).mono
        ((List.suffix_cons ..).trans (List.suffix_append ..)).isInfix⟩

end

/-! ## Parts of statements -/

theorem Optional.traced {stop : Token.Kind} {w : List Token} {value : Option Expr}
    (h : Optional stop w value) : ∀ m ∈ value.toList.map expr, Traced w m := by
  cases h with
  | none _ => exact List.forall_mem_nil _
  | some he _ =>
    exact List.forall_mem_singleton.mpr (he.traced.mono (List.prefix_append ..).isInfix)

theorem Condition.traced {w : List Token} {e : Expr} (h : Condition w e) : Traced w (expr e) := by
  cases h with
  | mk _ he _ => exact he.traced.mono (List.infix_append [_] _ [_])

theorem Variable.traced {w : List Token} {s : Stmt} (h : Variable w s) : Traced w (stmt s) := by
  have hspelled : Spelled w (stmt s) := ⟨false, .declare h⟩
  cases h with
  | plain _ _ _ => exact .first hspelled rfl rfl (List.forall_mem_nil _)
  | initialized _ _ _ hvalue _ =>
    exact .first hspelled rfl rfl
      (List.forall_mem_singleton.mpr (hvalue.traced.mono (List.infix_append [_, _, _] _ [_])))

theorem ExpressionStatement.traced {w : List Token} {s : Stmt} (h : ExpressionStatement w s) :
    Traced w (stmt s) := by
  have hspelled : Spelled w (stmt s) := ⟨false, .statement (.expression h)⟩
  cases h with
  | mk he _ =>
    exact .first hspelled rfl rfl
      (List.forall_mem_singleton.mpr (he.traced.mono (List.prefix_append ..).isInfix))

theorem ForStart.traced {w : List Token} {start : List Stmt} (h : ForStart w start) :
    ∀ s ∈ start, Traced w (stmt s) := by
  cases h with
  | none _ => exact List.forall_mem_nil _
  | declare h => exact List.forall_mem_singleton.mpr h.traced
  | expression h => exact List.forall_mem_singleton.mpr h.traced

/-! ## Blocks and loops -/

theorem traced_block {brace closing : Token} {w : List Token} {body : List Stmt}
    (hbrace : brace.kind = .leftBrace) (hbody : Declarations w body)
    (hclosing : closing.kind = .rightBrace) (hstatements : ∀ s ∈ body, Traced w (stmt s)) :
    Traced (brace :: w ++ [closing]) (stmt (.block brace.line body)) := by
  refine .first ⟨false, .statement (.block hbrace hbody hclosing)⟩ rfl rfl fun m hm => ?_
  obtain ⟨s, hs, rfl⟩ := List.mem_map.mp hm
  exact (hstatements s hs).mono (List.infix_append [_] _ [_])

/-- The nodes that a `for` supplies are traced if those of its clauses and its body are. -/
theorem ForLoop.traced {ts : List Token} {word : Token} {start : List Stmt}
    {test step : Option Expr} {body : Stmt} (h : ForLoop ts word start test step body)
    (hstart : ∀ s ∈ start, Traced ts (stmt s)) (htest : ∀ m ∈ test.toList.map expr, Traced ts m)
    (hstep : ∀ m ∈ step.toList.map expr, Traced ts m) (hbody : Traced ts (stmt body)) :
    Traced ts (stmt (.block word.line (start ++ [forWhile word.line test step body]))) := by
  have hinner : Traced ts (stmt (forBody word.line step body)) := by
    cases step with
    | none => exact hbody
    | some e =>
      have hincrement : Traced ts (stmt (.expression word.line e)) :=
        .supplied List.infix_rfl h .increment rfl hstep
      exact .supplied List.infix_rfl h .inner rfl
        (List.forall_mem_cons.mpr ⟨hbody, List.forall_mem_singleton.mpr hincrement⟩)
  have hcondition : Traced ts (expr (test.getD (.bool word.line true))) := by
    cases test with
    | none => exact .supplied List.infix_rfl h .condition rfl (List.forall_mem_nil _)
    | some e => exact htest _ (List.mem_singleton_self _)
  have hloop : Traced ts (stmt (forWhile word.line test step body)) :=
    .supplied List.infix_rfl h .loop rfl
      (List.forall_mem_cons.mpr ⟨hcondition, List.forall_mem_singleton.mpr hinner⟩)
  refine .supplied List.infix_rfl h .outer rfl fun m hm => ?_
  obtain ⟨s, hs, rfl⟩ := List.mem_map.mp hm
  rcases List.mem_append.mp hs with hs | hs
  · exact hstart s hs
  · obtain rfl := List.mem_singleton.mp hs
    exact hloop

/-! ## Statements -/

mutual

theorem Declaration.traced : {o : Bool} → {w : List Token} → {s : Stmt} → Declaration o w s →
    Traced w (stmt s)
  | _, _, _, .declare h => h.traced
  | _, _, _, @Declaration.function word name paren stop _ _ v _ _ _ hword hname hparen hparams
      hstop hbrace hbody hclosing => by
    have hspelled := Declaration.function hword hname hparen hparams hstop hbrace hbody hclosing
    have hblock := traced_block hbrace hbody hclosing hbody.traced
    refine .first ⟨false, hspelled⟩ rfl rfl (List.forall_mem_singleton.mpr (hblock.mono ?_))
    exact ⟨word :: name :: paren :: v ++ [stop], [], by simp⟩
  | _, _, _, .statement h => h.traced

theorem Statement.traced : {o : Bool} → {w : List Token} → {s : Stmt} → Statement o w s →
    Traced w (stmt s)
  | _, _, _, .expression h => h.traced
  | _, _, _, .print hword he hstop =>
    .first ⟨false, .statement (.print hword he hstop)⟩ rfl rfl
      (List.forall_mem_singleton.mpr (he.traced.mono (List.infix_append [_] _ [_])))
  | _, _, _, .giveBack hword hvalue =>
    .first ⟨false, .statement (.giveBack hword hvalue)⟩ rfl rfl
      fun m hm => (hvalue.traced m hm).mono (List.suffix_cons ..).isInfix
  | _, _, _, .block hbrace hbody hclosing => traced_block hbrace hbody hclosing hbody.traced
  | _, _, _, .ifThen hword htest hyes =>
    .first ⟨true, .statement (.ifThen hword htest hyes)⟩ rfl rfl (List.forall_mem_cons.mpr
      ⟨htest.traced.mono (List.infix_append [_] _ _), List.forall_mem_singleton.mpr
        (hyes.traced.mono (List.suffix_append (_ :: _) _).isInfix)⟩)
  | o, _, _, @Statement.ifElse word other u v w _ _ _ _ hword htest hyes hother hno => by
    have hfront : u <:+: word :: u ++ v ++ other :: w :=
      (List.infix_append [word] u v).trans (List.prefix_append ..).isInfix
    have hbehind : w <:+: word :: u ++ v ++ other :: w :=
      ((List.suffix_cons ..).trans (List.suffix_append ..)).isInfix
    refine .first ⟨o, .statement (.ifElse hword htest hyes hother hno)⟩ rfl rfl ?_
    exact List.forall_mem_cons.mpr ⟨htest.traced.mono hfront, List.forall_mem_cons.mpr
      ⟨hyes.traced.mono (List.infix_append (word :: u) v _), List.forall_mem_singleton.mpr
        (hno.traced.mono hbehind)⟩⟩
  | o, _, _, .loop hword htest hbody =>
    .first ⟨o, .statement (.loop hword htest hbody)⟩ rfl rfl (List.forall_mem_cons.mpr
      ⟨htest.traced.mono (List.infix_append [_] _ _), List.forall_mem_singleton.mpr
        (hbody.traced.mono (List.suffix_append (_ :: _) _).isInfix)⟩)
  | _, _, _, @Statement.forLoop word paren u v w x _ _ _ _ _ hword hparen hstart htest hstep
      hbody => by
    have hu : u <:+: word :: paren :: u ++ v ++ w ++ x :=
      (List.infix_append [word, paren] u v).trans
        ((List.prefix_append ..).trans (List.prefix_append ..)).isInfix
    have hv : v <:+: word :: paren :: u ++ v ++ w ++ x :=
      (List.infix_append (word :: paren :: u) v w).trans (List.prefix_append ..).isInfix
    exact (ForLoop.mk hword hparen hstart htest hstep hbody).traced
      (fun s hs => (hstart.traced s hs).mono hu) (fun m hm => (htest.traced m hm).mono hv)
      (fun m hm => (hstep.traced m hm).mono (List.infix_append ..))
      (hbody.traced.mono (List.suffix_append ..).isInfix)

theorem Declarations.traced : {w : List Token} → {body : List Stmt} → Declarations w body →
    ∀ s ∈ body, Traced w (stmt s)
  | _, _, .nil => List.forall_mem_nil _
  | _, _, .cons hfirst hrest => List.forall_mem_cons.mpr
    ⟨hfirst.traced.mono (List.prefix_append ..).isInfix,
      fun s hs => (hrest.traced s hs).mono (List.suffix_append ..).isInfix⟩

end

end Phrase

namespace Token

open Phrase (Node)

/-! ## The lines of tokens -/

/-- Tokens do not stand on a line in front of the text that they are from. -/
theorem Scans.lineBehind_le {before rest : List Char} {ts : List Token} {es : List ScanError}
    (h : Scans before rest ts es) : ∀ t ∈ ts, lineBehind before ≤ t.line := by
  have hmono (before w : List Char) : lineBehind before ≤ lineBehind (before ++ w) := by
    rw [lineBehind, lineBehind, List.count_append]
    omega
  induction h with
  | done =>
    intro t ht
    obtain rfl := List.mem_singleton.mp ht
    exact Int.le_refl _
  | skip _ _ _ ih | flaw _ _ ih => exact fun t ht => Int.le_trans (hmono ..) (ih t ht)
  | token _ _ ih =>
    exact List.forall_mem_cons.mpr ⟨Int.le_refl _, fun t ht => Int.le_trans (hmono ..) (ih t ht)⟩

/-- The lines of the tokens of a text ascend. -/
theorem Scans.ascending {before rest : List Char} {ts : List Token} {es : List ScanError}
    (h : Scans before rest ts es) : ts.Pairwise fun t u => t.line ≤ u.line := by
  induction h with
  | done => exact List.pairwise_singleton ..
  | skip _ _ _ ih | flaw _ _ ih => exact ih
  | @token before w _ _ _ _ _ _ hscans ih =>
    refine List.pairwise_cons.mpr ⟨fun t ht => ?_, ih⟩
    have hle := hscans.lineBehind_le t ht
    rw [lineBehind, List.count_append] at hle
    dsimp only [lineBehind]
    omega

/-! ## Programs -/

/-- The tokens at the positions of a range. -/
def Range.tokens (r : Range) (ts : List Token) : List Token :=
  (ts.drop r.start).take (r.stop - r.start)

/-- The statement is made of the tokens in the range, and every node in it has its line from a token
in a range of its own. -/
structure TracedIn (tokens : List Token) (s : Stmt) (r : Range) : Prop where
  inside : r.start < r.stop ∧ r.stop ≤ tokens.length
  made : Grammar.declaration ((beforeEnd tokens).drop r.start) = .made s (r.stop - r.start)
  traced : ∀ n : Node, n.Within (.stmt s) → n.Traced (r.tokens tokens)

/-- No node in the statement has a line in front of the first token in the range, or behind the
last one. -/
def EnclosedIn (tokens : List Token) (s : Stmt) (r : Range) : Prop :=
  ∃ first last, (r.tokens tokens).head? = some first ∧ (r.tokens tokens).getLast? = some last ∧
    ∀ n : Node, n.Within (.stmt s) → first.line ≤ n.line ∧ n.line ≤ last.line

theorem exists_beforeEnd_append (tokens : List Token) :
    ∃ after, beforeEnd tokens ++ after = tokens :=
  List.takeWhile_prefix _

/-- A declaration that is read is spelled by the tokens in its range. -/
theorem exists_tokens {tokens : List Token} {s : Stmt} {r : Range}
    (h : Grammar.declaration ((beforeEnd tokens).drop r.start) = .made s (r.stop - r.start)) :
    (∃ o, Phrase.Declaration o (r.tokens tokens) s) ∧
      r.start < r.stop ∧ r.stop ≤ tokens.length := by
  obtain ⟨after, hafter⟩ := exists_beforeEnd_append tokens
  have hfits := Grammar.declaration_fits ((beforeEnd tokens).drop r.start)
  rw [h] at hfits
  obtain ⟨w, rest, hdrop, hlength, o, hw, -⟩ := hfits
  have hpos : 0 < w.length := List.length_pos_iff.mpr hw.ne_nil
  have hle : r.start + (w.length + rest.length) = (beforeEnd tokens).length := by
    have hlengths := congrArg List.length hdrop
    rw [List.length_drop, List.length_append] at hlengths
    omega
  have htokens : r.tokens tokens = w := by
    rw [Range.tokens, ← hafter, List.drop_append_of_le_length (by omega), hdrop, ← hlength,
      List.append_assoc, List.take_left]
  have htotal := congrArg List.length hafter
  rw [List.length_append] at htotal
  exact ⟨⟨o, htokens ▸ hw⟩, by omega, by omega⟩

theorem tracedIn_statementRanges (tokens : List Token) :
    List.Forall₂ (TracedIn tokens) (parse tokens).program.body (statementRanges tokens) := by
  refine (Grammar.made_statementRanges 0 (beforeEnd tokens)).imp fun s r hr => ?_
  obtain ⟨⟨o, hspelled⟩, hinside⟩ := exists_tokens hr.2
  exact ⟨hinside, hr.2, fun n hn => hspelled.traced.within hn⟩

/-- Among tokens with ascending lines, a statement encloses the lines of its nodes. -/
theorem TracedIn.enclosed {tokens : List Token} {s : Stmt} {r : Range}
    (h : TracedIn tokens s r) (hlines : tokens.Pairwise fun t u => t.line ≤ u.line) :
    EnclosedIn tokens s r := by
  have hpairwise : (r.tokens tokens).Pairwise fun t u => t.line ≤ u.line :=
    hlines.sublist ((List.take_sublist ..).trans (List.drop_sublist ..))
  obtain ⟨t, ht, -⟩ := (h.traced _ .self).exists_mem
  have hne : r.tokens tokens ≠ [] := List.ne_nil_of_mem ht
  refine ⟨_, _, List.head?_eq_some_head hne, List.getLast?_eq_some_getLast hne, fun n hn => ?_⟩
  obtain ⟨t, ht, hline⟩ := (h.traced n hn).exists_mem
  rw [hline]
  exact ⟨hpairwise.rel_head_of_rel_head_head ht (Int.le_refl _),
    hpairwise.rel_getLast_of_rel_getLast_getLast ht (Int.le_refl _)⟩

/-- Whatever the tokens are, every node of every statement has its line from a token in its own
range, and the nodes that a `for` supplies have the line of the `for`; the lines in a statement of a
text lie between those of its first and its last token. -/
theorem parse_traced :
    (∀ tokens, List.Forall₂ (TracedIn tokens) (parse tokens).program.body
      (statementRanges tokens)) ∧
    ∀ source, List.Forall₂ (EnclosedIn (scan source).tokens)
      (parse (scan source).tokens).program.body (statementRanges (scan source).tokens) := by
  refine ⟨tracedIn_statementRanges, fun source => ?_⟩
  have hlines := (scans_scanBehind [] source.toList).ascending
  rw [← scan_eq_scanBehind] at hlines
  exact (tracedIn_statementRanges _).imp fun s r h => h.enclosed hlines

end Token

end Lox

import Lox.Grammar.Statement

/-!
# Phrases

The grammar as relations between tokens and trees: `Phrase.Expression w e` says that the tokens `w`,
all of them and no others, spell the expression `e`.  Nothing here looks ahead, recovers or gets
stuck; that the rules of `Grammar` find exactly these phrases is shown elsewhere.

Left recursion is allowed in a relation, so an infix operator simply takes an operand of its own
level on the left and a tighter one on the right.  For `else` there are two kinds of statements: an
open one ends with an `if` that could still take an `else`, and only a closed one may stand between
an `if` and its `else`.

The grammar is complete in itself: which tokens are operators, how tightly they bind, what they
build, what a literal is worth and how many arguments are kept is all written down here.  That the
tables of `Grammar` say the same is proved below (`infix_iff`, `numberOf_iff`, `textOf_iff`).
-/

namespace Lox

namespace Phrase

/-! ## Operators and literals -/

/-- The infix operators of each level, with what they make of two operands on a line. -/
inductive Infix (line : Int) (left right : Expr) : Level → Token.Kind → Expr → Prop
  | or : Infix line left right .or .orWord (.logical line .or left right)
  | and : Infix line left right .and .andWord (.logical line .and left right)
  | equal : Infix line left right .equality .equalEqual (.binary line .equal left right)
  | notEqual : Infix line left right .equality .bangEqual (.binary line .notEqual left right)
  | greater : Infix line left right .comparison .greater (.binary line (.order .greater) left right)
  | greaterEqual : Infix line left right .comparison .greaterEqual
      (.binary line (.order .greaterEqual) left right)
  | less : Infix line left right .comparison .less (.binary line (.order .less) left right)
  | lessEqual : Infix line left right .comparison .lessEqual
      (.binary line (.order .lessEqual) left right)
  | subtract : Infix line left right .sum .minus (.binary line (.arithmetic .subtract) left right)
  | add : Infix line left right .sum .plus (.binary line (.arithmetic .add) left right)
  | divide : Infix line left right .product .slash (.binary line (.arithmetic .divide) left right)
  | multiply : Infix line left right .product .star
      (.binary line (.arithmetic .multiply) left right)

/-- The number that a token stands for: its payload, or else what its source text reads as. -/
inductive NumberOf (t : Token) : Float → Prop
  | payload {x : Float} (h : t.literal = some (.number x)) : NumberOf t x
  | lexeme (h : ∀ x, t.literal ≠ some (.number x)) :
      NumberOf t (Number.Numeral.read t.lexeme).toFloat

/-- The text that a token stands for: its payload, or else its source text. -/
inductive TextOf (t : Token) : String → Prop
  | payload {s : String} (h : t.literal = some (.text s)) : TextOf t s
  | lexeme (h : ∀ s, t.literal ≠ some (.text s)) : TextOf t t.lexeme

/-! ## Expressions -/

mutual

/-- An assignment, or operands joined by infix operators. -/
inductive Expression : List Token → Expr → Prop
  | assign {name equals : Token} {w : List Token} {x : String} {value : Expr}
      (hname : name.kind = .identifier) (hx : TextOf name x) (hequals : equals.kind = .equal)
      (hvalue : Expression w value) :
      Expression (name :: equals :: w) (.assign equals.line x value)
  | operation {w : List Token} {e : Expr}
      (h : Operation [.or, .and, .equality, .comparison, .sum, .product] w e) : Expression w e

/-- Operands of the given levels, the loosest first, joined by the infix operators of these levels;
the operators of one level group to the left. -/
inductive Operation : List Level → List Token → Expr → Prop
  | unary {w : List Token} {e : Expr} (h : Unary w e) : Operation [] w e
  | tighter {level : Level} {tighter : List Level} {w : List Token} {e : Expr}
      (h : Operation tighter w e) : Operation (level :: tighter) w e
  | join {level : Level} {tighter : List Level} {v w : List Token} {op : Token}
      {left right e : Expr} (hleft : Operation (level :: tighter) v left)
      (hop : Infix op.line left right level op.kind e) (hright : Operation tighter w right) :
      Operation (level :: tighter) (v ++ op :: w) e

/-- Any number of operators in front of a call or a primary expression. -/
inductive Unary : List Token → Expr → Prop
  | not {op : Token} {w : List Token} {e : Expr} (hop : op.kind = .bang) (h : Unary w e) :
      Unary (op :: w) (.unary op.line .not e)
  | negate {op : Token} {w : List Token} {e : Expr} (hop : op.kind = .minus) (h : Unary w e) :
      Unary (op :: w) (.unary op.line .negate e)
  | call {w : List Token} {e : Expr} (h : Call w e) : Unary w e

/-- A name with one list of arguments, or a primary expression. -/
inductive Call : List Token → Expr → Prop
  | call {name paren stop : Token} {w : List Token} {f : String} {args : List Expr}
      (hname : name.kind = .identifier) (hf : TextOf name f) (hparen : paren.kind = .leftParen)
      (hargs : Arguments w args) (hstop : stop.kind = .rightParen) :
      Call (name :: paren :: w ++ [stop]) (.call paren.line f (args.take 255))
  | primary {w : List Token} {e : Expr} (h : Primary w e) : Call w e

/-- A literal, a name, or an expression in parentheses. -/
inductive Primary : List Token → Expr → Prop
  | number {t : Token} {x : Float} (h : t.kind = .number) (hx : NumberOf t x) :
      Primary [t] (.number t.line x)
  | string {t : Token} {s : String} (h : t.kind = .string) (hs : TextOf t s) :
      Primary [t] (.string t.line s)
  | trueWord {t : Token} (h : t.kind = .trueWord) : Primary [t] (.bool t.line true)
  | falseWord {t : Token} (h : t.kind = .falseWord) : Primary [t] (.bool t.line false)
  | nilWord {t : Token} (h : t.kind = .nilWord) : Primary [t] (.nil t.line)
  | name {t : Token} {x : String} (h : t.kind = .identifier) (hx : TextOf t x) :
      Primary [t] (.name t.line x)
  | group {paren stop : Token} {w : List Token} {e : Expr} (hparen : paren.kind = .leftParen)
      (h : Expression w e) (hstop : stop.kind = .rightParen) :
      Primary (paren :: w ++ [stop]) (.group paren.line e)

/-- What stands between the parentheses of a call: nothing, or expressions with commas between
them. -/
inductive Arguments : List Token → List Expr → Prop
  | none : Arguments [] []
  | some {w : List Token} {es : List Expr} (h : ArgumentList w es) : Arguments w es

/-- At least one expression, with commas between them. -/
inductive ArgumentList : List Token → List Expr → Prop
  | one {w : List Token} {e : Expr} (h : Expression w e) : ArgumentList w [e]
  | more {v w : List Token} {comma : Token} {e : Expr} {es : List Expr} (hfirst : Expression v e)
      (hcomma : comma.kind = .comma) (hrest : ArgumentList w es) :
      ArgumentList (v ++ comma :: w) (e :: es)

end

theorem Operation.of_unary {w : List Token} {e : Expr} (h : Unary w e) (levels : List Level) :
    Operation levels w e := by
  induction levels with
  | nil => exact .unary h
  | cons level tighter ih => exact .tighter ih

/-- An expression without infix operators is an expression. -/
theorem Expression.of_unary {w : List Token} {e : Expr} (h : Unary w e) : Expression w e :=
  .operation (.of_unary h _)

/-- A primary expression is an expression. -/
theorem Expression.of_primary {w : List Token} {e : Expr} (h : Primary w e) : Expression w e :=
  .of_unary (.call (.primary h))

/-! ## The tables of the rules -/

/-- The table of the rules has the infix operators of the grammar. -/
theorem infix_iff {line : Int} {left right e : Expr} {level : Level} {k : Token.Kind} :
    Infix line left right level k e ↔
      ∃ joint, level.joint? k = some joint ∧ joint.build line left right = e := by
  constructor
  · intro h
    cases h <;> exact ⟨_, rfl, rfl⟩
  · rintro ⟨joint, hjoint, rfl⟩
    unfold Level.joint? at hjoint
    split at hjoint
    all_goals cases hjoint
    all_goals constructor

theorem Operation.of_joint {level : Level} {tighter : List Level} {v w : List Token} {op : Token}
    {joint : Joint} {left right : Expr} (hleft : Operation (level :: tighter) v left)
    (hop : level.joint? op.kind = some joint) (hright : Operation tighter w right) :
    Operation (level :: tighter) (v ++ op :: w) (joint.build op.line left right) :=
  .join hleft (infix_iff.mpr ⟨joint, hop, rfl⟩) hright

theorem levels_eq : Level.all = [.or, .and, .equality, .comparison, .sum, .product] := rfl

@[simp] theorem maxArguments_eq : maxArguments = 255 := rfl

theorem numberOf_iff {t : Token} {x : Float} : NumberOf t x ↔ t.numberValue = x := by
  unfold Token.numberValue
  constructor
  · intro h
    cases h with
    | payload h => rw [h]
    | lexeme h =>
      split
      · exact absurd ‹_› (h _)
      · rfl
  · rintro rfl
    split
    · exact .payload ‹_›
    · exact .lexeme ‹_›

theorem textOf_iff {t : Token} {s : String} : TextOf t s ↔ t.textValue = s := by
  unfold Token.textValue
  constructor
  · intro h
    cases h with
    | payload h => rw [h]
    | lexeme h =>
      split
      · exact absurd ‹_› (h _)
      · rfl
  · rintro rfl
    split
    · exact .payload ‹_›
    · exact .lexeme ‹_›

theorem numberOf_numberValue (t : Token) : NumberOf t t.numberValue := numberOf_iff.mpr rfl

theorem textOf_textValue (t : Token) : TextOf t t.textValue := textOf_iff.mpr rfl

/-! ## Parts of statements -/

/-- An expression that may be missing, with the token that ends it. -/
inductive Optional (stop : Token.Kind) : List Token → Option Expr → Prop
  | none {t : Token} (h : t.kind = stop) : Optional stop [t] none
  | some {w : List Token} {t : Token} {e : Expr} (he : Expression w e) (h : t.kind = stop) :
      Optional stop (w ++ [t]) (some e)

/-- A variable declaration. -/
inductive Variable : List Token → Stmt → Prop
  | plain {word name stop : Token} (hword : word.kind = .varWord) (hname : name.kind = .identifier)
      (hstop : stop.kind = .semicolon) :
      Variable [word, name, stop] (.declare word.line name.lexeme none)
  | initialized {word name equals stop : Token} {w : List Token} {value : Expr}
      (hword : word.kind = .varWord) (hname : name.kind = .identifier)
      (hequals : equals.kind = .equal) (hvalue : Expression w value)
      (hstop : stop.kind = .semicolon) :
      Variable (word :: name :: equals :: w ++ [stop])
        (.declare word.line name.lexeme (some value))

/-- An expression with the semicolon after it. -/
inductive ExpressionStatement : List Token → Stmt → Prop
  | mk {first stop : Token} {w : List Token} {e : Expr} (he : Expression (first :: w) e)
      (hstop : stop.kind = .semicolon) :
      ExpressionStatement (first :: w ++ [stop]) (.expression first.line e)

/-- The first clause of a `for` with its semicolon, as the statements that it stands for. -/
inductive ForStart : List Token → List Stmt → Prop
  | none {stop : Token} (hstop : stop.kind = .semicolon) : ForStart [stop] []
  | declare {w : List Token} {s : Stmt} (h : Variable w s) : ForStart w [s]
  | expression {w : List Token} {s : Stmt} (h : ExpressionStatement w s) : ForStart w [s]

/-- What stands between the parentheses of a function: nothing, or names with commas between
them. -/
inductive Parameters : List Token → List String → Prop
  | none : Parameters [] []
  | one {name : Token} (hname : name.kind = .identifier) : Parameters [name] [name.lexeme]
  | more {name comma first : Token} {w : List Token} {xs : List String}
      (hname : name.kind = .identifier) (hcomma : comma.kind = .comma)
      (hrest : Parameters (first :: w) xs) :
      Parameters (name :: comma :: first :: w) (name.lexeme :: xs)

/-- The condition of an `if` or a `while`, in parentheses. -/
inductive Condition : List Token → Expr → Prop
  | mk {paren stop : Token} {w : List Token} {e : Expr} (hparen : paren.kind = .leftParen)
      (he : Expression w e) (hstop : stop.kind = .rightParen) : Condition (paren :: w ++ [stop]) e

/-! ## Statements -/

mutual

/-- A declaration; the flag says whether it is open. -/
inductive Declaration : Bool → List Token → Stmt → Prop
  | declare {w : List Token} {s : Stmt} (h : Variable w s) : Declaration false w s
  | function {word name paren stop brace closing : Token} {v w : List Token} {xs : List String}
      {body : List Stmt} (hword : word.kind = .funWord) (hname : name.kind = .identifier)
      (hparen : paren.kind = .leftParen) (hparams : Parameters v xs)
      (hstop : stop.kind = .rightParen) (hbrace : brace.kind = .leftBrace)
      (hbody : Declarations w body) (hclosing : closing.kind = .rightBrace) :
      Declaration false (word :: name :: paren :: v ++ stop :: brace :: w ++ [closing])
        (.function word.line name.lexeme (xs.take 255) brace.line body)
  | statement {o : Bool} {w : List Token} {s : Stmt} (h : Statement o w s) : Declaration o w s

/-- A statement that declares nothing; the flag says whether it is open. -/
inductive Statement : Bool → List Token → Stmt → Prop
  | expression {w : List Token} {s : Stmt} (h : ExpressionStatement w s) : Statement false w s
  | print {word stop : Token} {w : List Token} {e : Expr} (hword : word.kind = .printWord)
      (he : Expression w e) (hstop : stop.kind = .semicolon) :
      Statement false (word :: w ++ [stop]) (.print word.line e)
  | giveBack {word : Token} {w : List Token} {value : Option Expr}
      (hword : word.kind = .returnWord) (hvalue : Optional .semicolon w value) :
      Statement false (word :: w) (.giveBack word.line value)
  | block {brace closing : Token} {w : List Token} {body : List Stmt}
      (hbrace : brace.kind = .leftBrace) (hbody : Declarations w body)
      (hclosing : closing.kind = .rightBrace) :
      Statement false (brace :: w ++ [closing]) (.block brace.line body)
  | ifThen {word : Token} {u v : List Token} {test : Expr} {o : Bool} {yes : Stmt}
      (hword : word.kind = .ifWord) (htest : Condition u test) (hyes : Statement o v yes) :
      Statement true (word :: u ++ v) (.ifThen word.line test yes)
  | ifElse {word other : Token} {u v w : List Token} {test : Expr} {o : Bool} {yes no : Stmt}
      (hword : word.kind = .ifWord) (htest : Condition u test) (hyes : Statement false v yes)
      (hother : other.kind = .elseWord) (hno : Statement o w no) :
      Statement o (word :: u ++ v ++ other :: w) (.ifElse word.line test yes no)
  | loop {word : Token} {u v : List Token} {test : Expr} {o : Bool} {body : Stmt}
      (hword : word.kind = .whileWord) (htest : Condition u test) (hbody : Statement o v body) :
      Statement o (word :: u ++ v) (.loop word.line test body)
  | forLoop {word paren : Token} {u v w x : List Token} {start : List Stmt}
      {test step : Option Expr} {o : Bool} {body : Stmt} (hword : word.kind = .forWord)
      (hparen : paren.kind = .leftParen) (hstart : ForStart u start)
      (htest : Optional .semicolon v test) (hstep : Optional .rightParen w step)
      (hbody : Statement o x body) :
      Statement o (word :: paren :: u ++ v ++ w ++ x)
        (.block word.line (start ++ [.loop word.line (test.getD (.bool word.line true))
          (step.elim body fun e => .block word.line [body, .expression word.line e])]))

/-- Declarations, one after the other. -/
inductive Declarations : List Token → List Stmt → Prop
  | nil : Declarations [] []
  | cons {o : Bool} {v w : List Token} {s : Stmt} {ss : List Stmt} (hfirst : Declaration o v s)
      (hrest : Declarations w ss) : Declarations (v ++ w) (s :: ss)

end

/-! ## Statements and what follows them -/

/-- Nothing in the rest can still belong to a statement in front of it. -/
def Ends (o : Bool) (rest : List Token) : Prop :=
  o = true → startsWith .elseWord rest = false

/-- A statement in front of a rest that it cannot take. -/
def StatementBefore (w : List Token) (s : Stmt) (rest : List Token) : Prop :=
  ∃ o, Statement o w s ∧ Ends o rest

/-- A declaration in front of a rest that it cannot take. -/
def DeclarationBefore (w : List Token) (s : Stmt) (rest : List Token) : Prop :=
  ∃ o, Declaration o w s ∧ Ends o rest

/-! ## How phrases begin -/

/-- An expression can begin with a token of this kind. -/
def startsExpression : Token.Kind → Bool
  | .bang | .minus | .leftParen | .number | .string | .trueWord | .falseWord | .nilWord
  | .identifier => true
  | _ => false

/-- A declaration can begin with a token of this kind. -/
def startsDeclaration : Token.Kind → Bool
  | .varWord | .funWord | .printWord | .ifWord | .whileWord | .forWord | .returnWord
  | .leftBrace => true
  | k => startsExpression k

theorem kind_ne_of {starts : Token.Kind → Bool} {t : Token} {k : Token.Kind}
    (ht : starts t.kind = true) (hk : starts k = false) : t.kind ≠ k := by
  rintro rfl
  rw [ht] at hk
  exact absurd hk.symm Bool.false_ne_true

theorem startsDeclaration_of_startsExpression {k : Token.Kind} (h : startsExpression k = true) :
    startsDeclaration k = true := by
  unfold startsDeclaration
  split <;> first | rfl | exact h

mutual

theorem Expression.exists_cons : {w : List Token} → {e : Expr} → Expression w e →
    ∃ t v, w = t :: v ∧ startsExpression t.kind = true
  | _, _, .assign hname _ _ _ => ⟨_, _, rfl, by rw [hname]; rfl⟩
  | _, _, .operation h => h.exists_cons

theorem Operation.exists_cons : {levels : List Level} → {w : List Token} → {e : Expr} →
    Operation levels w e → ∃ t v, w = t :: v ∧ startsExpression t.kind = true
  | _, _, _, .unary h => h.exists_cons
  | _, _, _, .tighter h => h.exists_cons
  | _, _, _, .join hleft _ _ => by
    obtain ⟨t, v, rfl, ht⟩ := hleft.exists_cons
    exact ⟨t, _, rfl, ht⟩

theorem Unary.exists_cons : {w : List Token} → {e : Expr} → Unary w e →
    ∃ t v, w = t :: v ∧ startsExpression t.kind = true
  | _, _, .not hop _ => ⟨_, _, rfl, by rw [hop]; rfl⟩
  | _, _, .negate hop _ => ⟨_, _, rfl, by rw [hop]; rfl⟩
  | _, _, .call h => h.exists_cons

theorem Call.exists_cons : {w : List Token} → {e : Expr} → Call w e →
    ∃ t v, w = t :: v ∧ startsExpression t.kind = true
  | _, _, .call hname _ _ _ _ => ⟨_, _, rfl, by rw [hname]; rfl⟩
  | _, _, .primary h => h.exists_cons

theorem Primary.exists_cons : {w : List Token} → {e : Expr} → Primary w e →
    ∃ t v, w = t :: v ∧ startsExpression t.kind = true
  | _, _, .number h _ => ⟨_, _, rfl, by rw [h]; rfl⟩
  | _, _, .string h _ => ⟨_, _, rfl, by rw [h]; rfl⟩
  | _, _, .trueWord h => ⟨_, _, rfl, by rw [h]; rfl⟩
  | _, _, .falseWord h => ⟨_, _, rfl, by rw [h]; rfl⟩
  | _, _, .nilWord h => ⟨_, _, rfl, by rw [h]; rfl⟩
  | _, _, .name h _ => ⟨_, _, rfl, by rw [h]; rfl⟩
  | _, _, .group h _ _ => ⟨_, _, rfl, by rw [h]; rfl⟩

end

theorem ArgumentList.exists_cons {w : List Token} {es : List Expr} (h : ArgumentList w es) :
    ∃ t v, w = t :: v ∧ startsExpression t.kind = true := by
  cases h with
  | one h => exact h.exists_cons
  | more hfirst _ _ =>
    obtain ⟨t, v, rfl, ht⟩ := hfirst.exists_cons
    exact ⟨t, _, rfl, ht⟩

theorem ExpressionStatement.exists_cons {w : List Token} {s : Stmt}
    (h : ExpressionStatement w s) : ∃ t v, w = t :: v ∧ startsExpression t.kind = true := by
  cases h with
  | mk he _ =>
    obtain ⟨t, v, hv, ht⟩ := he.exists_cons
    obtain ⟨rfl, rfl⟩ := List.cons.inj hv
    exact ⟨_, _, rfl, ht⟩

theorem Statement.exists_cons {o : Bool} {w : List Token} {s : Stmt} (h : Statement o w s) :
    ∃ t v, w = t :: v ∧ startsDeclaration t.kind = true := by
  cases h with
  | expression h =>
    obtain ⟨t, v, rfl, ht⟩ := h.exists_cons
    exact ⟨t, v, rfl, startsDeclaration_of_startsExpression ht⟩
  | print hword _ _ => exact ⟨_, _, rfl, by rw [hword]; rfl⟩
  | giveBack hword _ => exact ⟨_, _, rfl, by rw [hword]; rfl⟩
  | block hbrace _ _ => exact ⟨_, _, rfl, by rw [hbrace]; rfl⟩
  | ifThen hword _ _ => exact ⟨_, _, rfl, by rw [hword]; rfl⟩
  | ifElse hword _ _ _ _ => exact ⟨_, _, rfl, by rw [hword]; rfl⟩
  | loop hword _ _ => exact ⟨_, _, rfl, by rw [hword]; rfl⟩
  | forLoop hword _ _ _ _ _ => exact ⟨_, _, rfl, by rw [hword]; rfl⟩

theorem Declaration.exists_cons {o : Bool} {w : List Token} {s : Stmt} (h : Declaration o w s) :
    ∃ t v, w = t :: v ∧ startsDeclaration t.kind = true := by
  cases h with
  | declare h =>
    cases h with
    | plain hword _ _ => exact ⟨_, _, rfl, by rw [hword]; rfl⟩
    | initialized hword _ _ _ _ => exact ⟨_, _, rfl, by rw [hword]; rfl⟩
  | function hword _ _ _ _ _ _ _ => exact ⟨_, _, rfl, by rw [hword]; rfl⟩
  | statement h => exact h.exists_cons

theorem Declaration.ne_nil {o : Bool} {w : List Token} {s : Stmt} (h : Declaration o w s) :
    w ≠ [] := by
  obtain ⟨t, v, rfl, _⟩ := h.exists_cons
  exact List.cons_ne_nil t v

/-- No `else` stands at the front of declarations, so what comes before them is complete. -/
theorem Declarations.startsWith_else {w rest : List Token} {body : List Stmt}
    (h : Declarations w body) (hrest : startsWith .elseWord rest = false) :
    startsWith .elseWord (w ++ rest) = false := by
  cases h with
  | nil => exact hrest
  | cons hfirst _ =>
    obtain ⟨t, v, rfl, ht⟩ := hfirst.exists_cons
    simp only [List.cons_append, startsWith, beq_eq_false_iff_ne]
    exact kind_ne_of ht rfl

theorem Declarations.append {v w : List Token} {ss body : List Stmt} (hv : Declarations v ss)
    (hw : Declarations w body) : Declarations (v ++ w) (ss ++ body) := by
  induction ss generalizing v with
  | nil =>
    cases hv
    exact hw
  | cons s ss ih =>
    cases hv with
    | cons hfirst hrest =>
      rw [List.append_assoc]
      exact .cons hfirst (ih hrest)

end Phrase

end Lox

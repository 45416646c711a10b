import Lox.Proofs.Grammar.Prospect
import Lox.Proofs.Grammar.Recovery

/-!
# Unfinished programs

The rules for statements have the same prospects as those for expressions.  For a list of tokens
this means two things.  If it can be continued to a program, then it is a program or the complaint
about it is that it ends too early (`statements_of_append`).  And if that is the complaint, tokens
of closing kinds continue it to a program, or to one whose only fault is an assignment that was
already there (`statements_completes`).
-/

namespace Lox

open Reading

/-- A complaint names a token that was passed or the next one. -/
theorem Complaint.At.mem_of_token {c : Complaint} {passed rest : List Token} (h : c.At passed rest)
    {t : Token} (ht : c.token? = some t) : t ∈ passed ++ rest := by
  unfold Complaint.At at h
  split at h
  · obtain ⟨v, t', u, rfl, ht', _⟩ := h
    obtain rfl := Option.some.inj (ht'.symm.trans ht)
    simp
  · exact List.mem_append_right passed (List.mem_of_head? (h.symm.trans ht))

namespace Phrase

/-- A statement, open or closed. -/
def AnyStatement (w : List Token) (s : Stmt) : Prop := ∃ o, Statement o w s

/-- A declaration, open or closed. -/
def AnyDeclaration (w : List Token) (s : Stmt) : Prop := ∃ o, Declaration o w s

end Phrase

namespace Grammar

/-! ## Parts of statements -/

/-- An expression with the token that closes it. -/
theorem expression_close_prospect {α : Type} {Q : List Token → α → Prop} {stop : Token.Kind}
    (place : Place) (f : Expr → α) (ts : List Token) (hstop : stop ∈ Token.Kind.closing)
    (hQ : ∀ w e t, Phrase.Expression w e → t.kind = stop → ∃ a, Q (w ++ [t]) a) :
    Prospect Q (fun ts => (expression ts).andThen ts fun e rest _ => close stop place rest (f e))
      ts := by
  refine (expression_prospect ts).andThen (expression_local ts) (expression_fits ts)
    (completes_token hstop) (F := fun e rest => close stop place rest (f e)) ?_ ?_
  · rintro w e _ t he ⟨rfl, ht⟩
    exact hQ w e t he ht
  · exact fun w e rest _ he => .close hstop fun t ht => hQ w e t he ht

/-- An expression with a semicolon behind it is a statement. -/
theorem exists_expressionStatement {w : List Token} {e : Expr} {stop : Token}
    (he : Phrase.Expression w e) (hstop : stop.kind = .semicolon) :
    ∃ s, Phrase.ExpressionStatement (w ++ [stop]) s := by
  obtain ⟨first, v, rfl, _⟩ := he.exists_cons
  exact ⟨_, .mk he hstop⟩

theorem expressionStatement_completes : Completes Phrase.ExpressionStatement [] := by
  exact expression_completes.snoc (k := .semicolon) (by decide) fun w e stop =>
    exists_expressionStatement

theorem expressionStatement_prospect (ts : List Token) :
    Prospect Phrase.ExpressionStatement expressionStatement ts := by
  cases ts with
  | nil =>
    refine .of_completes ?_ expressionStatement_completes
    rw [expressionStatement, expression_nil]
    rfl
  | cons first rest =>
    -- With a first token the line of the statement is known.
    refine (expression_close_prospect .afterExpression (.expression first.line) (first :: rest)
      (by decide) fun w e stop => exists_expressionStatement).congr fun more => ?_
    rw [expressionStatement]
    rfl

theorem printed_prospect {word : Token} (hword : word.kind = .printWord) (ts : List Token) :
    Prospect (fun w => Phrase.Statement false (word :: w)) (printed word.line) ts := by
  unfold printed
  exact expression_close_prospect _ _ ts (by decide) fun w e stop he hstop =>
    ⟨_, .print hword he hstop⟩

/-- What follows the name of a variable. -/
def initialization (line : Int) (name : String) : List Token → Reading Stmt
  | [] => close .semicolon .afterDeclaration [] (.declare line name none)
  | t :: rest =>
    if t.kind = .equal then
      ((expression rest).andThen rest fun value rest _ =>
        close .semicolon .afterDeclaration rest (.declare line name (some value))).shift 1
    else close .semicolon .afterDeclaration (t :: rest) (.declare line name none)

theorem declared_eq (line : Int) (ts : List Token) :
    declared line ts =
      take .identifier .afterVar ts fun name rest _ => initialization line name.lexeme rest := by
  rw [declared]
  congr 1
  funext name rest _
  cases rest <;> rfl

theorem declared_prospect {word : Token} (hword : word.kind = .varWord) (ts : List Token) :
    Prospect (fun w => Phrase.Variable (word :: w)) (declared word.line) ts := by
  refine (Prospect.take ?_ fun name rest _ hname => ?_).congr fun more => declared_eq _ _
  · refine (completes_token (k := .semicolon) (by decide)).cons (k := .identifier) (by decide) ?_
    rintro name _ stop hname ⟨rfl, hstop⟩
    exact ⟨_, .plain hword hname hstop⟩
  · have hplain : ∀ stop : Token, stop.kind = .semicolon →
        ∃ s, Phrase.Variable (word :: name :: [stop]) s :=
      fun stop hstop => ⟨_, .plain hword hname hstop⟩
    cases rest with
    | nil =>
      refine .of_completes rfl ((completes_token (k := .semicolon) (by decide)).mono ?_)
      rintro _ stop ⟨rfl, hstop⟩
      exact hplain stop hstop
    | cons t rest =>
      by_cases hequals : t.kind = .equal
      · have hvalue : Prospect (fun w => Phrase.Variable (word :: name :: t :: w))
            (fun ts => (expression ts).andThen ts fun value rest _ => close .semicolon
              .afterDeclaration rest (.declare word.line name.lexeme (some value))) rest :=
          expression_close_prospect _ _ rest (by decide) fun w value stop hvalue hstop =>
            ⟨_, .initialized hword hname hequals hvalue hstop⟩
        refine hvalue.shift_one fun more => ?_
        rw [initialization, if_pos hequals]
      · have hclose : Prospect (fun w => Phrase.Variable (word :: name :: w))
            (fun ts => close .semicolon .afterDeclaration ts (.declare word.line name.lexeme none))
            (t :: rest) := .close (by decide) hplain
        refine hclose.congr fun more => ?_
        rw [List.cons_append, initialization, if_neg hequals]

theorem optional_completes {stop : Token.Kind} (hstop : stop ∈ Token.Kind.closing) :
    Completes (Phrase.Optional stop) [] := by
  refine (completes_token hstop).mono ?_
  rintro _ t ⟨rfl, ht⟩
  exact ⟨none, .none ht⟩

theorem optional_prospect {stop : Token.Kind} (place : Place) (ts : List Token)
    (hstop : stop ∈ Token.Kind.closing) :
    Prospect (Phrase.Optional stop) (optional stop place) ts := by
  cases ts with
  | nil =>
    refine .of_completes ?_ (optional_completes hstop)
    rw [optional, expression_nil]
    rfl
  | cons t rest =>
    by_cases ht : t.kind = stop
    · refine .of_made (a := none) (n := 1) ?_
      rw [optional, startsWith, ht, if_pos (beq_self_eq_true stop)]
    · refine (expression_close_prospect place some (t :: rest) hstop
        fun w e u he hu => ⟨_, .some he hu⟩).congr fun more => ?_
      have hne : startsWith stop (t :: (rest ++ more)) = false := beq_eq_false_iff_ne.mpr ht
      rw [List.cons_append, optional, hne, if_neg Bool.false_ne_true]

theorem condition_completes : Completes Phrase.Condition [] := by
  have hclosed : Completes (Phrase.Closed .rightParen Phrase.Expression) [] :=
    expression_completes.snoc (by decide) fun w e stop he hstop => ⟨e, w, stop, rfl, hstop, he⟩
  refine hclosed.cons (k := .leftParen) (by decide) ?_
  rintro paren _ e hparen ⟨v, stop, rfl, hstop, he⟩
  exact ⟨e, .mk hparen he hstop⟩

theorem condition_prospect (before behind : Place) (ts : List Token) :
    Prospect Phrase.Condition (condition before behind) ts := by
  unfold condition
  refine Prospect.take condition_completes fun paren rest _ hparen => ?_
  exact expression_close_prospect behind id rest (by decide) fun w e stop he hstop =>
    ⟨e, .mk hparen he hstop⟩

theorem forStart_completes :
    Completes (fun w (start : Option Stmt) => Phrase.ForStart w start.toList) [] := by
  refine (completes_token (k := .semicolon) (by decide)).mono ?_
  rintro _ t ⟨rfl, ht⟩
  exact ⟨none, .none ht⟩

theorem forStart_prospect (ts : List Token) :
    Prospect (fun w (start : Option Stmt) => Phrase.ForStart w start.toList) forStart ts := by
  cases ts with
  | nil =>
    refine .of_completes ?_ forStart_completes
    rw [forStart, expressionStatement, expression_nil]
    rfl
  | cons t rest =>
    by_cases hstop : t.kind = .semicolon
    · exact .of_made (a := none) (n := 1) (by rw [forStart, hstop])
    · by_cases hvar : t.kind = .varWord
      · refine ((declared_prospect hvar rest).map (f := some)
          (Q := fun w (start : Option Stmt) => Phrase.ForStart (t :: w) start.toList)
          fun w s hs => ⟨some s, .declare hs⟩).shift_one fun more => ?_
        rw [forStart, hvar]
      · refine ((expressionStatement_prospect (t :: rest)).map (f := some)
          fun w s hs => ⟨some s, .expression hs⟩).congr fun more => ?_
        rw [List.cons_append, forStart]
        split
        · exact absurd ‹_› hstop
        · exact absurd ‹_› hvar
        · rfl

/-- At least one parameter, with the closing parenthesis. -/
def SomeParameters (w : List Token) (xs : List String) : Prop :=
  ClosedParameters w xs ∧ w.length ≠ 1

theorem someParameters_one {name stop : Token} (hname : name.kind = .identifier)
    (hstop : stop.kind = .rightParen) : SomeParameters [name, stop] [name.lexeme] :=
  ⟨⟨[name], stop, rfl, hstop, .one hname⟩, Nat.succ_succ_ne_one 0⟩

theorem SomeParameters.more {name comma : Token} {w : List Token} {xs : List String}
    (h : SomeParameters w xs) (hname : name.kind = .identifier) (hcomma : comma.kind = .comma) :
    SomeParameters (name :: comma :: w) (name.lexeme :: xs) := by
  obtain ⟨⟨v, stop, rfl, hstop, hv⟩, hne⟩ := h
  obtain ⟨first, v, rfl⟩ : ∃ first v', v = first :: v' :=
    List.exists_cons_of_ne_nil (by rintro rfl; exact hne rfl)
  exact ⟨⟨name :: comma :: first :: v, stop, rfl, hstop, .more hname hcomma hv⟩, by simp⟩

theorem parameterList_completes : Completes SomeParameters [] := by
  refine (completes_token (k := .rightParen) (by decide)).cons (k := .identifier) (by decide) ?_
  rintro name _ stop hname ⟨rfl, hstop⟩
  exact ⟨_, someParameters_one hname hstop⟩

/-- What follows a parameter. -/
def parameterTail (name : String) : List Token → Reading (List String)
  | [] => close .rightParen .afterParameters [] [name]
  | t :: rest =>
    if t.kind = .comma then ((parameterList rest).map (name :: ·)).shift 1
    else close .rightParen .afterParameters (t :: rest) [name]

theorem parameterList_cons {name : Token} (hname : name.kind = .identifier) (rest : List Token) :
    parameterList (name :: rest) = (parameterTail name.lexeme rest).shift 1 := by
  cases rest with
  | nil => rw [parameterList, if_pos hname, parameterTail]
  | cons t rest =>
    rw [parameterList, if_pos hname, parameterTail]
    split
    · rw [shift_shift]
    · rfl

theorem parameterTail_prospect {name : Token} {rest : List Token}
    (hname : name.kind = .identifier) (ih : ∀ comma rest', rest = comma :: rest' →
      comma.kind = .comma → Prospect SomeParameters parameterList rest') :
    Prospect (fun w => SomeParameters (name :: w)) (parameterTail name.lexeme) rest := by
  have hone : ∀ stop : Token, stop.kind = .rightParen → ∃ xs, SomeParameters [name, stop] xs :=
    fun stop hstop => ⟨_, someParameters_one hname hstop⟩
  cases rest with
  | nil =>
    refine .of_completes rfl ((completes_token (k := .rightParen) (by decide)).mono ?_)
    rintro _ stop ⟨rfl, hstop⟩
    exact hone stop hstop
  | cons t rest =>
    by_cases hcomma : t.kind = .comma
    · refine ((ih t rest rfl hcomma).map (Q := fun w => SomeParameters (name :: t :: w))
        (f := (name.lexeme :: ·)) fun w xs hxs => ?_).shift_one fun more => ?_
      · exact ⟨_, hxs.more hname hcomma⟩
      · rw [parameterTail, if_pos hcomma]
    · have hclose : Prospect (fun w => SomeParameters (name :: w))
          (fun ts => close .rightParen .afterParameters ts [name.lexeme]) (t :: rest) :=
        .close (by decide) hone
      refine hclose.congr fun more => ?_
      rw [List.cons_append, parameterTail, if_neg hcomma]

theorem parameterList_prospect (ts : List Token) : Prospect SomeParameters parameterList ts := by
  induction ts using parameterList.induct with
  | case1 => exact .of_completes rfl parameterList_completes
  | case2 name hname =>
    refine (parameterTail_prospect hname ?_).shift_one (parameterList_cons hname)
    exact fun _ _ h => absurd h (List.cons_ne_nil _ _).symm
  | case3 name hname => exact .of_stuck (by rw [parameterList, if_neg hname]) rfl
  | case4 name comma rest hname hcomma ih =>
    refine (parameterTail_prospect hname ?_).shift_one (parameterList_cons hname)
    rintro _ _ ⟨⟩ _
    exact ih
  | case5 name t rest hname ht =>
    refine (parameterTail_prospect hname ?_).shift_one (parameterList_cons hname)
    rintro _ _ ⟨⟩ hcomma
    exact absurd hcomma ht
  | case6 name t rest hname => exact .of_stuck (by rw [parameterList, if_neg hname]) rfl

theorem parameters_completes : Completes ClosedParameters [] :=
  parameterList_completes.mono fun _ xs hxs => ⟨xs, hxs.1⟩

theorem parameters_prospect (ts : List Token) : Prospect ClosedParameters parameters ts := by
  have hlist : Prospect ClosedParameters parameterList ts :=
    (parameterList_prospect ts).mono fun _ xs hxs => ⟨xs, hxs.1⟩
  cases ts with
  | nil => exact .of_completes rfl parameters_completes
  | cons t rest =>
    by_cases ht : t.kind = .rightParen
    · refine .of_made (a := []) (n := 1) ?_
      rw [parameters, startsWith, ht, if_pos (beq_self_eq_true _)]
    · refine hlist.congr fun more => ?_
      have hne : startsWith .rightParen (t :: (rest ++ more)) = false := beq_eq_false_iff_ne.mpr ht
      rw [List.cons_append, parameters, hne, if_neg Bool.false_ne_true]

theorem parameters_local (ts : List Token) : Local parameters ts :=
  .of_agrees (g := id) (fun _ => rfl) fun more => parameters_agrees id more ts

/-- What a function still needs behind its keyword. -/
def HeadOf (word : Token) (w : List Token) (head : String × List String × Int) : Prop :=
  ∀ v closing body, Phrase.Declarations v body → closing.kind = .rightBrace →
    Phrase.Declaration false (word :: w ++ v ++ [closing])
      (.function word.line head.1 head.2.1 head.2.2 body)

theorem headOf_mk {word name paren brace : Token} {w : List Token} {xs : List String}
    (hword : word.kind = .funWord) (hname : name.kind = .identifier)
    (hparen : paren.kind = .leftParen) (hparams : ClosedParameters w xs)
    (hbrace : brace.kind = .leftBrace) :
    HeadOf word (name :: paren :: (w ++ [brace]))
      (name.lexeme, xs.take maxArguments, brace.line) := by
  obtain ⟨v, stop, rfl, hstop, hv⟩ := hparams
  intro u closing body hbody hclosing
  simpa using Phrase.Declaration.function hword hname hparen hv hstop hbrace hbody hclosing

theorem functionHead_prospect {word : Token} (hword : word.kind = .funWord) (ts : List Token) :
    Prospect (HeadOf word) functionHead ts := by
  have hbehind : Completes (fun w (_ : Unit) => ∀ name paren : Token, name.kind = .identifier →
      paren.kind = .leftParen → ∃ head, HeadOf word (name :: paren :: w) head) [] :=
    parameters_completes.snoc (k := .leftBrace) (by decide) fun w xs brace hxs hbrace =>
      ⟨(), fun name paren hname hparen => ⟨_, headOf_mk hword hname hparen hxs hbrace⟩⟩
  have hparen : Completes (fun w (_ : Unit) => ∀ name : Token, name.kind = .identifier →
      ∃ head, HeadOf word (name :: w) head) [] :=
    hbehind.cons (k := .leftParen) (by decide) fun paren w _ hparen hw =>
      ⟨(), fun name hname => hw name paren hname hparen⟩
  unfold functionHead
  refine Prospect.take ?_ fun name rest _ hname => Prospect.take ?_ fun paren rest _ hparen => ?_
  · exact hparen.cons (k := .identifier) (by decide) fun name w _ hname hw => hw name hname
  · exact hparen.mono fun w _ hw => hw name hname
  · refine (parameters_prospect rest).andThen (parameters_local rest) (parameters_fits rest)
      (completes_token (k := .leftBrace) (by decide)) ?_ fun w xs rest _ hxs => ?_
    · rintro w xs _ brace hxs ⟨rfl, hbrace⟩
      exact ⟨_, headOf_mk hword hname hparen hxs hbrace⟩
    · refine Prospect.take ?_ fun brace rest _ hbrace => .of_made rfl
      refine (completes_token (k := .leftBrace) (by decide)).mono ?_
      rintro _ brace ⟨rfl, hbrace⟩
      exact ⟨_, headOf_mk hword hname hparen hxs hbrace⟩

theorem functionHead_local (ts : List Token) : Local functionHead ts :=
  .of_agrees (fun _ => rfl) fun more => functionHead_agrees id more ts

/-! ## Statements -/

theorem condition_local (before behind : Place) (ts : List Token) :
    Local (condition before behind) ts :=
  .of_agrees Expr.renumber_id fun more => condition_agrees id more before behind ts

theorem optional_local (stop : Token.Kind) (place : Place) (ts : List Token) :
    Local (optional stop place) ts :=
  .of_agrees Expr.option_renumber_id fun more => optional_agrees id more stop place ts

theorem forStart_local (ts : List Token) : Local forStart ts := by
  have hid : (Stmt.renumber id : Stmt → Stmt) = id := funext Stmt.renumber_id
  refine .of_agrees (g := Option.map (Stmt.renumber id)) (fun start => ?_) fun more =>
    forStart_agrees id more ts
  rw [hid, Option.map_id, id]

theorem statement_local (ts : List Token) : Local statement ts :=
  .of_agrees Stmt.renumber_id fun more => (statementRules_agree id more).2.2 ts

theorem declaration_local (ts : List Token) : Local declaration ts :=
  .of_agrees Stmt.renumber_id fun more => (statementRules_agree id more).1 ts

theorem statement_completes : Completes Phrase.AnyStatement [] :=
  expressionStatement_completes.mono fun _ s hs => ⟨s, false, .expression hs⟩

theorem block_completes : Completes (Phrase.Closed .rightBrace Phrase.Declarations) [] := by
  refine (completes_token (k := .rightBrace) (by decide)).mono ?_
  rintro _ t ⟨rfl, ht⟩
  exact ⟨[], [], t, rfl, ht, .nil⟩

/-- A block goes on behind the declaration at its front, which takes at least one token. -/
theorem blockBody_cons {t : Token} (ht : t.kind ≠ .rightBrace) (rest : List Token) :
    blockBody (t :: rest) = (declaration (t :: rest)).andThen (t :: rest) fun first rest _ =>
      (blockBody rest).map (first :: ·) := by
  rw [blockBody, if_neg ht]
  have hfits := declaration_fits (t :: rest)
  cases hr : declaration (t :: rest) with
  | stuck c n => rfl
  | made s n =>
    rw [hr] at hfits
    obtain ⟨w, rest', hts, rfl, o, hs, _⟩ := hfits
    obtain ⟨u, v, rfl⟩ := List.exists_cons_of_ne_nil hs.ne_nil
    rw [andThen_eq (u :: v) rest' rfl hts rfl]
    exact past_eq v rest' rfl (List.cons.inj hts).2 rfl _

/-- What follows the first branch of an `if`. -/
theorem otherwise_prospect {word : Token} {u v rest : List Token} {test : Expr} {yes : Stmt}
    (hword : word.kind = .ifWord) (htest : Phrase.Condition u test)
    (hyes : Phrase.StatementBefore v yes rest)
    (ih : ∀ other rest', rest = other :: rest' → Prospect Phrase.AnyStatement statement rest') :
    Prospect (fun w => Phrase.AnyStatement (word :: u ++ v ++ w)) (otherwise word.line test yes)
      rest := by
  obtain ⟨o, hv, hends⟩ := hyes
  cases rest with
  | nil => exact .of_made rfl
  | cons other rest =>
    by_cases hother : other.kind = .elseWord
    · -- An open branch would have taken the `else` itself.
      obtain rfl : o = false := by
        cases o with
        | false => rfl
        | true => exact absurd (hends rfl) (by simp [startsWith, hother])
      refine ((ih other rest rfl).map (f := .ifElse word.line test yes)
        (Q := fun w => Phrase.AnyStatement (word :: u ++ v ++ other :: w)) ?_).shift_one
        fun more => by rw [otherwise, if_pos hother]
      rintro w no ⟨o, hno⟩
      exact ⟨_, o, .ifElse hword htest hv hother hno⟩
    · exact .of_made (by rw [otherwise, if_neg hother]; rfl)

/-- A `for` behind its condition. -/
def forStep (line : Int) (start : Option Stmt) (test : Option Expr) (ts : List Token) :
    Reading Stmt :=
  (optional .rightParen .afterForClauses ts).andThen ts fun step rest _ =>
    (statement rest).map (Stmt.forLoop line start test step)

/-- A `for` behind its first clause. -/
def forTest (line : Int) (start : Option Stmt) (ts : List Token) : Reading Stmt :=
  (optional .semicolon .afterLoopCondition ts).andThen ts fun test rest _ =>
    forStep line start test rest

/-- A `for` behind its opening parenthesis. -/
def forClauses (line : Int) (ts : List Token) : Reading Stmt :=
  (forStart ts).andThen ts fun start rest _ => forTest line start rest

theorem statement_for {t : Token} (ht : t.kind = .forWord) (rest : List Token) :
    statement (t :: rest) =
      (take .leftParen .afterFor rest fun _ rest _ => forClauses t.line rest).shift 1 := by
  rw [statement, ht]
  rfl

/-- The last clause of a `for` and its body. -/
def StepPhrase (w : List Token) (p : Option Expr × Stmt) : Prop :=
  ∃ u v, w = u ++ v ∧ Phrase.Optional .rightParen u p.1 ∧ Phrase.AnyStatement v p.2

/-- What follows the first clause of a `for`. -/
def TestPhrase (w : List Token) (p : Option Expr × Option Expr × Stmt) : Prop :=
  ∃ u v, w = u ++ v ∧ Phrase.Optional .semicolon u p.1 ∧ StepPhrase v p.2

/-- What follows the opening parenthesis of a `for`. -/
def ClausesPhrase (w : List Token) (p : Option Stmt × Option Expr × Option Expr × Stmt) : Prop :=
  ∃ u v, w = u ++ v ∧ Phrase.ForStart u p.1.toList ∧ TestPhrase v p.2

theorem stepPhrase_completes : Completes StepPhrase [] :=
  (optional_completes (by decide)).append statement_completes fun u step v body hu hv =>
    ⟨(step, body), u, v, rfl, hu, hv⟩

theorem testPhrase_completes : Completes TestPhrase [] :=
  (optional_completes (by decide)).append stepPhrase_completes fun u test v p hu hv =>
    ⟨(test, p), u, v, rfl, hu, hv⟩

theorem clausesPhrase_completes : Completes ClausesPhrase [] :=
  forStart_completes.append testPhrase_completes fun u start v p hu hv =>
    ⟨(start, p), u, v, rfl, hu, hv⟩

theorem exists_forLoop {word paren : Token} {w : List Token}
    {p : Option Stmt × Option Expr × Option Expr × Stmt} (hword : word.kind = .forWord)
    (hparen : paren.kind = .leftParen) (h : ClausesPhrase w p) :
    ∃ s, Phrase.AnyStatement (word :: paren :: w) s := by
  obtain ⟨u, _, rfl, hstart, v, _, rfl, htest, x, y, rfl, hstep, o, hbody⟩ := h
  exact ⟨_, o, by simpa using Phrase.Statement.forLoop hword hparen hstart htest hstep hbody⟩

/-- A `for` behind its opening parenthesis has the prospects of its clauses and its body. -/
theorem forClauses_prospect {word paren : Token} {ts : List Token} (hword : word.kind = .forWord)
    (hparen : paren.kind = .leftParen)
    (ih : ∀ rest, rest.length ≤ ts.length → Prospect Phrase.AnyStatement statement rest) :
    Prospect (fun w => Phrase.AnyStatement (word :: paren :: w)) (forClauses word.line) ts := by
  refine (forStart_prospect ts).andThen (forStart_local ts) (forStart_fits ts)
    testPhrase_completes (F := forTest word.line) ?_ fun u start rest₁ h₁ hstart => ?_
  · intro u start v p hstart hv
    exact exists_forLoop (p := (start, p)) hword hparen ⟨u, v, rfl, hstart, hv⟩
  refine (optional_prospect _ rest₁ (by decide)).andThen (optional_local _ _ rest₁)
    (optional_fits _ _ rest₁) stepPhrase_completes (F := forStep word.line start)
    ?_ fun v test rest₂ h₂ htest => ?_
  · intro v test w p htest hw
    refine exists_forLoop (p := (start, test, p)) hword hparen ?_
    exact ⟨u, v ++ w, rfl, hstart, v, w, rfl, htest, hw⟩
  have hwhole : ∀ w step x body, Phrase.Optional .rightParen w step → Phrase.AnyStatement x body →
      ∃ s, Phrase.AnyStatement (word :: paren :: (u ++ (v ++ (w ++ x)))) s := by
    intro w step x body hstep hx
    refine exists_forLoop (p := (start, test, step, body)) hword hparen ?_
    exact ⟨u, _, rfl, hstart, v, _, rfl, htest, w, x, rfl, hstep, hx⟩
  refine (optional_prospect _ rest₂ (by decide)).andThen (optional_local _ _ rest₂)
    (optional_fits _ _ rest₂) statement_completes (F := fun step rest =>
      (statement rest).map (Stmt.forLoop word.line start test step)) hwhole
    fun w step rest₃ h₃ hstep => ?_
  have hle : rest₃.length ≤ ts.length := by
    rw [h₁, h₂, h₃]
    simp only [List.length_append]
    omega
  exact (ih rest₃ hle).map (hwhole w step · · hstep)

theorem statementRules_prospect :
    (∀ ts, Prospect Phrase.AnyDeclaration declaration ts) ∧
    (∀ ts, Prospect (Phrase.Closed .rightBrace Phrase.Declarations) blockBody ts) ∧
    (∀ ts, Prospect Phrase.AnyStatement statement ts) := by
  refine declaration.mutual_induct _ _ _ ?declarationEnd ?declare ?function ?declaration
    ?blockEnd ?blockClosed ?block ?statementEnd ?print ?choice ?loop ?forLoop ?giveBack
    ?inBraces ?expression
  case declarationEnd =>
    intro _
    refine .of_completes ?_ (statement_completes.mono ?_)
    · rw [declaration, statement, expressionStatement, expression_nil]
      rfl
    · rintro w s ⟨o, hs⟩
      exact ⟨s, o, .statement hs⟩
  case declare =>
    intro t rest ht
    refine ((declared_prospect ht rest).mono (N := fun w => Phrase.AnyDeclaration (t :: w))
      fun w s hs => ⟨s, false, .declare hs⟩).shift_one fun more => by rw [declaration, ht]
  case function =>
    intro t rest ht ih
    refine ((functionHead_prospect ht rest).andThen (functionHead_local rest)
      (functionHead_fits ht rest) block_completes (Q := fun w => Phrase.AnyDeclaration (t :: w))
      (F := fun head rest => (blockBody rest).map (.function t.line head.1 head.2.1 head.2.2))
      ?_ ?_).shift_one fun more => by rw [declaration, ht]
    · rintro w head _ body hhead ⟨v, closing, rfl, hclosing, hbody⟩
      exact ⟨_, false, by simpa using hhead v closing body hbody hclosing⟩
    · refine fun w head rest' hrest hhead => (ih rest' (length_rest_le hrest)).map ?_
      rintro _ body ⟨v, closing, rfl, hclosing, hbody⟩
      exact ⟨_, false, by simpa using hhead v closing body hbody hclosing⟩
  case declaration =>
    intro t rest hvar hfun h
    refine (h.mono ?_).congr fun more => declaration_statement hvar hfun _
    rintro w s ⟨o, hs⟩
    exact ⟨s, o, .statement hs⟩
  case blockEnd => exact .of_completes (by rw [blockBody]; rfl) block_completes
  case blockClosed =>
    intro t rest ht
    exact .of_made (by rw [blockBody, if_pos ht])
  case block =>
    intro t rest ht hfirst ih
    refine (hfirst.andThen (declaration_local _) (declaration_fits _) block_completes
      (F := fun first rest => (blockBody rest).map (first :: ·)) ?_ ?_).congr
      fun more => blockBody_cons ht _
    · rintro w s _ body ⟨o, hs⟩ ⟨v, closing, rfl, hclosing, hbody⟩
      exact ⟨_, w ++ v, closing, by simp, hclosing, .cons hs hbody⟩
    · rintro w s rest' hrest ⟨o, hs, _⟩
      -- A declaration takes at least one token, so the rest is shorter.
      obtain ⟨u, v, rfl⟩ := List.exists_cons_of_ne_nil hs.ne_nil
      have hle : rest'.length ≤ rest.length := length_rest_le (List.cons.inj hrest).2
      refine (ih rest' hle).map ?_
      rintro _ body ⟨x, closing, rfl, hclosing, hbody⟩
      exact ⟨_, u :: v ++ x, closing, by simp, hclosing, .cons hs hbody⟩
  case statementEnd =>
    refine .of_completes ?_ statement_completes
    rw [statement, expressionStatement, expression_nil]
    rfl
  case print =>
    intro t rest ht
    exact ((printed_prospect ht rest).mono (N := fun w => Phrase.AnyStatement (t :: w))
      fun w s hs => ⟨s, false, hs⟩).shift_one fun more => by rw [statement, ht]
  case choice =>
    intro t rest ht hyes hno
    refine ((condition_prospect _ _ rest).andThen (condition_local _ _ rest)
      (condition_fits _ _ rest) statement_completes (Q := fun w => Phrase.AnyStatement (t :: w))
      (F := fun test rest => (statement rest).andThen rest fun yes rest _ =>
        otherwise t.line test yes rest) ?_ ?_).shift_one fun more => statement_if more ht
    · rintro u test v yes htest ⟨o, hyes⟩
      exact ⟨_, true, .ifThen ht htest hyes⟩
    · intro u test rest₁ h₁ htest
      have hle : rest₁.length ≤ rest.length := length_rest_le h₁
      refine (hyes rest₁ hle).andThen_done (statement_local rest₁) (statementRules_fit.2.2 rest₁)
        (F := otherwise t.line test) ?_ fun v yes rest₂ h₂ hv => ?_
      · rintro v yes ⟨o, hv⟩
        exact ⟨_, true, .ifThen ht htest hv⟩
      · refine (otherwise_prospect ht htest hv fun other rest₃ h₃ => ?_).mono fun w s hs => ?_
        · exact hno rest₁ hle [] other rest₃ (h₃ ▸ length_rest_le h₂)
        · exact ⟨s, by simpa using hs⟩
  case loop =>
    intro t rest ht ih
    refine ((condition_prospect _ _ rest).andThen (condition_local _ _ rest)
      (condition_fits _ _ rest) statement_completes (Q := fun w => Phrase.AnyStatement (t :: w))
      (F := fun test rest => (statement rest).map (.loop t.line test)) ?_ ?_).shift_one
      fun more => by rw [statement, ht]
    · rintro u test v body htest ⟨o, hbody⟩
      exact ⟨_, o, .loop ht htest hbody⟩
    · refine fun u test rest' hrest htest => (ih rest' (length_rest_le hrest)).map ?_
      rintro v body ⟨o, hbody⟩
      exact ⟨_, o, .loop ht htest hbody⟩
  case forLoop =>
    intro t rest ht ih
    refine (Prospect.take (P := fun w => Phrase.AnyStatement (t :: w))
      (F := fun _ => forClauses t.line) ?_ fun paren rest₁ h₁ hparen => ?_).shift_one fun more =>
        statement_for ht more
    · exact clausesPhrase_completes.cons (k := .leftParen) (by decide) fun paren w p hparen hp =>
        exists_forLoop ht hparen hp
    · refine forClauses_prospect ht hparen fun rest' hle => ?_
      have hlt : rest₁.length < rest.length := by rw [h₁]; exact Nat.lt_succ_self _
      exact ih rest₁ hlt rest₁ (Nat.le_refl _) rest₁ (Nat.le_refl _) rest' hle
  case giveBack =>
    intro t rest ht
    have hvalue : Prospect (Phrase.Optional .semicolon) (optional .semicolon .afterReturnValue)
        rest := optional_prospect _ rest (by decide)
    refine (hvalue.map (f := .giveBack t.line) (Q := fun w => Phrase.AnyStatement (t :: w))
      ?_).shift_one fun more => by rw [statement, ht]; rfl
    exact fun w value hvalue => ⟨_, false, .giveBack ht hvalue⟩
  case inBraces =>
    intro t rest ht ih
    refine (ih.map (f := .block t.line) (Q := fun w => Phrase.AnyStatement (t :: w)) ?_).shift_one
      fun more => by rw [statement, ht]
    rintro _ body ⟨v, closing, rfl, hclosing, hbody⟩
    exact ⟨_, false, .block ht hbody hclosing⟩
  case expression =>
    intro t rest h₁ h₂ h₃ h₄ h₅ h₆
    refine ((expressionStatement_prospect (t :: rest)).mono ?_).congr
      fun more => statement_otherwise h₁ h₂ h₃ h₄ h₅ h₆ _
    exact fun w s hs => ⟨s, false, .expression hs⟩

theorem declaration_prospect (ts : List Token) :
    Prospect Phrase.AnyDeclaration declaration ts :=
  statementRules_prospect.1 ts

/-! ## Programs -/

/-- Declarations follow one another until one is stuck. -/
theorem statements_induction {motive : List Token → Prop} (ts : List Token) (nil : motive [])
    (first : ∀ w s rest, w ≠ [] → declaration (w ++ rest) = made s w.length → motive rest →
      motive (w ++ rest))
    (halt : ∀ w c rest, w ++ rest ≠ [] → declaration (w ++ rest) = stuck c w.length →
      c.At w rest → motive (w ++ rest)) : motive ts := by
  induction ts using statements.induct with
  | case1 => exact nil
  | case2 t rest s taken hmade _ _ _ ih =>
    have hfits := declaration_fits (t :: rest)
    rw [hmade] at hfits
    obtain ⟨w, rest', hts, rfl, o, hs, _⟩ := hfits
    obtain ⟨u, v, rfl⟩ := List.exists_cons_of_ne_nil hs.ne_nil
    rw [List.cons_append] at hts
    obtain ⟨rfl, rfl⟩ := List.cons.inj hts
    have hdrop : (v ++ rest').drop ((t :: v).length - 1) = rest' := by simp
    rw [hdrop] at ih
    exact first (t :: v) s rest' hs.ne_nil hmade ih
  | case3 t rest c passed hstuck =>
    have hfits := declaration_fits (t :: rest)
    rw [hstuck] at hfits
    obtain ⟨w, rest', hts, rfl, hat⟩ := hfits
    rw [hts]
    exact halt w c rest' (hts ▸ List.cons_ne_nil t rest) (hts ▸ hstuck) hat

/-- A declaration that leaves a token is the first one of a program whatever comes behind. -/
theorem statements_made_append {w rest : List Token} {s : Stmt} (hw : w ≠ [])
    (h : declaration (w ++ rest) = made s w.length) (hrest : rest ≠ []) (more : List Token) :
    statements (w ++ rest ++ more) =
      (s :: (statements (rest ++ more)).1, (statements (rest ++ more)).2) := by
  have hlt : (declaration (w ++ rest)).extent < (w ++ rest).length := by
    have hpos := List.length_pos_iff.mpr hrest
    rw [h, extent, List.length_append]
    omega
  have hmore : declaration (w ++ (rest ++ more)) = made s w.length := by
    rw [← List.append_assoc, declaration_append more hlt, h]
  rw [List.append_assoc, statements_made hw hmore]

/-- Where a declaration is stuck, its complaint is the first one. -/
theorem exists_statements_stuck {ts : List Token} {c : Complaint} {n : Nat} (hne : ts ≠ [])
    (h : declaration ts = stuck c n) : ∃ cs, (statements ts).2 = c :: cs := by
  obtain ⟨t, rest, rfl⟩ := List.exists_cons_of_ne_nil hne
  exact ⟨_, congrArg Prod.snd (statements_stuck h rfl)⟩

/-- A declaration that is stuck with no boundary left before the end is the last one. -/
theorem statements_stuck_last {ts : List Token} {c : Complaint} {n : Nat} (hne : ts ≠ [])
    (h : declaration ts = stuck c n) (hn : n + toBoundary (ts.drop n) = ts.length) :
    (statements ts).2 = [c] := by
  obtain ⟨t, rest, rfl⟩ := List.exists_cons_of_ne_nil hne
  rw [statements_stuck h hn, List.length_cons, Nat.add_sub_cancel, List.drop_length, statements]

/-- Tokens that can be continued to a program are a program, or only their end is wrong. -/
theorem statements_of_append (ts : List Token) {more : List Token}
    (h : (statements (ts ++ more)).2 = []) :
    (statements ts).2 = [] ∨ ∃ c, (statements ts).2 = [c] ∧ c.token? = none ∧
      c.objection.isAboutShape = false := by
  induction ts using statements_induction with
  | nil => exact .inl (by rw [statements])
  | first w s rest hw hmade ih =>
    rw [statements_made hw hmade]
    cases rest with
    | nil => exact .inl (by rw [statements])
    | cons t rest =>
      rw [statements_made_append hw hmade (List.cons_ne_nil t rest)] at h
      exact ih h
  | halt w c rest hne hstuck hat =>
    have hmade : ∀ c' n, declaration (w ++ rest ++ more) ≠ stuck c' n := by
      intro c' n hstuck'
      obtain ⟨cs, hcs⟩ :=
        exists_statements_stuck (List.append_ne_nil_of_left_ne_nil hne more) hstuck'
      exact absurd (hcs.symm.trans h) (List.cons_ne_nil c' cs)
    -- More tokens make a difference, so the declaration is stuck at the end of these.
    have hrest : rest = [] := by
      refine Classical.byContradiction fun hrest => ?_
      have hlt : (declaration (w ++ rest)).extent < (w ++ rest).length := by
        have hpos := List.length_pos_iff.mpr hrest
        rw [hstuck, extent, List.length_append]
        omega
      exact hmade c w.length ((declaration_append more hlt).trans hstuck)
    subst hrest
    rw [List.append_nil] at hne hstuck hmade
    have hshape : c.objection.isAboutShape = false := by
      refine Bool.eq_false_iff.mpr fun hshape => ?_
      have hstays := (declaration_prospect w).stays (by rw [hstuck]; exact hshape)
      cases hr : declaration (w ++ more) with
      | made s n => exact absurd (hstays.2 more) (by rw [hr]; exact Bool.noConfusion)
      | stuck c' n => exact hmade c' n hr
    rw [Complaint.At, if_neg (Bool.eq_false_iff.mp hshape)] at hat
    have hlast : (statements w).2 = [c] :=
      statements_stuck_last hne hstuck (by rw [List.drop_length]; rfl)
    rw [List.append_nil]
    exact .inr ⟨c, hlast, hat, hshape⟩

/-- A program whose end comes too early is completed by tokens of closing kinds, as far as the
targets of its assignments allow that. -/
theorem statements_completes (ts : List Token) (hne : (statements ts).2 ≠ [])
    (htoken : ∀ c ∈ (statements ts).2, c.token? = none) :
    ∃ kinds, kinds ⊆ Token.Kind.closing ∧ ∀ ws : List Token, ws.map Token.kind = kinds →
      (statements (ts ++ ws)).2 = [] ∨
        ∃ t ∈ ts, t.kind = .equal ∧
          (statements (ts ++ ws)).2 = [⟨.invalidTarget, some t⟩] := by
  induction ts using statements_induction with
  | nil => exact absurd (by rw [statements]) hne
  | first w s rest hw hmade ih =>
    rw [statements_made hw hmade] at hne htoken
    have hrest : rest ≠ [] := by
      rintro rfl
      exact hne (by rw [statements])
    obtain ⟨kinds, hkinds, hws⟩ := ih hne htoken
    refine ⟨kinds, hkinds, fun ws hk => ?_⟩
    rw [statements_made_append hw hmade hrest]
    refine (hws ws hk).imp_right ?_
    rintro ⟨t, ht, hequal, hread⟩
    exact ⟨t, List.mem_append_right w ht, hequal, hread⟩
  | halt w c rest hts hstuck hat =>
    obtain ⟨cs, hcs⟩ := exists_statements_stuck hts hstuck
    have hnone : c.token? = none := htoken c (by rw [hcs]; exact List.mem_cons_self ..)
    have hend : (declaration (w ++ rest)).isUnfinished = true := by
      rw [hstuck, isUnfinished, hnone]
      rfl
    obtain ⟨kinds, hkinds, hws⟩ | ⟨kinds, hkinds, t, ht, hequal, hws⟩ :=
      (declaration_prospect (w ++ rest)).opens hend
    · refine ⟨kinds, hkinds, fun ws hk => .inl ?_⟩
      obtain ⟨s, o, hs⟩ := hws ws hk
      have hread := statements_append (.cons hs .nil) [] rfl
      rw [List.append_nil, List.append_nil] at hread
      rw [hread, statements]
    · -- The assignment is only given up where its statement ends.
      refine ⟨kinds ++ [.semicolon], List.append_subset.mpr ⟨hkinds, by decide⟩, fun us hus => ?_⟩
      obtain ⟨ws, vs, rfl, hk, hvs⟩ := List.map_eq_append_iff.mp hus
      obtain ⟨stop, rfl, hstop⟩ := List.map_eq_singleton_iff.mp hvs
      have hread := hws ws [stop] hk (Phrase.followsExpression_of_kind hstop (by decide) [])
      have hne : w ++ rest ++ (ws ++ [stop]) ≠ [] := List.append_ne_nil_of_left_ne_nil hts _
      refine .inr ⟨t, ht, hequal, statements_stuck_last hne hread ?_⟩
      rw [← List.append_assoc, ← List.length_append, List.drop_left, toBoundary, if_pos hstop]
      simp only [List.length_append, List.length_singleton]

/-- A complaint names one of the tokens that are read. -/
theorem mem_of_token (ts : List Token) {c : Complaint} (hc : c ∈ (statements ts).2) {t : Token}
    (ht : c.token? = some t) : t ∈ ts := by
  fun_induction statements ts with
  | case1 => exact absurd hc List.not_mem_nil
  | case2 u rest s taken hmade ss cs hss ih =>
    rw [hss] at ih
    exact List.mem_cons_of_mem u (List.mem_of_mem_drop (ih hc))
  | case3 u rest c' passed hstuck skipped ss cs hss ih =>
    have hfits := declaration_fits (u :: rest)
    rw [hstuck] at hfits
    obtain ⟨w, rest', hts, _, hat⟩ := hfits
    obtain rfl | hc := List.mem_cons.mp hc
    · rw [hts]
      exact hat.mem_of_token ht
    · rw [hss] at ih
      exact List.mem_cons_of_mem u (List.mem_of_mem_drop (ih hc))

end Grammar

end Lox

import Lox.Proofs.Grammar.Phrase
import Lox.Proofs.Grammar.Reading

/-!
# The rules find phrases

What a rule of the grammar makes of the tokens it took is a phrase of its kind: for every rule
`Reading.Fits` holds with the corresponding relation of `Phrase`.  The same lemmas say where the
complaint of a stuck rule stands.  The proofs follow the recursion of the rules.

For statements the lemma also looks at the rest: an open statement is never followed by an `else`,
because it would have taken it.
-/

namespace Lox

open Reading

namespace Phrase

/-! ## Tokens of expressions -/

theorem Infix.isBoundary_eq_false {line : Int} {left right e : Expr} {level : Level}
    {k : Token.Kind} (h : Infix line left right level k e) : k.isBoundary = false := by
  cases h <;> rfl

/-- A token of a kind that is no boundary, on its own. -/
theorem isBoundary_singleton {t : Token} {k : Token.Kind} (h : t.kind = k)
    (hk : k.isBoundary = false) : ∀ x ∈ [t], x.kind.isBoundary = false := by
  intro x hx
  rw [List.mem_singleton.1 hx, h, hk]

mutual

/-- No token of an expression is a boundary. -/
theorem Expression.isBoundary_eq_false : {w : List Token} → {e : Expr} → Expression w e →
    ∀ t ∈ w, t.kind.isBoundary = false
  | _, _, .assign hname _ hequals hvalue => by
    have hrest := hvalue.isBoundary_eq_false
    simp only [List.forall_mem_cons, hname, hequals]
    exact ⟨rfl, rfl, hrest⟩
  | _, _, .operation h => h.isBoundary_eq_false

theorem Operation.isBoundary_eq_false : {levels : List Level} → {w : List Token} → {e : Expr} →
    Operation levels w e → ∀ t ∈ w, t.kind.isBoundary = false
  | _, _, _, .unary h => h.isBoundary_eq_false
  | _, _, _, .tighter h => h.isBoundary_eq_false
  | _, _, _, .join hleft hop hright => by
    have hl := hleft.isBoundary_eq_false
    have hr := hright.isBoundary_eq_false
    simp only [List.forall_mem_append, List.forall_mem_cons]
    exact ⟨hl, hop.isBoundary_eq_false, hr⟩

theorem Unary.isBoundary_eq_false : {w : List Token} → {e : Expr} → Unary w e →
    ∀ t ∈ w, t.kind.isBoundary = false
  | _, _, .not hop h => by
    have hrest := h.isBoundary_eq_false
    simp only [List.forall_mem_cons, hop]
    exact ⟨rfl, hrest⟩
  | _, _, .negate hop h => by
    have hrest := h.isBoundary_eq_false
    simp only [List.forall_mem_cons, hop]
    exact ⟨rfl, hrest⟩
  | _, _, .call h => h.isBoundary_eq_false

theorem Call.isBoundary_eq_false : {w : List Token} → {e : Expr} → Call w e →
    ∀ t ∈ w, t.kind.isBoundary = false
  | _, _, .call hname _ hparen hargs hstop => by
    have hrest := hargs.isBoundary_eq_false
    simp only [List.cons_append, List.forall_mem_append, List.forall_mem_cons, hname, hparen,
      hstop]
    exact ⟨rfl, rfl, hrest, rfl, by simp⟩
  | _, _, .primary h => h.isBoundary_eq_false

theorem Primary.isBoundary_eq_false : {w : List Token} → {e : Expr} → Primary w e →
    ∀ t ∈ w, t.kind.isBoundary = false
  | _, _, .number h _ => isBoundary_singleton h rfl
  | _, _, .string h _ => isBoundary_singleton h rfl
  | _, _, .trueWord h => isBoundary_singleton h rfl
  | _, _, .falseWord h => isBoundary_singleton h rfl
  | _, _, .nilWord h => isBoundary_singleton h rfl
  | _, _, .name h _ => isBoundary_singleton h rfl
  | _, _, .group hparen h hstop => by
    have hrest := h.isBoundary_eq_false
    simp only [List.cons_append, List.forall_mem_append, List.forall_mem_cons, hparen, hstop]
    exact ⟨rfl, hrest, rfl, by simp⟩

theorem Arguments.isBoundary_eq_false : {w : List Token} → {es : List Expr} → Arguments w es →
    ∀ t ∈ w, t.kind.isBoundary = false
  | _, _, .none => by simp
  | _, _, .some h => h.isBoundary_eq_false

theorem ArgumentList.isBoundary_eq_false : {w : List Token} → {es : List Expr} →
    ArgumentList w es → ∀ t ∈ w, t.kind.isBoundary = false
  | _, _, .one h => h.isBoundary_eq_false
  | _, _, .more hfirst hcomma hrest => by
    have hf := hfirst.isBoundary_eq_false
    have hr := hrest.isBoundary_eq_false
    simp only [List.forall_mem_append, List.forall_mem_cons, hcomma]
    exact ⟨hf, rfl, hr⟩

end

/-! ## Names -/

theorem Unary.eq_of_name {w : List Token} {line : Int} {x : String}
    (h : Unary w (.name line x)) : ∃ t, w = [t] ∧ t.kind = .identifier ∧ TextOf t x := by
  cases h with
  | call h =>
    cases h with
    | primary h =>
      cases h with
      | name h hx => exact ⟨_, rfl, h, hx⟩

theorem Infix.ne_name {line line' : Int} {left right e : Expr} {level : Level} {k : Token.Kind}
    {x : String} (h : Infix line left right level k e) : e ≠ .name line' x := by
  cases h <;> exact Expr.noConfusion

/-- Only a single token spells a name. -/
theorem Operation.eq_of_name {levels : List Level} {w : List Token} {e : Expr} {line : Int}
    {x : String} (h : Operation levels w e) (he : e = .name line x) :
    ∃ t, w = [t] ∧ t.kind = .identifier ∧ TextOf t x := by
  induction levels generalizing w with
  | nil =>
    cases h with
    | unary h => exact Unary.eq_of_name (he ▸ h)
  | cons level levels ih =>
    cases h with
    | tighter h => exact ih h
    | join _ hop _ => exact absurd he hop.ne_name

end Phrase

namespace Grammar

/-! ## Expressions -/

/-- The outcome of what follows the operand at the front of an expression. -/
theorem assignment_fits {w rest : List Token} {target : Expr}
    (htarget : Phrase.Operation Level.all w target)
    (ih : ∀ equals rest', rest = equals :: rest' →
      Fits (fun w e _ => Phrase.Expression w e) rest' (expression rest')) :
    Fits (fun v e _ => Phrase.Expression (w ++ v) e) rest (assignment target rest) := by
  cases rest with
  | nil => exact Fits.done (by simpa using .operation htarget)
  | cons equals rest =>
    simp only [assignment]
    split
    · rename_i hequals
      have hrest := ih equals rest rfl
      -- the target was read as an operand, and only now has to be a name
      cases target with
      | name line x =>
        obtain ⟨t, rfl, ht, hx⟩ := htarget.eq_of_name rfl
        refine Fits.shift_one (hrest.andThen fun v value rest' _ _ hvalue => ?_)
        exact Fits.done (by simpa using .assign ht hx hequals hvalue)
      | _ =>
        exact hrest.reject rfl (by rw [hequals]; rfl) fun _ _ _ h => h.isBoundary_eq_false
    · exact Fits.done (by simpa using .operation htarget)

/-- The outcome of what follows a primary expression. -/
theorem called_fits {w rest : List Token} {callee : Expr} (hcallee : Phrase.Primary w callee)
    (ih : ∀ paren rest', rest = paren :: rest' →
      Fits (fun w args _ => ∃ v stop, w = v ++ [stop] ∧ stop.kind = .rightParen ∧
        Phrase.Arguments v args) rest' (arguments rest')) :
    Fits (fun v e _ => Phrase.Call (w ++ v) e) rest (called callee rest) := by
  cases rest with
  | nil => exact Fits.done (by simpa using .primary hcallee)
  | cons paren rest =>
    simp only [called]
    split
    · rename_i hparen
      have hboundary : paren.kind.isBoundary = false := by rw [hparen]; rfl
      cases callee with
      | name line f =>
        obtain ⟨t, rfl, ht, hf⟩ := Phrase.Unary.eq_of_name (.call (.primary hcallee))
        refine Fits.shift_one ((ih paren rest rfl).andThen fun v args rest' _ _ hargs => ?_)
        obtain ⟨v, stop, rfl, hstop, hargs⟩ := hargs
        have hcall := Phrase.Call.call ht hf hparen hargs hstop
        -- one list of arguments is all that a call can have
        cases rest' with
        | nil => exact Fits.done (by simpa using hcall)
        | cons again rest' =>
          simp only [afterCall]
          split
          · rename_i hagain
            exact Fits.stuck_past rfl (by rw [hagain]; rfl)
          · exact Fits.done (by simpa using hcall)
      | _ => exact Fits.stuck_past rfl hboundary
    · exact Fits.done (by simpa using .primary hcallee)

/-- A leaf is a primary expression. -/
theorem leaf_primary {t : Token} {e : Expr} (h : t.leaf? = some e) : Phrase.Primary [t] e := by
  unfold Token.leaf? at h
  split at h
  all_goals cases h
  · exact .number ‹_› (Phrase.numberOf_numberValue t)
  · exact .string ‹_› (Phrase.textOf_textValue t)
  · exact .trueWord ‹_›
  · exact .falseWord ‹_›
  · exact .nilWord ‹_›
  · exact .name ‹_› (Phrase.textOf_textValue t)

/-- An operator in front of a unary phrase makes another one. -/
theorem unary_phrase {op : Token} {u : UnaryOp} {w : List Token} {e : Expr}
    (hop : op.kind.unary? = some u) (h : Phrase.Unary w e) :
    Phrase.Unary (op :: w) (.unary op.line u e) := by
  unfold Token.Kind.unary? at hop
  split at hop
  all_goals cases hop
  · exact .not ‹_› h
  · exact .negate ‹_› h

/-- What the rules of expressions make of tokens is phrases of their kinds. -/
theorem expressionRules_fit :
    (∀ ts, Fits (fun w e _ => Phrase.Expression w e) ts (expression ts)) ∧
    (∀ levels ts, Fits (fun w e _ => Phrase.Operation levels w e) ts (operation levels ts)) ∧
    (∀ level tighter left ts, ∀ v, Phrase.Operation (level :: tighter) v left →
      Fits (fun w e _ => Phrase.Operation (level :: tighter) (v ++ w) e) ts
        (operationTail level tighter left ts)) ∧
    (∀ ts, Fits (fun w e _ => Phrase.Unary w e) ts (unary ts)) ∧
    (∀ ts, Fits (fun w e _ => Phrase.Call w e) ts (call ts)) ∧
    (∀ ts, Fits (fun w args _ => ∃ v stop, w = v ++ [stop] ∧ stop.kind = .rightParen ∧
      Phrase.Arguments v args) ts (arguments ts)) ∧
    (∀ ts, Fits (fun w args _ => ∃ v stop, w = v ++ [stop] ∧ stop.kind = .rightParen ∧
      Phrase.ArgumentList v args) ts (argumentList ts)) ∧
    (∀ ts, Fits (fun w e _ => Phrase.Primary w e) ts (primary ts)) := by
  refine expression.mutual_induct _ _ _ _ _ _ _ _ ?expression ?operand ?operation ?tailEnd
    ?tailJoin ?tailStop ?unaryEnd ?unary ?unaryCall ?call ?argumentsEnd ?noArguments ?arguments
    ?argumentList ?primaryEnd ?leaf ?group ?noPrimary
  case expression =>
    intro ts hoperation hexpression
    rw [expression_eq]
    refine hoperation.andThen fun w target rest hle hts htarget => ?_
    refine assignment_fits htarget fun equals rest' hrest => ?_
    exact hexpression [] equals rest' (hrest ▸ hle)
  case operand =>
    intro ts h
    rw [operation]
    exact h.mono fun _ _ _ => .unary
  case operation =>
    intro ts level tighter hoperand htail
    rw [operation]
    exact hoperand.andThen fun w left rest hle _ hleft => htail left rest hle w (.tighter hleft)
  case tailEnd =>
    intro level tighter left v hv
    rw [operationTail]
    exact Fits.done (by simpa using hv)
  case tailJoin =>
    intro level tighter left op rest joint hop hoperand htail v hv
    rw [operationTail]
    simp only [hop]
    refine Fits.shift_one (hoperand.andThen fun w right rest' hle _ hright => ?_)
    have key := htail right rest' hle (v ++ op :: w) (.of_joint hv hop hright)
    exact key.mono fun _ _ _ h => by simpa using h
  case tailStop =>
    intro level tighter left op rest hop v hv
    rw [operationTail]
    simp only [hop]
    exact Fits.done (by simpa using hv)
  case unaryEnd =>
    intro h
    rw [unary]
    exact h.mono fun _ _ _ => .call
  case unary =>
    intro op rest u hop h
    rw [unary]
    simp only [hop]
    refine Fits.shift_one (h.andThen fun w e rest' _ _ he => Fits.done ?_)
    simpa using unary_phrase hop he
  case unaryCall =>
    intro op rest hop h
    rw [unary]
    simp only [hop]
    exact h.mono fun _ _ _ => .call
  case call =>
    intro ts hprimary harguments
    rw [call_eq]
    refine hprimary.andThen fun w callee rest hle _ hcallee => ?_
    refine called_fits hcallee fun paren rest' hrest => ?_
    exact harguments [] paren rest' (hrest ▸ hle)
  case argumentsEnd =>
    intro h
    rw [arguments]
    refine h.mono ?_
    rintro _ _ _ ⟨v, stop, hw, hstop, hv⟩
    exact ⟨v, stop, hw, hstop, .some hv⟩
  case noArguments =>
    intro t rest ht
    rw [arguments, if_pos ht]
    exact Fits.made_one ⟨[], t, rfl, ht, .none⟩
  case arguments =>
    intro t rest ht h
    rw [arguments, if_neg ht]
    refine h.mono ?_
    rintro _ _ _ ⟨v, stop, hw, hstop, hv⟩
    exact ⟨v, stop, hw, hstop, .some hv⟩
  case argumentList =>
    intro ts hexpression hlist
    rw [argumentList_eq]
    refine hexpression.andThen fun w first rest hle _ hfirst => ?_
    have hlast : ∀ t rest', rest = t :: rest' → t.kind = .rightParen →
        ∃ v stop, w ++ [t] = v ++ [stop] ∧ stop.kind = .rightParen ∧
          Phrase.ArgumentList v [first] :=
      fun t _ _ ht => ⟨w, t, rfl, ht, .one hfirst⟩
    cases rest with
    | nil => exact Fits.close hlast
    | cons t rest =>
      simp only [argumentTail]
      split
      · rename_i ht
        refine Fits.shift_one (Fits.map ((hlist [] t rest hle).mono ?_))
        rintro _ args _ ⟨v, stop, rfl, hstop, hv⟩
        exact ⟨w ++ t :: v, stop, by simp, hstop, .more hfirst ht hv⟩
      · exact Fits.close hlast
  case primaryEnd =>
    rw [primary]
    exact Fits.stuck_here rfl rfl
  case leaf =>
    intro t rest leaf hleaf
    rw [primary]
    simp only [hleaf]
    exact Fits.made_one (leaf_primary hleaf)
  case group =>
    intro t rest hleaf ht h
    rw [primary]
    simp only [hleaf, ht, if_true]
    refine Fits.shift_one (h.andThen fun w inner rest' _ _ hinner => Fits.close ?_)
    exact fun stop _ _ hstop => .group ht hinner hstop
  case noPrimary =>
    intro t rest hleaf ht
    rw [primary]
    simp only [hleaf, ht, if_false]
    exact Fits.stuck_here rfl rfl

theorem expression_fits (ts : List Token) :
    Fits (fun w e _ => Phrase.Expression w e) ts (expression ts) :=
  expressionRules_fit.1 ts

/-! ## Parts of statements -/

theorem expressionStatement_fits (ts : List Token) :
    Fits (fun w s _ => Phrase.ExpressionStatement w s) ts (expressionStatement ts) := by
  rw [expressionStatement]
  refine (expression_fits ts).andThen fun w e rest _ hts he => Fits.close fun stop _ _ hstop => ?_
  obtain ⟨first, v, rfl, _⟩ := he.exists_cons
  subst hts
  exact .mk he hstop

theorem printed_fits {word : Token} (hword : word.kind = .printWord) (ts : List Token) :
    Fits (fun w s _ => Phrase.Statement false (word :: w) s) ts (printed word.line ts) := by
  rw [printed]
  refine (expression_fits ts).andThen fun w e rest _ _ he => Fits.close fun stop _ _ hstop => ?_
  exact .print hword he hstop

theorem declared_fits {word : Token} (hword : word.kind = .varWord) (ts : List Token) :
    Fits (fun w s _ => Phrase.Variable (word :: w) s) ts (declared word.line ts) := by
  rw [declared]
  refine Fits.take fun name rest _ _ hname => ?_
  cases rest with
  | nil => exact Fits.close fun stop _ _ hstop => .plain hword hname hstop
  | cons t rest =>
    simp only
    split
    · rename_i hequals
      refine Fits.shift_one ((expression_fits rest).andThen fun w value _ _ _ hvalue => ?_)
      exact Fits.close fun stop _ _ hstop => .initialized hword hname hequals hvalue hstop
    · exact Fits.close fun stop _ _ hstop => .plain hword hname hstop

theorem optional_fits (stop : Token.Kind) (place : Place) (ts : List Token) :
    Fits (fun w value _ => Phrase.Optional stop w value) ts (optional stop place ts) := by
  have hexpression : Fits (fun w value _ => Phrase.Optional stop w value) ts
      ((expression ts).andThen ts fun value rest _ => close stop place rest (some value)) :=
    (expression_fits ts).andThen fun w e rest _ _ he => Fits.close fun t _ _ ht => .some he ht
  rw [optional]
  cases ts with
  | nil => exact hexpression
  | cons t rest =>
    simp only [startsWith, beq_iff_eq]
    split
    · rename_i ht
      exact Fits.made_one (.none ht)
    · exact hexpression

theorem condition_fits (before behind : Place) (ts : List Token) :
    Fits (fun w e _ => Phrase.Condition w e) ts (condition before behind ts) := by
  rw [condition]
  refine Fits.take fun paren rest _ _ hparen => ?_
  refine (expression_fits rest).andThen fun w e _ _ _ he => Fits.close fun stop _ _ hstop => ?_
  exact .mk hparen he hstop

theorem forStart_fits (ts : List Token) :
    Fits (fun w start _ => Phrase.ForStart w start.toList) ts (forStart ts) := by
  have hexpression : ∀ ts, Fits (fun w start _ => Phrase.ForStart w start.toList) ts
      ((expressionStatement ts).map some) :=
    fun ts => Fits.map ((expressionStatement_fits ts).mono fun _ _ _ => .expression)
  cases ts with
  | nil => exact hexpression []
  | cons t rest =>
    simp only [forStart]
    split
    · rename_i ht
      exact Fits.made_one (.none ht)
    · rename_i ht
      exact Fits.shift_one (Fits.map ((declared_fits ht rest).mono fun _ _ _ => .declare))
    · exact hexpression (t :: rest)

/-- Parameters with the parenthesis that closes them. -/
def ClosedParameters (w : List Token) (xs : List String) : Prop :=
  ∃ v stop, w = v ++ [stop] ∧ stop.kind = .rightParen ∧ Phrase.Parameters v xs

theorem parameterList_fits (ts : List Token) :
    Fits (fun w xs _ => ClosedParameters w xs ∧ w.length ≠ 1) ts (parameterList ts) := by
  fun_induction parameterList ts with
  | case1 => exact Fits.stuck_here rfl rfl
  | case2 name hname =>
    exact Fits.shift_one (Fits.close fun stop _ h _ => absurd h (by simp))
  | case3 name hname => exact Fits.stuck_here rfl rfl
  | case4 name t rest hname ht ih =>
    refine Fits.shift [name, t] (Fits.map (ih.mono ?_))
    rintro _ xs _ ⟨⟨v, stop, rfl, hstop, hv⟩, hne⟩
    obtain ⟨first, v, rfl⟩ : ∃ first v', v = first :: v' :=
      List.exists_cons_of_ne_nil (by rintro rfl; simp at hne)
    exact ⟨⟨name :: t :: first :: v, stop, by simp, hstop, .more hname ht hv⟩, by simp⟩
  | case5 name t rest hname ht =>
    refine Fits.shift_one (Fits.close fun stop _ _ hstop => ?_)
    exact ⟨⟨[name], stop, rfl, hstop, .one hname⟩, by simp⟩
  | case6 name t rest hname => exact Fits.stuck_here rfl rfl

theorem parameters_fits (ts : List Token) :
    Fits (fun w xs _ => ClosedParameters w xs) ts (parameters ts) := by
  have hlist : Fits (fun w xs _ => ClosedParameters w xs) ts (parameterList ts) :=
    (parameterList_fits ts).mono fun _ _ _ h => h.1
  rw [parameters]
  cases ts with
  | nil => exact hlist
  | cons t rest =>
    simp only [startsWith, beq_iff_eq]
    split
    · rename_i ht
      exact Fits.made_one ⟨[], t, rfl, ht, .none⟩
    · exact hlist

theorem functionHead_fits {word : Token} (hword : word.kind = .funWord) (ts : List Token) :
    Fits (fun w head _ => ∀ v closing body, Phrase.Declarations v body →
      closing.kind = .rightBrace → Phrase.Declaration false (word :: w ++ v ++ [closing])
        (.function word.line head.1 head.2.1 head.2.2 body)) ts (functionHead ts) := by
  rw [functionHead]
  refine Fits.take fun name rest _ _ hname => Fits.take fun paren rest _ _ hparen => ?_
  refine (parameters_fits rest).andThen fun w params rest _ _ hparams => ?_
  obtain ⟨v, stop, rfl, hstop, hv⟩ := hparams
  refine Fits.take fun brace rest _ _ hbrace => Fits.done fun u closing body hbody hclosing => ?_
  simpa using Phrase.Declaration.function hword hname hparen hv hstop hbrace hbody hclosing

/-! ## Statements -/

/-- The outcome of what follows the first branch of an `if`. -/
theorem otherwise_fits {word : Token} {u v rest : List Token} {test : Expr} {yes : Stmt}
    (hword : word.kind = .ifWord) (htest : Phrase.Condition u test)
    (hyes : Phrase.StatementBefore v yes rest)
    (ih : ∀ other rest', rest = other :: rest' →
      Fits Phrase.StatementBefore rest' (statement rest')) :
    Fits (fun w s rest => Phrase.StatementBefore (word :: u ++ v ++ w) s rest) rest
      (otherwise word.line test yes rest) := by
  obtain ⟨o, hv, hends⟩ := hyes
  have hthen : Phrase.Statement true (word :: u ++ v ++ []) (.ifThen word.line test yes) := by
    simpa using Phrase.Statement.ifThen hword htest hv
  cases rest with
  | nil => exact Fits.done ⟨true, hthen, fun _ => rfl⟩
  | cons other rest =>
    simp only [otherwise]
    split
    · rename_i hother
      -- an open branch would have taken the `else` itself
      have ho : o = false := by
        cases o with
        | false => rfl
        | true => exact absurd (hends rfl) (by simp [startsWith, hother])
      subst ho
      refine Fits.shift_one (Fits.map ((ih other rest rfl).mono ?_))
      rintro w no rest' ⟨o, hw, hends⟩
      exact ⟨o, .ifElse hword htest hv hother hw, hends⟩
    · rename_i hother
      exact Fits.done ⟨true, hthen, fun _ => by simpa [startsWith] using hother⟩

/-- A closed statement takes nothing of the rest, whatever it is. -/
theorem statementBefore_of_closed {w rest : List Token} {s : Stmt}
    (h : Phrase.Statement false w s) : Phrase.StatementBefore w s rest :=
  ⟨false, h, by simp [Phrase.Ends]⟩

/-- What the rules of statements make of tokens is phrases of their kinds, in front of a rest that
cannot belong to them. -/
theorem statementRules_fit :
    (∀ ts, Fits Phrase.DeclarationBefore ts (declaration ts)) ∧
    (∀ ts, Fits (fun w body _ => ∃ v closing, w = v ++ [closing] ∧ closing.kind = .rightBrace ∧
      Phrase.Declarations v body) ts (blockBody ts)) ∧
    (∀ ts, Fits Phrase.StatementBefore ts (statement ts)) := by
  refine declaration.mutual_induct _ _ _ ?declarationEnd ?declare ?function ?declaration
    ?blockEnd ?blockClosed ?block ?statementEnd ?print ?choice ?loop ?forLoop ?giveBack
    ?inBraces ?expression
  case declarationEnd =>
    intro h
    rw [declaration]
    refine h.mono ?_
    rintro _ _ _ ⟨o, hw, hends⟩
    exact ⟨o, .statement hw, hends⟩
  case declare =>
    intro t rest ht
    rw [declaration, ht]
    refine Fits.shift_one ((declared_fits ht rest).mono fun w s _ hs => ?_)
    exact ⟨false, .declare hs, by simp [Phrase.Ends]⟩
  case function =>
    intro t rest ht ih
    rw [declaration, ht]
    refine Fits.shift_one ((functionHead_fits ht rest).andThen fun w head rest' hle _ hhead => ?_)
    refine Fits.map ((ih rest' hle).mono ?_)
    rintro _ body _ ⟨v, closing, rfl, hclosing, hbody⟩
    exact ⟨false, by simpa using hhead v closing body hbody hclosing, by simp [Phrase.Ends]⟩
  case declaration =>
    intro t rest hvar hfun h
    rw [declaration_statement hvar hfun]
    refine h.mono ?_
    rintro _ _ _ ⟨o, hw, hends⟩
    exact ⟨o, .statement hw, hends⟩
  case blockEnd =>
    rw [blockBody]
    exact Fits.close fun t rest h _ => absurd h (by simp)
  case blockClosed =>
    intro t rest ht
    rw [blockBody, if_pos ht]
    exact Fits.made_one ⟨[], t, rfl, ht, .nil⟩
  case block =>
    intro t rest ht hfirst ih
    rw [blockBody, if_neg ht]
    refine hfirst.past ?_ fun w s rest' hle _ hs => ?_
    · rintro _ _ _ ⟨_, hdeclaration, _⟩
      exact hdeclaration.ne_nil
    obtain ⟨o, hw, _⟩ := hs
    refine Fits.map ((ih rest' hle).mono ?_)
    rintro _ body _ ⟨v, closing, rfl, hclosing, hbody⟩
    exact ⟨w ++ v, closing, by simp, hclosing, .cons hw hbody⟩
  case statementEnd =>
    rw [statement]
    exact (expressionStatement_fits []).mono fun _ _ _ h =>
      statementBefore_of_closed (.expression h)
  case print =>
    intro t rest ht
    rw [statement, ht]
    exact Fits.shift_one ((printed_fits ht rest).mono fun _ _ _ h => statementBefore_of_closed h)
  case choice =>
    intro t rest ht hyes hno
    rw [statement_if rest ht, chosen]
    refine Fits.shift_one ((condition_fits _ _ rest).andThen fun u test rest₁ h₁ _ htest => ?_)
    refine (hyes rest₁ h₁).andThen fun v yes rest₂ h₂ _ hv => ?_
    refine (otherwise_fits ht htest hv fun other rest₃ h => ?_).mono fun w s _ hs => ?_
    · exact hno rest₁ h₁ [] other rest₃ (h ▸ h₂)
    · simpa using hs
  case loop =>
    intro t rest ht ih
    rw [statement, ht]
    refine Fits.shift_one ((condition_fits _ _ rest).andThen fun u test rest' hle _ htest => ?_)
    refine Fits.map ((ih rest' hle).mono ?_)
    rintro v body _ ⟨o, hv, hends⟩
    exact ⟨o, .loop ht htest hv, hends⟩
  case forLoop =>
    intro t rest ht ih
    rw [statement, ht]
    refine Fits.shift_one (Fits.take fun paren rest₁ h₁ _ hparen => ?_)
    refine (forStart_fits rest₁).andThen fun u start rest₂ h₂ _ hstart => ?_
    refine (optional_fits _ _ rest₂).andThen fun v test rest₃ h₃ _ htest => ?_
    refine (optional_fits _ _ rest₃).andThen fun w step rest₄ h₄ _ hstep => ?_
    refine Fits.map ((ih rest₁ h₁ rest₂ h₂ rest₃ h₃ rest₄ h₄).mono ?_)
    rintro x body _ ⟨o, hx, hends⟩
    refine ⟨o, ?_, hends⟩
    rw [forLoop_eq]
    simpa using Phrase.Statement.forLoop ht hparen hstart htest hstep hx
  case giveBack =>
    intro t rest ht
    rw [statement, ht]
    refine Fits.shift_one (Fits.map ((optional_fits _ _ rest).mono fun _ _ _ h => ?_))
    exact statementBefore_of_closed (.giveBack ht h)
  case inBraces =>
    intro t rest ht ih
    rw [statement, ht]
    refine Fits.shift_one (Fits.map (ih.mono ?_))
    rintro _ body _ ⟨v, closing, rfl, hclosing, hbody⟩
    exact statementBefore_of_closed (.block ht hbody hclosing)
  case expression =>
    intro t rest h₁ h₂ h₃ h₄ h₅ h₆
    rw [statement_otherwise h₁ h₂ h₃ h₄ h₅ h₆]
    exact (expressionStatement_fits (t :: rest)).mono fun _ _ _ h =>
      statementBefore_of_closed (.expression h)

theorem declaration_fits (ts : List Token) :
    Fits Phrase.DeclarationBefore ts (declaration ts) :=
  statementRules_fit.1 ts

end Grammar

end Lox

import Lox.Proofs.Grammar.Phrase
import Lox.Proofs.Grammar.Reading

/-!
# The rules find every phrase

A phrase in front of any rest that cannot go on with it is read as such: the rule of its kind makes
its tree and takes its tokens, no more and no fewer.  What can go on with a phrase depends on its
kind: an infix operator of a level or an opening parenthesis for operands, an equals sign too for
expressions, and an `else` for open statements.

The relations group operators to the left by left recursion and the rules by a loop.  The two meet
in `Operation.read`, which says how far the loop has come when it has read a phrase, so that the
next operator can be joined to it.
-/

namespace Lox

open Reading

namespace Phrase

/-! ## What can follow an operand -/

/-- The rest cannot go on with an operand of the given levels. -/
def Follows (levels : List Level) (rest : List Token) : Prop :=
  ∀ t ∈ rest.head?, t.kind ≠ .leftParen ∧ ∀ level ∈ levels, level.joint? t.kind = none

/-- The rest cannot go on with an expression. -/
def FollowsExpression (rest : List Token) : Prop :=
  Follows Level.all rest ∧ startsWith .equal rest = false

/-- A token of this kind cannot go on with an expression. -/
def endsExpression (k : Token.Kind) : Bool :=
  k != .leftParen && k != .equal && Level.all.all fun level => (level.joint? k).isNone

theorem Follows.tail {levels : List Level} {rest : List Token} (h : Follows levels rest) :
    Follows levels.tail rest :=
  fun t ht => ⟨(h t ht).1, fun l hl => (h t ht).2 l (List.mem_of_mem_tail hl)⟩

theorem Follows.nil {levels : List Level} {rest : List Token} (h : Follows levels rest) :
    Follows [] rest :=
  fun t ht => ⟨(h t ht).1, by simp⟩

/-- An operator belongs to one level only. -/
theorem eq_of_joint {level level' : Level} {k : Token.Kind} {joint joint' : Joint}
    (h : level.joint? k = some joint) (h' : level'.joint? k = some joint') : level = level' := by
  unfold Level.joint? at h
  split at h
  all_goals cases h
  all_goals cases level' <;> first | rfl | cases h'

/-- An operator of a level cannot go on with an operand of the tighter levels. -/
theorem follows_of_joint {level : Level} {tighter : List Level} {op : Token} {joint : Joint}
    (hnodup : (level :: tighter).Nodup) (hop : level.joint? op.kind = some joint)
    (rest : List Token) : Follows tighter (op :: rest) := by
  intro t ht
  obtain rfl : op = t := by simpa using ht
  refine ⟨fun hparen => ?_, fun level' hlevel' => ?_⟩
  · rw [hparen] at hop
    cases level <;> cases hop
  · rw [Option.eq_none_iff_forall_ne_some]
    intro joint' hjoint'
    obtain rfl := eq_of_joint hop hjoint'
    exact (List.nodup_cons.1 hnodup).1 hlevel'

theorem followsExpression_of_kind {t : Token} {k : Token.Kind} (ht : t.kind = k)
    (hk : endsExpression k = true) (rest : List Token) : FollowsExpression (t :: rest) := by
  subst ht
  simp only [endsExpression, Bool.and_eq_true, bne_iff_ne, ne_eq, List.all_eq_true,
    Option.isNone_iff_eq_none] at hk
  refine ⟨fun t' ht' => ?_, by simpa [startsWith] using hk.1.2⟩
  obtain rfl : t = t' := by simpa using ht'
  exact ⟨hk.1.1, hk.2⟩

/-! ## Expressions -/

/-- What the rule for operands of the given levels goes on with behind an operand. -/
def afterOperand (levels : List Level) (e : Expr) (rest : List Token) : Reading Expr :=
  match levels with
  | [] => done e
  | level :: tighter => Grammar.operationTail level tighter e rest

theorem afterOperand_eq_done {levels : List Level} {rest : List Token}
    (h : Follows levels rest) (e : Expr) : afterOperand levels e rest = done e := by
  cases levels with
  | nil => rfl
  | cons level tighter =>
    rw [afterOperand, Grammar.operationTail.eq_def]
    cases rest with
    | nil => rfl
    | cons op rest =>
      have hop : level.joint? op.kind = none := (h op (by simp)).2 level (by simp)
      simp only [hop]

/-- A primary expression that is not called. -/
theorem call_of_primary {w rest : List Token} {e : Expr}
    (h : Grammar.primary (w ++ rest) = made e w.length) (hrest : Follows [] rest) :
    Grammar.call (w ++ rest) = made e w.length := by
  rw [Grammar.call_eq, andThen_eq w rest h rfl rfl]
  cases rest with
  | nil => rfl
  | cons paren rest =>
    have hparen : paren.kind ≠ .leftParen := (hrest paren (by simp)).1
    rw [Grammar.called.eq_def]
    simp only [if_neg hparen, shift_done]

theorem unary_eq_call {t : Token} (h : t.kind.unary? = none) (rest : List Token) :
    Grammar.unary (t :: rest) = Grammar.call (t :: rest) := by
  rw [Grammar.unary, h]

theorem unary_operator {op : Token} {u : UnaryOp} {w rest : List Token} {e : Expr}
    (hop : op.kind.unary? = some u) (h : Grammar.unary (w ++ rest) = made e w.length) :
    Grammar.unary (op :: w ++ rest) = made (.unary op.line u e) (op :: w).length := by
  rw [List.cons_append, Grammar.unary]
  simp only [hop]
  rw [andThen_eq w rest h rfl rfl, shift_done, shift_made, List.length_cons, Nat.add_comm]

theorem Call.unary_eq_none {t : Token} {w : List Token} {e : Expr} (h : Call (t :: w) e) :
    t.kind.unary? = none := by
  cases h with
  | call hname _ _ _ _ => rw [hname]; rfl
  | primary h =>
    cases h with
    | group hparen _ _ => rw [hparen]; rfl
    | number h _ => rw [h]; rfl
    | string h _ => rw [h]; rfl
    | trueWord h => rw [h]; rfl
    | falseWord h => rw [h]; rfl
    | nilWord h => rw [h]; rfl
    | name h _ => rw [h]; rfl

/-- An operand of the tightest kind that no operator follows. -/
theorem operation_of_unary {w rest : List Token} {e : Expr}
    (h : Grammar.unary (w ++ rest) = made e w.length) {levels : List Level}
    (hrest : Follows levels rest) : Grammar.operation levels (w ++ rest) = made e w.length := by
  induction levels with
  | nil => rw [Grammar.operation, h]
  | cons level tighter ih =>
    rw [Grammar.operation, andThen_eq w rest (ih hrest.tail) rfl rfl]
    have hdone := afterOperand_eq_done hrest e
    rw [afterOperand] at hdone
    rw [hdone, shift_done]

/-- A leaf is read by the first token alone. -/
theorem primary_leaf {t : Token} {e : Expr} (h : t.leaf? = some e) (rest : List Token) :
    Grammar.primary (t :: rest) = made e 1 := by
  rw [Grammar.primary, h]

theorem leaf?_name {t : Token} {x : String} (h : t.kind = .identifier) (hx : TextOf t x) :
    t.leaf? = some (.name t.line x) := by
  rw [Token.leaf?, h, textOf_iff.mp hx]

theorem operation_name {name : Token} {x : String} (hname : name.kind = .identifier)
    (hx : TextOf name x) {levels : List Level} {rest : List Token} (hrest : Follows levels rest) :
    Grammar.operation levels (name :: rest) = made (.name name.line x) 1 := by
  have hcall : Grammar.call ([name] ++ rest) = made (.name name.line x) 1 :=
    call_of_primary (primary_leaf (leaf?_name hname hx) rest) hrest.nil
  have hunary : Grammar.unary ([name] ++ rest) = Grammar.call ([name] ++ rest) :=
    unary_eq_call (by rw [hname]; rfl) rest
  exact operation_of_unary (hunary.trans hcall) hrest

mutual

theorem Expression.read : {w : List Token} → {e : Expr} → Expression w e →
    ∀ rest, FollowsExpression rest → Grammar.expression (w ++ rest) = made e w.length
  | _, _, @Expression.assign name equals w _ _ hname hx hequals hvalue => by
    intro rest hrest
    -- The target is read as an operand, which `=` does not go on with.
    have hfollows : Follows Level.all (equals :: (w ++ rest)) := by
      intro t ht
      obtain rfl : equals = t := by simpa using ht
      rw [hequals]
      decide
    have htarget := operation_name hname hx hfollows
    have hv := hvalue.read rest hrest
    rw [List.cons_append, List.cons_append, Grammar.expression_eq,
      andThen_eq [name] (equals :: (w ++ rest)) htarget (by rfl) rfl,
      Grammar.assignment, if_pos hequals, andThen_eq w rest hv rfl rfl]
    simp [Nat.add_comm, Nat.add_left_comm]
  | w, _, .operation h => by
    intro rest hrest
    have hop := h.read (by decide) rest hrest.1.tail
    rw [← levels_eq, afterOperand_eq_done hrest.1, shift_done] at hop
    rw [Grammar.expression_eq, andThen_eq w rest hop rfl rfl]
    cases rest with
    | nil => rfl
    | cons t rest =>
      have ht : t.kind ≠ .equal := by simpa [startsWith] using hrest.2
      rw [Grammar.assignment, if_neg ht, shift_done]

theorem Operation.read : {levels : List Level} → {w : List Token} → {e : Expr} →
    Operation levels w e → levels.Nodup → ∀ rest, Follows levels.tail rest →
    Grammar.operation levels (w ++ rest) = (afterOperand levels e rest).shift w.length
  | _, _, _, .unary h => by
    intro _ rest hrest
    rw [Grammar.operation, h.read rest hrest]
    rfl
  | _, w, _, .tighter h => by
    intro hnodup rest hrest
    rw [List.tail_cons] at hrest
    have key := h.read (List.nodup_cons.1 hnodup).2 rest hrest.tail
    rw [afterOperand_eq_done hrest, shift_done] at key
    rw [Grammar.operation, andThen_eq w rest key rfl rfl]
    rfl
  | _, _, _, @Operation.join level tighter v w op left right _ hleft hinfix hright => by
    intro hnodup rest hrest
    rw [List.tail_cons] at hrest
    obtain ⟨joint, hop, rfl⟩ := infix_iff.mp hinfix
    have hr := hright.read (List.nodup_cons.1 hnodup).2 rest hrest.tail
    rw [afterOperand_eq_done hrest, shift_done] at hr
    -- the loop has read the left operand and stands in front of the operator
    have hl := hleft.read hnodup (op :: (w ++ rest)) (follows_of_joint hnodup hop _)
    rw [List.append_assoc, List.cons_append, hl, afterOperand, Grammar.operationTail]
    simp only [hop]
    rw [andThen_eq w rest hr rfl rfl]
    simp [afterOperand, Nat.add_comm]

theorem Unary.read : {w : List Token} → {e : Expr} → Unary w e →
    ∀ rest, Follows [] rest → Grammar.unary (w ++ rest) = made e w.length
  | _, _, .not hop h => fun rest hrest => unary_operator (by rw [hop]; rfl) (h.read rest hrest)
  | _, _, .negate hop h => fun rest hrest =>
    unary_operator (by rw [hop]; rfl) (h.read rest hrest)
  | _, _, .call h => by
    intro rest hrest
    have key := h.read rest hrest
    obtain ⟨t, v, rfl, _⟩ := h.exists_cons
    rw [← key]
    exact unary_eq_call h.unary_eq_none _

theorem Call.read : {w : List Token} → {e : Expr} → Call w e →
    ∀ rest, Follows [] rest → Grammar.call (w ++ rest) = made e w.length
  | _, _, @Call.call name paren stop w f args hname hf hparen hargs hstop => by
    intro rest hrest
    have hcallee := primary_leaf (leaf?_name hname hf) (paren :: (w ++ stop :: rest))
    have ha := hargs.read stop rest hstop
    -- No second list of arguments follows.
    have hafter : Grammar.afterCall (.call paren.line f (args.take maxArguments)) rest =
        done (.call paren.line f (args.take maxArguments)) := by
      cases rest with
      | nil => rfl
      | cons again rest => rw [Grammar.afterCall, if_neg (hrest again (by simp)).1]
    simp only [List.append_assoc, List.cons_append, List.nil_append]
    rw [Grammar.call_eq, andThen_eq [name] (paren :: (w ++ stop :: rest)) hcallee (by rfl) rfl,
      Grammar.called, if_pos hparen, andThen_eq (w ++ [stop]) rest ha (by simp) (by simp), hafter]
    simp [Nat.add_comm, Nat.add_left_comm]
  | _, _, .primary h => fun rest hrest => call_of_primary (h.read rest) hrest

theorem Primary.read : {w : List Token} → {e : Expr} → Primary w e →
    ∀ rest, Grammar.primary (w ++ rest) = made e w.length
  | _, _, .number h hx => primary_leaf (by rw [Token.leaf?, h, numberOf_iff.mp hx])
  | _, _, .string h hs => primary_leaf (by rw [Token.leaf?, h, textOf_iff.mp hs])
  | _, _, .trueWord h => primary_leaf (by rw [Token.leaf?, h])
  | _, _, .falseWord h => primary_leaf (by rw [Token.leaf?, h])
  | _, _, .nilWord h => primary_leaf (by rw [Token.leaf?, h])
  | _, _, .name h hx => primary_leaf (leaf?_name h hx)
  | _, _, @Primary.group paren stop w _ hparen h hstop => by
    intro rest
    have hleaf : paren.leaf? = none := by rw [Token.leaf?, hparen]
    have hinner := h.read (stop :: rest) (followsExpression_of_kind hstop rfl rest)
    rw [List.append_assoc, List.cons_append, List.singleton_append, Grammar.primary, hleaf]
    simp only [if_pos hparen]
    rw [andThen_eq w (stop :: rest) hinner rfl rfl, close_cons _ _ hstop]
    simp [Nat.add_comm, Nat.add_left_comm]

theorem Arguments.read : {w : List Token} → {es : List Expr} → Arguments w es →
    ∀ stop rest, stop.kind = .rightParen →
    Grammar.arguments (w ++ stop :: rest) = made es (w.length + 1)
  | _, _, .none => by
    intro stop rest hstop
    rw [List.nil_append, Grammar.arguments, if_pos hstop]
    rfl
  | _, _, .some h => by
    intro stop rest hstop
    have key := h.read stop rest hstop
    obtain ⟨t, v, rfl, ht⟩ := h.exists_cons
    have hparen : t.kind ≠ .rightParen := kind_ne_of ht rfl
    rw [List.cons_append, Grammar.arguments, if_neg hparen]
    exact key

theorem ArgumentList.read : {w : List Token} → {es : List Expr} → ArgumentList w es →
    ∀ stop rest, stop.kind = .rightParen →
    Grammar.argumentList (w ++ stop :: rest) = made es (w.length + 1)
  | w, _, .one h => by
    intro stop rest hstop
    have key := h.read (stop :: rest) (followsExpression_of_kind hstop rfl rest)
    have hcomma : stop.kind ≠ .comma := by rw [hstop]; decide
    rw [Grammar.argumentList_eq, andThen_eq w (stop :: rest) key rfl rfl, Grammar.argumentTail,
      if_neg hcomma, close_cons _ _ hstop, shift_made]
  | _, _, @ArgumentList.more v w comma _ _ hfirst hcomma hrest => by
    intro stop rest hstop
    have hf := hfirst.read (comma :: (w ++ stop :: rest)) (followsExpression_of_kind hcomma rfl _)
    have hr := hrest.read stop rest hstop
    rw [List.append_assoc, List.cons_append, Grammar.argumentList_eq, andThen_eq v _ hf rfl rfl,
      Grammar.argumentTail, if_pos hcomma, hr]
    simp [Nat.add_comm, Nat.add_left_comm]

end

/-! ## Parts of statements -/

/-- An expression in front of a token that ends it. -/
theorem Expression.read_stop {w : List Token} {e : Expr} (h : Expression w e) {stop : Token}
    {k : Token.Kind} (hstop : stop.kind = k) (hk : endsExpression k = true) (rest : List Token) :
    Grammar.expression (w ++ stop :: rest) = made e w.length :=
  h.read (stop :: rest) (followsExpression_of_kind hstop hk rest)

theorem ExpressionStatement.read {w : List Token} {s : Stmt} (h : ExpressionStatement w s)
    (rest : List Token) : Grammar.expressionStatement (w ++ rest) = made s w.length := by
  cases h with
  | @mk first stop w e he hstop =>
    rw [List.append_assoc, List.singleton_append, Grammar.expressionStatement,
      andThen_eq _ _ (he.read_stop hstop rfl rest) rfl rfl, close_cons _ _ hstop]
    simp

/-- A variable declaration is read behind its keyword. -/
theorem Variable.read {w : List Token} {s : Stmt} (h : Variable w s) :
    ∃ word v, w = word :: v ∧ word.kind = .varWord ∧
      ∀ rest, Grammar.declared word.line (v ++ rest) = made s v.length := by
  cases h with
  | @plain word name stop hword hname hstop =>
    refine ⟨word, [name, stop], rfl, hword, fun rest => ?_⟩
    have hequals : stop.kind ≠ .equal := by rw [hstop]; decide
    simp only [List.cons_append, List.nil_append]
    rw [Grammar.declared, take_cons _ _ hname]
    simp only [if_neg hequals]
    rw [close_cons _ _ hstop]
    rfl
  | @initialized word name equals stop w value hword hname hequals hvalue hstop =>
    refine ⟨word, name :: equals :: w ++ [stop], rfl, hword, fun rest => ?_⟩
    simp only [List.append_assoc, List.cons_append, List.nil_append]
    rw [Grammar.declared, take_cons _ _ hname]
    simp only [if_pos hequals]
    rw [andThen_eq _ _ (hvalue.read_stop hstop rfl rest) rfl rfl, close_cons _ _ hstop]
    simp [Nat.add_comm, Nat.add_left_comm]

theorem Optional.read {stop : Token.Kind} {w : List Token} {value : Option Expr}
    (h : Optional stop w value) (hends : endsExpression stop = true)
    (hstarts : startsExpression stop = false) (place : Place) (rest : List Token) :
    Grammar.optional stop place (w ++ rest) = made value w.length := by
  cases h with
  | @none t ht =>
    rw [List.singleton_append, Grammar.optional, startsWith, ht, if_pos (by simp)]
    rfl
  | @some w t e he ht =>
    have hw : startsWith stop (w ++ t :: rest) = false := by
      obtain ⟨first, v, rfl, hfirst⟩ := he.exists_cons
      simp only [List.cons_append, startsWith, beq_eq_false_iff_ne]
      exact kind_ne_of hfirst hstarts
    rw [List.append_assoc, List.singleton_append, Grammar.optional, hw, if_neg (by simp),
      andThen_eq _ _ (he.read_stop ht hends rest) rfl rfl, close_cons _ _ ht]
    simp

theorem Condition.read {w : List Token} {e : Expr} (h : Condition w e) (before behind : Place)
    (rest : List Token) : Grammar.condition before behind (w ++ rest) = made e w.length := by
  cases h with
  | @mk paren stop w _ hparen he hstop =>
    rw [List.append_assoc, List.cons_append, List.singleton_append, Grammar.condition,
      take_cons _ _ hparen, andThen_eq _ _ (he.read_stop hstop rfl rest) rfl rfl,
      close_cons _ _ hstop]
    simp [Nat.add_comm]

theorem forStart_expression {t : Token} (h : startsExpression t.kind = true)
    (rest : List Token) :
    Grammar.forStart (t :: rest) = (Grammar.expressionStatement (t :: rest)).map some := by
  rw [Grammar.forStart]
  split
  · rename_i ht
    rw [ht] at h
    exact absurd h (by decide)
  · rename_i ht
    rw [ht] at h
    exact absurd h (by decide)
  · rfl

theorem ForStart.read {w : List Token} {start : List Stmt} (h : ForStart w start)
    (rest : List Token) :
    ∃ start?, Option.toList start? = start ∧
      Grammar.forStart (w ++ rest) = made start? w.length := by
  cases h with
  | @none stop hstop =>
    refine ⟨Option.none, rfl, ?_⟩
    rw [List.singleton_append, Grammar.forStart, hstop]
    rfl
  | @declare w s h =>
    refine ⟨some s, rfl, ?_⟩
    obtain ⟨word, v, rfl, hword, key⟩ := h.read
    rw [List.cons_append, Grammar.forStart, hword]
    simp only
    rw [key rest]
    simp [Nat.add_comm]
  | @expression w s h =>
    refine ⟨some s, rfl, ?_⟩
    have key := h.read rest
    obtain ⟨t, v, rfl, ht⟩ := h.exists_cons
    rw [List.cons_append] at key ⊢
    rw [forStart_expression ht, key]
    rfl

theorem Parameters.read_list : {w : List Token} → {xs : List String} → Parameters w xs → w ≠ [] →
    ∀ stop rest, stop.kind = .rightParen →
    Grammar.parameterList (w ++ stop :: rest) = made xs (w.length + 1)
  | _, _, .none, h => absurd rfl h
  | _, _, .one hname, _ => by
    intro stop rest hstop
    have hcomma : stop.kind ≠ .comma := by rw [hstop]; decide
    rw [List.singleton_append, Grammar.parameterList, if_pos hname, if_neg hcomma,
      close_cons _ _ hstop]
    rfl
  | _, _, .more hname hcomma hrest, _ => by
    intro stop rest hstop
    have key := hrest.read_list (List.cons_ne_nil _ _) stop rest hstop
    rw [List.cons_append, List.cons_append, Grammar.parameterList, if_pos hname, if_pos hcomma,
      key]
    simp only [map_made, shift_made, List.length_cons]
    congr 1
    omega

theorem Parameters.read {w : List Token} {xs : List String} (h : Parameters w xs) (stop : Token)
    (rest : List Token) (hstop : stop.kind = .rightParen) :
    Grammar.parameters (w ++ stop :: rest) = made xs (w.length + 1) := by
  rw [Grammar.parameters]
  cases w with
  | nil =>
    cases h
    rw [List.nil_append, startsWith, hstop, if_pos (by simp)]
    rfl
  | cons t w =>
    have ht : t.kind = .identifier := by
      cases h with
      | one hname => exact hname
      | more hname _ _ => exact hname
    rw [List.cons_append, startsWith, ht, if_neg (by decide)]
    exact h.read_list (List.cons_ne_nil t w) stop rest hstop

/-! ## Statements -/

theorem statement_expression {t : Token} (h : startsExpression t.kind = true)
    (rest : List Token) :
    Grammar.statement (t :: rest) = Grammar.expressionStatement (t :: rest) := by
  rw [Grammar.statement]
  split
  all_goals first
    | rfl
    | (rename_i ht; rw [ht] at h; exact absurd h (by decide))

/-- A statement that declares nothing begins with neither of the declaring words. -/
theorem Statement.not_declaring {o : Bool} {w : List Token} {s : Stmt} (h : Statement o w s) :
    ∃ t v, w = t :: v ∧ t.kind ≠ .varWord ∧ t.kind ≠ .funWord := by
  cases h with
  | expression h =>
    obtain ⟨t, v, rfl, ht⟩ := h.exists_cons
    exact ⟨t, v, rfl, kind_ne_of ht rfl, kind_ne_of ht rfl⟩
  | print hword _ _ => exact ⟨_, _, rfl, by rw [hword]; decide, by rw [hword]; decide⟩
  | giveBack hword _ => exact ⟨_, _, rfl, by rw [hword]; decide, by rw [hword]; decide⟩
  | block hbrace _ _ => exact ⟨_, _, rfl, by rw [hbrace]; decide, by rw [hbrace]; decide⟩
  | ifThen hword _ _ => exact ⟨_, _, rfl, by rw [hword]; decide, by rw [hword]; decide⟩
  | ifElse hword _ _ _ _ => exact ⟨_, _, rfl, by rw [hword]; decide, by rw [hword]; decide⟩
  | loop hword _ _ => exact ⟨_, _, rfl, by rw [hword]; decide, by rw [hword]; decide⟩
  | forLoop hword _ _ _ _ _ => exact ⟨_, _, rfl, by rw [hword]; decide, by rw [hword]; decide⟩

/-- Without an `else` behind its first branch an `if` is over. -/
theorem otherwise_eq_done {rest : List Token} (h : startsWith .elseWord rest = false)
    (line : Int) (test : Expr) (yes : Stmt) :
    Grammar.otherwise line test yes rest = done (.ifThen line test yes) := by
  cases rest with
  | nil => rfl
  | cons t rest =>
    have ht : t.kind ≠ .elseWord := by simpa [startsWith] using h
    rw [Grammar.otherwise, if_neg ht]

mutual

theorem Declaration.read : {o : Bool} → {w : List Token} → {s : Stmt} → Declaration o w s →
    ∀ rest, Ends o rest → Grammar.declaration (w ++ rest) = made s w.length
  | _, _, _, .declare h => by
    intro rest _
    obtain ⟨word, v, rfl, hword, key⟩ := h.read
    rw [List.cons_append, Grammar.declaration, hword]
    simp only
    rw [key rest]
    simp [Nat.add_comm]
  | _, _, _, @Declaration.function word name paren stop brace closing v w xs body hword hname hparen
      hparams hstop hbrace hbody hclosing => by
    intro rest _
    have hp := hparams.read stop (brace :: (w ++ closing :: rest)) hstop
    have hhead : Grammar.functionHead
        (name :: paren :: (v ++ stop :: brace :: (w ++ closing :: rest))) =
        made (name.lexeme, xs.take maxArguments, brace.line) (v.length + 4) := by
      rw [Grammar.functionHead, take_cons _ _ hname, take_cons _ _ hparen,
        andThen_eq (v ++ [stop]) (brace :: (w ++ closing :: rest)) hp (by simp) (by simp),
        take_cons _ _ hbrace]
      simp only [shift_done, shift_made]
      congr 1
      omega
    have hb := hbody.read closing rest hclosing
    simp only [List.append_assoc, List.cons_append, List.nil_append]
    rw [Grammar.declaration, hword]
    simp only
    rw [andThen_eq (name :: paren :: v ++ [stop, brace]) (w ++ closing :: rest) hhead (by simp)
      (by simp), hb]
    simp only [map_made, shift_made, List.length_cons, List.length_append, List.length_nil]
    congr 1
    omega
  | _, _, _, .statement h => by
    intro rest hrest
    have key := h.read rest hrest
    obtain ⟨t, v, rfl, hvar, hfun⟩ := h.not_declaring
    rw [← key]
    exact Grammar.declaration_statement hvar hfun _

theorem Statement.read : {o : Bool} → {w : List Token} → {s : Stmt} → Statement o w s →
    ∀ rest, Ends o rest → Grammar.statement (w ++ rest) = made s w.length
  | _, _, _, .expression h => by
    intro rest _
    have key := h.read rest
    obtain ⟨t, v, rfl, ht⟩ := h.exists_cons
    rw [← key]
    exact statement_expression ht _
  | _, _, _, @Statement.print word stop w e hword he hstop => by
    intro rest _
    rw [List.append_assoc, List.cons_append, List.singleton_append, Grammar.statement, hword]
    simp only [Grammar.printed]
    rw [andThen_eq w _ (he.read_stop hstop rfl rest) rfl rfl, close_cons _ _ hstop]
    simp [Nat.add_comm, Nat.add_left_comm]
  | _, _, _, @Statement.giveBack word w value hword hvalue => by
    intro rest _
    rw [List.cons_append, Grammar.statement, hword]
    simp only [Grammar.givenBack]
    rw [hvalue.read rfl rfl _ rest]
    simp [Nat.add_comm]
  | _, _, _, @Statement.block brace closing w body hbrace hbody hclosing => by
    intro rest _
    have key := hbody.read closing rest hclosing
    rw [List.append_assoc, List.cons_append, List.singleton_append, Grammar.statement, hbrace]
    simp only
    rw [key]
    simp [Nat.add_comm]
  | _, _, _, @Statement.ifThen word u v test o yes hword htest hyes => by
    intro rest hrest
    -- An `if` without an `else` is open whatever its branch is, so no `else` follows.
    have hy := hyes.read rest fun _ => hrest rfl
    rw [List.append_assoc, List.cons_append, Grammar.statement_if _ hword, Grammar.chosen,
      andThen_eq u _ (htest.read _ _ _) rfl rfl, andThen_eq v rest hy rfl rfl,
      otherwise_eq_done (hrest rfl)]
    simp [Nat.add_comm]
  | _, _, _, @Statement.ifElse word other u v w test o yes no hword htest hyes hother hno => by
    intro rest hrest
    -- The first branch is closed, so it leaves the `else` behind it alone.
    have hy := hyes.read (other :: (w ++ rest)) (by simp [Ends])
    have hn := hno.read rest hrest
    simp only [List.append_assoc, List.cons_append]
    rw [Grammar.statement_if _ hword, Grammar.chosen,
      andThen_eq u _ (htest.read _ _ _) rfl rfl, andThen_eq v _ hy rfl rfl, Grammar.otherwise,
      if_pos hother, hn]
    simp [Nat.add_comm, Nat.add_left_comm]
  | _, _, _, @Statement.loop word u v test o body hword htest hbody => by
    intro rest hrest
    have hb := hbody.read rest hrest
    rw [List.append_assoc, List.cons_append, Grammar.statement, hword]
    simp only
    rw [andThen_eq u _ (htest.read _ _ _) rfl rfl, hb]
    simp [Nat.add_comm]
  | _, _, _, @Statement.forLoop word paren u v w x start test step o body hword hparen hstart htest
      hstep hbody => by
    intro rest hrest
    have hb := hbody.read rest hrest
    obtain ⟨start?, rfl, hs⟩ := hstart.read (v ++ (w ++ (x ++ rest)))
    simp only [List.append_assoc, List.cons_append]
    rw [Grammar.statement, hword]
    simp only
    rw [take_cons _ _ hparen, andThen_eq u _ hs rfl rfl,
      andThen_eq v _ (htest.read rfl rfl _ _) rfl rfl,
      andThen_eq w _ (hstep.read rfl rfl _ _) rfl rfl, hb]
    simp only [map_made, shift_made, Grammar.forLoop_eq]
    simp [Nat.add_comm, Nat.add_left_comm]

theorem Declarations.read : {w : List Token} → {body : List Stmt} → Declarations w body →
    ∀ closing rest, closing.kind = .rightBrace →
    Grammar.blockBody (w ++ closing :: rest) = made body (w.length + 1)
  | _, _, .nil => by
    intro closing rest hclosing
    rw [List.nil_append, Grammar.blockBody, if_pos hclosing]
    rfl
  | _, _, @Declarations.cons o v w s ss hfirst hrest => by
    intro closing rest hclosing
    -- Neither the declarations that follow nor the closing brace are an `else`.
    have helse : startsWith .elseWord (w ++ closing :: rest) = false :=
      hrest.startsWith_else (by rw [startsWith, hclosing]; rfl)
    have hf := hfirst.read (w ++ closing :: rest) fun _ => helse
    have hr := hrest.read closing rest hclosing
    obtain ⟨t, v, rfl, ht⟩ := hfirst.exists_cons
    have hbrace : t.kind ≠ .rightBrace := kind_ne_of ht rfl
    rw [List.append_assoc, List.cons_append] at *
    rw [Grammar.blockBody, if_neg hbrace, past_eq v _ hf (by rfl) rfl, hr]
    simp only [map_made, shift_made, List.length_cons, List.length_append]
    congr 1

end

end Phrase

end Lox

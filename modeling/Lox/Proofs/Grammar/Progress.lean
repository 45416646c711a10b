import Lox.Proofs.Grammar.Passage

/-!
# Progress

Reading always gets on: a rule that makes something takes at least one token, and no rule goes past
the end of the input (`Rule.advances`).  So the loop over the declarations of a program needs no
more rounds than there are tokens, although it only steps over a token by itself behind a complaint
(`rounds_eq_statements`).  The loop in a block never does so, and goes on right behind what it has
read (`blockBody_eq_andThen`).

What is found is bounded by what there is to read, also if the statements inside of others are
counted (`size_statements_le`).  What stands behind the first end of the input is not looked at
(`Token.parse_orderly`).
-/

namespace Lox

/-! ## Readings that get on -/

namespace Reading

variable {α : Type} {ts : List Token} {r : Reading α} {P : List Token → α → List Token → Prop}

/-- A reading of `ts` passes no more tokens than there are, and at least one if it makes something
of them. -/
def Advances (ts : List Token) : Reading α → Prop
  | made _ n => 1 ≤ n ∧ n ≤ ts.length
  | stuck _ n => n ≤ ts.length

theorem Fits.advances (h : Fits P ts r) (hne : ∀ w a rest, P w a rest → w ≠ []) :
    r.Advances ts := by
  cases r with
  | made a n =>
    obtain ⟨w, rest, rfl, rfl, hP⟩ := h
    rw [Advances, List.length_append]
    exact ⟨List.length_pos_iff.mpr (hne w a rest hP), Nat.le_add_right _ _⟩
  | stuck c n =>
    obtain ⟨w, rest, rfl, rfl, _⟩ := h
    rw [Advances, List.length_append]
    exact Nat.le_add_right _ _

theorem Advances.extent_le (h : r.Advances ts) : r.extent ≤ ts.length := by
  cases r with
  | made a n => exact h.2
  | stuck c n => exact h

theorem Advances.map {β : Type} (f : α → β) (h : r.Advances ts) : (r.map f).Advances ts := by
  cases r with
  | made a n | stuck c n => exact h

/-- Behind a reading that takes a token there is no difference between stepping over one and going
on where it ended. -/
theorem Advances.past_eq_andThen {β : Type} {t : Token} {rest : List Token}
    (h : r.Advances (t :: rest)) (f : α → List Token → Reading β) :
    (r.past rest fun a rest _ => f a rest) = r.andThen (t :: rest) fun a rest _ => f a rest := by
  cases r with
  | made a n =>
    rw [past, andThen, Nat.max_eq_right h.1, ← Grammar.drop_max_one, Nat.max_eq_right h.1]
  | stuck c n => rfl

end Reading

namespace Phrase

variable {w : List Token}

theorem Optional.ne_nil {stop : Token.Kind} {value : Option Expr} (h : Optional stop w value) :
    w ≠ [] := by
  cases h with
  | none => exact List.cons_ne_nil _ _
  | some => exact List.append_ne_nil_of_right_ne_nil _ (List.cons_ne_nil _ _)

theorem Variable.ne_nil {s : Stmt} (h : Variable w s) : w ≠ [] := by
  cases h with
  | plain => exact List.cons_ne_nil _ _
  | initialized => exact List.cons_ne_nil _ _

theorem Condition.ne_nil {e : Expr} (h : Condition w e) : w ≠ [] := by
  cases h with
  | mk => exact List.cons_ne_nil _ _

theorem ForStart.ne_nil {start : List Stmt} (h : ForStart w start) : w ≠ [] := by
  cases h with
  | none => exact List.cons_ne_nil _ _
  | declare h => exact h.ne_nil
  | expression h =>
    obtain ⟨t, v, rfl, _⟩ := h.exists_cons
    exact List.cons_ne_nil t v

end Phrase

namespace Grammar

open Reading

/-! ## The rules -/

/-- The rules of the grammar, with what they make of tokens. -/
inductive Rule : Type → Type
  | expression : Rule Expr
  | operation (levels : List Level) : Rule Expr
  | unary : Rule Expr
  | call : Rule Expr
  | primary : Rule Expr
  | arguments : Rule (List Expr)
  | argumentList : Rule (List Expr)
  | expressionStatement : Rule Stmt
  | printed (line : Int) : Rule Stmt
  | declared (line : Int) : Rule Stmt
  | optional (stop : Token.Kind) (place : Place) : Rule (Option Expr)
  | givenBack (line : Int) : Rule Stmt
  | condition (before behind : Place) : Rule Expr
  | forStart : Rule (Option Stmt)
  | parameterList : Rule (List String)
  | parameters : Rule (List String)
  | functionHead : Rule (String × List String × Int)
  | declaration : Rule Stmt
  | statement : Rule Stmt
  | blockBody : Rule (List Stmt)

/-- What a rule makes of the tokens in front of it. -/
def Rule.read {α : Type} : Rule α → List Token → Reading α
  | expression => Grammar.expression
  | operation levels => Grammar.operation levels
  | unary => Grammar.unary
  | call => Grammar.call
  | primary => Grammar.primary
  | arguments => Grammar.arguments
  | argumentList => Grammar.argumentList
  | expressionStatement => Grammar.expressionStatement
  | printed line => Grammar.printed line
  | declared line => Grammar.declared line
  | optional stop place => Grammar.optional stop place
  | givenBack line => Grammar.givenBack line
  | condition before behind => Grammar.condition before behind
  | forStart => Grammar.forStart
  | parameterList => Grammar.parameterList
  | parameters => Grammar.parameters
  | functionHead => Grammar.functionHead
  | declaration => Grammar.declaration
  | statement => Grammar.statement
  | blockBody => Grammar.blockBody

/-- What can begin is not empty. -/
theorem ne_nil_of_starts {w : List Token} {p : Token → Prop} (h : ∃ t v, w = t :: v ∧ p t) :
    w ≠ [] := by
  obtain ⟨t, v, rfl, _⟩ := h
  exact List.cons_ne_nil t v

section

variable (ts : List Token)

theorem printed_advances (line : Int) : (printed line ts).Advances ts := by
  rw [printed]
  refine Fits.advances (P := fun w _ _ => w ≠ []) ?_ fun _ _ _ h => h
  exact (expression_fits ts).andThen fun w _ rest _ _ _ => Fits.close fun t _ _ _ =>
    List.append_ne_nil_of_right_ne_nil w (List.cons_ne_nil t [])

theorem declared_advances (line : Int) : (declared line ts).Advances ts := by
  -- The line may be that of any keyword.
  let word : Token := ⟨.varWord, "", none, 0, line⟩
  refine (@declared_fits word rfl ts).advances fun w s rest h => ?_
  cases h with
  | plain => exact List.cons_ne_nil _ _
  | initialized => exact List.cons_ne_nil _ _

theorem functionHead_advances : (functionHead ts).Advances ts := by
  refine Fits.advances (P := fun w _ _ => w ≠ []) (Fits.take fun name rest _ _ _ => ?_)
    fun _ _ _ h => h
  refine Fits.take fun paren rest _ _ _ => (parameters_fits rest).andThen fun w params rest _ _ _ =>
    Fits.take fun brace rest _ _ _ => Fits.done ?_
  exact List.cons_ne_nil _ _

/-- Tokens with one that closes them are not empty. -/
theorem ne_nil_of_closed {w : List Token} {k : Token.Kind} {p : List Token → Prop}
    (h : ∃ v stop, w = v ++ [stop] ∧ stop.kind = k ∧ p v) : w ≠ [] := by
  obtain ⟨v, stop, rfl, _⟩ := h
  exact List.append_ne_nil_of_right_ne_nil v (List.cons_ne_nil stop [])

/-- Every rule gets on, wherever it starts. -/
theorem Rule.advances {α : Type} (rule : Rule α) : (rule.read ts).Advances ts := by
  obtain ⟨hexpression, hoperation, -, hunary, hcall, harguments, hargumentList, hprimary⟩ :=
    expressionRules_fit
  obtain ⟨hdeclaration, hblockBody, hstatement⟩ := statementRules_fit
  cases rule with
  | expression => exact (hexpression ts).advances fun _ _ _ h => ne_nil_of_starts h.exists_cons
  | operation levels =>
    exact (hoperation levels ts).advances fun _ _ _ h => ne_nil_of_starts h.exists_cons
  | unary => exact (hunary ts).advances fun _ _ _ h => ne_nil_of_starts h.exists_cons
  | call => exact (hcall ts).advances fun _ _ _ h => ne_nil_of_starts h.exists_cons
  | primary => exact (hprimary ts).advances fun _ _ _ h => ne_nil_of_starts h.exists_cons
  | arguments => exact (harguments ts).advances fun _ _ _ h => ne_nil_of_closed h
  | argumentList => exact (hargumentList ts).advances fun _ _ _ h => ne_nil_of_closed h
  | expressionStatement =>
    exact (expressionStatement_fits ts).advances fun _ _ _ h => ne_nil_of_starts h.exists_cons
  | printed line => exact printed_advances ts line
  | declared line => exact declared_advances ts line
  | optional stop place => exact (optional_fits stop place ts).advances fun _ _ _ h => h.ne_nil
  | givenBack line =>
    have hvalue := optional_fits .semicolon .afterReturnValue ts
    exact (hvalue.advances fun _ _ _ h => h.ne_nil).map (Stmt.giveBack line)
  | condition before behind =>
    exact (condition_fits before behind ts).advances fun _ _ _ h => h.ne_nil
  | forStart => exact (forStart_fits ts).advances fun _ _ _ h => h.ne_nil
  | parameterList =>
    exact (parameterList_fits ts).advances fun _ _ _ h => ne_nil_of_closed h.1
  | parameters => exact (parameters_fits ts).advances fun _ _ _ h => ne_nil_of_closed h
  | functionHead => exact functionHead_advances ts
  | declaration =>
    exact (hdeclaration ts).advances fun _ _ _ ⟨_, h, _⟩ => ne_nil_of_starts h.exists_cons
  | statement =>
    exact (hstatement ts).advances fun _ _ _ ⟨_, h, _⟩ => ne_nil_of_starts h.exists_cons
  | blockBody => exact (hblockBody ts).advances fun _ _ _ h => ne_nil_of_closed h

end

/-! ## The loops -/

/-- In a block reading goes on right behind each declaration. -/
theorem blockBody_eq_andThen (t : Token) (rest : List Token) :
    blockBody (t :: rest) =
      if t.kind = .rightBrace then made [] 1
      else (declaration (t :: rest)).andThen (t :: rest) fun first rest _ =>
        (blockBody rest).map (first :: ·) := by
  rw [blockBody]
  split
  · rfl
  · exact (Rule.declaration.advances (t :: rest)).past_eq_andThen fun first rest =>
      (blockBody rest).map (first :: ·)

/-- Reading a program in at most `fuel` rounds.  Behind a declaration reading goes on where that
ended; only behind a complaint a token is passed over in any case. -/
def rounds (fuel : Nat) (ts : List Token) : Option (List Stmt × List Complaint) :=
  match fuel, ts with
  | _, [] => some ([], [])
  | 0, _ :: _ => none
  | fuel + 1, t :: rest =>
    match declaration (t :: rest) with
    | .made s taken =>
      (rounds fuel ((t :: rest).drop taken)).map fun (ss, cs) => (s :: ss, cs)
    | .stuck c passed =>
      let skipped := passed + toBoundary ((t :: rest).drop passed)
      (rounds fuel ((t :: rest).drop (max 1 skipped))).map fun (ss, cs) => (ss, c :: cs)

/-- As many rounds as there are tokens are enough. -/
theorem rounds_eq_statements {fuel : Nat} {ts : List Token} (h : ts.length ≤ fuel) :
    rounds fuel ts = some (statements ts) := by
  induction fuel generalizing ts with
  | zero =>
    obtain rfl : ts = [] := List.length_eq_zero_iff.mp (Nat.le_zero.mp h)
    rw [rounds, statements]
  | succ fuel ih =>
    cases ts with
    | nil => rw [rounds, statements]
    | cons t rest =>
      have hnext : ∀ n, rounds fuel ((t :: rest).drop (max 1 n)) =
          some (statements (rest.drop (n - 1))) := by
        intro n
        rw [drop_max_one]
        refine ih ?_
        rw [List.length_cons] at h
        rw [List.length_drop]
        omega
      have hadvances := Rule.declaration.advances (t :: rest)
      rw [rounds, statements]
      cases hr : declaration (t :: rest) with
      | made s n =>
        -- A declaration takes a token, so stepping over one makes no difference.
        rw [Rule.read, hr] at hadvances
        have hmade := hnext n
        rw [Nat.max_eq_right hadvances.1] at hmade
        simp only [hmade]
        rfl
      | stuck c n =>
        simp only [hnext]
        rfl

end Grammar

/-! ## How much is found -/

mutual

/-- The number of statements in a statement, with itself and those in functions. -/
def Stmt.size : Stmt → Nat
  | .expression _ _ | .print _ _ | .declare _ _ _ | .giveBack _ _ => 1
  | .function _ _ _ _ body | .block _ body => 1 + Stmt.sizes body
  | .ifThen _ _ yes => 1 + yes.size
  | .ifElse _ _ yes no => 1 + yes.size + no.size
  | .loop _ _ body => 1 + body.size

/-- The number of statements in all of these. -/
def Stmt.sizes : List Stmt → Nat
  | [] => 0
  | s :: ss => s.size + Stmt.sizes ss

end

theorem Stmt.one_le_size (s : Stmt) : 1 ≤ s.size := by
  cases s <;> simp only [Stmt.size] <;> omega

theorem Stmt.length_le_sizes (ss : List Stmt) : ss.length ≤ Stmt.sizes ss := by
  induction ss with
  | nil => exact Nat.le_refl 0
  | cons s ss ih =>
    have hs := s.one_le_size
    rw [List.length_cons, Stmt.sizes]
    omega

theorem Stmt.sizes_append (ss ss' : List Stmt) :
    Stmt.sizes (ss ++ ss') = Stmt.sizes ss + Stmt.sizes ss' := by
  induction ss with
  | nil => rw [List.nil_append, Stmt.sizes, Nat.zero_add]
  | cons s ss ih => rw [List.cons_append, Stmt.sizes, Stmt.sizes, ih, Nat.add_assoc]

namespace Phrase

variable {w : List Token}

theorem Variable.size_le {s : Stmt} (h : Variable w s) : s.size ≤ w.length := by
  cases h <;> simp only [Stmt.size, List.length_cons, List.length_append] <;> omega

theorem ExpressionStatement.size_le {s : Stmt} (h : ExpressionStatement w s) :
    s.size ≤ w.length := by
  cases h
  simp only [Stmt.size, List.length_cons, List.length_append]
  omega

theorem ForStart.size_le {start : List Stmt} (h : ForStart w start) :
    Stmt.sizes start ≤ w.length := by
  cases h with
  | none => exact Nat.zero_le _
  | declare h => exact h.size_le
  | expression h => exact h.size_le

/-- The statements that the last clause of a `for` adds to the body are made up for by its tokens
with the parenthesis. -/
theorem Optional.size_le {stop : Token.Kind} {step : Option Expr} (h : Optional stop w step)
    (line : Int) (body : Stmt) :
    (step.elim body fun e => .block line [body, .expression line e]).size ≤
      body.size + w.length := by
  cases h with
  | none => exact Nat.le_add_right _ _
  | some he _ =>
    obtain ⟨t, v, rfl, _⟩ := he.exists_cons
    simp only [Option.elim, Stmt.size, Stmt.sizes, List.length_append, List.length_cons]
    omega

mutual

/-- A declaration has no more statements than tokens. -/
theorem Declaration.size_le : {o : Bool} → {w : List Token} → {s : Stmt} → Declaration o w s →
    s.size ≤ w.length
  | _, _, _, .declare h => h.size_le
  | _, _, _, .function _ _ _ _ _ _ hbody _ => by
    have hsize := hbody.sizes_le
    simp only [Stmt.size, List.length_cons, List.length_append]
    omega
  | _, _, _, .statement h => h.size_le

theorem Statement.size_le : {o : Bool} → {w : List Token} → {s : Stmt} → Statement o w s →
    s.size ≤ w.length
  | _, _, _, .expression h => h.size_le
  | _, _, _, .print _ _ _ | _, _, _, .giveBack _ _ => by
    simp only [Stmt.size, List.cons_append, List.length_cons]
    omega
  | _, _, _, .block _ hbody _ => by
    have hsize := hbody.sizes_le
    simp only [Stmt.size, List.length_cons, List.length_append]
    omega
  | _, _, _, .ifThen _ _ hyes => by
    have hsize := hyes.size_le
    simp only [Stmt.size, List.length_cons, List.length_append]
    omega
  | _, _, _, .ifElse _ _ hyes _ hno => by
    have hyes := hyes.size_le
    have hno := hno.size_le
    simp only [Stmt.size, List.length_cons, List.length_append]
    omega
  | _, _, _, .loop _ _ hbody => by
    have hsize := hbody.size_le
    simp only [Stmt.size, List.length_cons, List.length_append]
    omega
  | _, _, _, @Statement.forLoop word _ _ _ _ _ _ _ _ _ body _ _ hstart htest hstep hbody => by
    have hstart := hstart.size_le
    have htest := List.length_pos_iff.mpr htest.ne_nil
    have hstep := hstep.size_le word.line body
    have hbody := hbody.size_le
    simp only [Stmt.size, Stmt.sizes_append, Stmt.sizes, List.length_cons, List.length_append]
    omega

theorem Declarations.sizes_le : {w : List Token} → {ss : List Stmt} → Declarations w ss →
    Stmt.sizes ss ≤ w.length
  | _, _, .nil => Nat.le_refl 0
  | _, _, .cons hfirst hrest => by
    have hsize := hfirst.size_le
    have hsizes := hrest.sizes_le
    rw [Stmt.sizes, List.length_append]
    omega

end

end Phrase

/-- What is found in tokens, statements inside of others and complaints alike, is no more than the
tokens are. -/
theorem Grammar.size_statements_le (ts : List Token) :
    Stmt.sizes (statements ts).1 + (statements ts).2.length ≤ ts.length := by
  fun_induction statements ts with
  | case1 => exact Nat.le_refl 0
  | case2 t rest s taken hmade ss cs hss ih =>
    -- The phrase that was read bounds the statements in it.
    have hfits := declaration_fits (t :: rest)
    rw [hmade] at hfits
    obtain ⟨w, rest', hts, rfl, o, hs, _⟩ := hfits
    have hsize := hs.size_le
    have hpos := s.one_le_size
    have hlength := congrArg List.length hts
    simp only [hss, List.length_drop] at ih
    simp only [List.length_cons, List.length_append] at hlength ⊢
    rw [Stmt.sizes]
    omega
  | case3 t rest c passed hstuck skipped ss cs hss ih =>
    simp only [hss, List.length_drop] at ih
    simp only [List.length_cons]
    omega

/-! ## The end of the input -/

namespace Token

/-- The number of tokens in front of the first end of the input. -/
def endIndex (tokens : List Token) : Nat :=
  tokens.findIdx fun t => t.kind == .endOfInput

/-- The tokens with an end of the input behind them, unless they end with one. -/
def view (tokens : List Token) : List Token :=
  match tokens.getLast? with
  | some t =>
    if t.kind = .endOfInput then tokens
    else tokens ++ [⟨.endOfInput, "", none, t.offset + t.width, t.line⟩]
  | none => [⟨.endOfInput, "", none, 0, 1⟩]

/-- The tokens up to the first end of the input and with it, all of them if there is none. -/
def upToEnd (tokens : List Token) : List Token :=
  tokens.take (endIndex tokens + 1)

section

variable {ts : List Token} {stop : Token} (hts : NoEnd ts)

include hts

theorem NoEnd.kind_beq : ∀ t ∈ ts, (t.kind == .endOfInput) = false :=
  fun t ht => beq_eq_false_iff_ne.mpr (hts t ht)

theorem NoEnd.beforeEnd_eq : beforeEnd ts = ts := by
  have hall : beforeEnd (ts ++ []) = ts ++ [] :=
    List.takeWhile_append_of_pos fun t ht => bne_iff_ne.mpr (hts t ht)
  rwa [List.append_nil] at hall

theorem NoEnd.endIndex_eq : endIndex ts = ts.length :=
  List.findIdx_eq_length_of_false hts.kind_beq

variable (hstop : stop.kind = .endOfInput) (after : List Token)

include hstop

theorem NoEnd.beforeEnd_append_cons : beforeEnd (ts ++ stop :: after) = ts := by
  rw [beforeEnd, List.takeWhile_append_of_pos fun t ht => bne_iff_ne.mpr (hts t ht),
    List.takeWhile_cons_of_neg (by simp [hstop]), List.append_nil]

theorem NoEnd.endToken_append_cons : endToken (ts ++ stop :: after) = stop := by
  have hnone : ts.find? (fun t => t.kind == .endOfInput) = none :=
    List.find?_eq_none.mpr fun t ht => by simpa using hts t ht
  have hfind : (ts ++ stop :: after).find? (fun t => t.kind == .endOfInput) = some stop := by
    rw [List.find?_append, hnone, Option.none_or, List.find?_cons_of_pos (by simp [hstop])]
  rw [endToken, hfind]

theorem NoEnd.endIndex_append_cons : endIndex (ts ++ stop :: after) = ts.length := by
  have hhere : (stop.kind == .endOfInput) = true := beq_iff_eq.mpr hstop
  have hfront := List.findIdx_eq_length_of_false hts.kind_beq
  rw [endIndex, List.findIdx_append, hfront, if_neg (Nat.lt_irrefl _), List.findIdx_cons, hhere,
    cond_true, Nat.zero_add]

end

variable (tokens : List Token)

/-- Either nothing ends the input, or there are the tokens in front of its first end, this end, and
those behind it. -/
theorem noEnd_or_exists_end : NoEnd tokens ∨ ∃ ts stop after, tokens = ts ++ stop :: after ∧
    NoEnd ts ∧ stop.kind = .endOfInput := by
  induction tokens with
  | nil => exact .inl fun _ h => absurd h List.not_mem_nil
  | cons t rest ih =>
    by_cases ht : t.kind = .endOfInput
    · exact .inr ⟨[], t, rest, rfl, fun _ h => absurd h List.not_mem_nil, ht⟩
    · refine ih.imp (fun h => List.forall_mem_cons.mpr ⟨ht, h⟩) ?_
      rintro ⟨ts, stop, after, rfl, hts, hstop⟩
      exact ⟨t :: ts, stop, after, rfl, List.forall_mem_cons.mpr ⟨ht, hts⟩, hstop⟩

theorem length_beforeEnd : (beforeEnd tokens).length = endIndex tokens := by
  obtain hnone | ⟨ts, stop, after, rfl, hts, hstop⟩ := noEnd_or_exists_end tokens
  · rw [hnone.beforeEnd_eq, hnone.endIndex_eq]
  · rw [hts.beforeEnd_append_cons hstop, hts.endIndex_append_cons hstop]

/-- The view shows what is in front of the end, the end, and what no rule looks at. -/
theorem exists_view : ∃ after, view tokens = beforeEnd tokens ++ endToken tokens :: after := by
  obtain hnone | ⟨ts, stop, after, rfl, hts, hstop⟩ := noEnd_or_exists_end tokens
  · have hfind : tokens.find? (fun t => t.kind == .endOfInput) = none :=
      List.find?_eq_none.mpr fun t ht => by simpa using hnone t ht
    rw [hnone.beforeEnd_eq, endToken, hfind, view]
    cases hlast : tokens.getLast? with
    | none =>
      obtain rfl := List.getLast?_eq_none_iff.mp hlast
      exact ⟨[], rfl⟩
    | some t => exact ⟨[], if_neg (hnone t (List.mem_of_getLast? hlast))⟩
  · rw [hts.beforeEnd_append_cons hstop, hts.endToken_append_cons hstop, view]
    cases hlast : (ts ++ stop :: after).getLast? with
    | none => exact absurd (List.getLast?_eq_none_iff.mp hlast) (by simp)
    | some t =>
      simp only
      split
      · exact ⟨after, rfl⟩
      · exact ⟨_, List.append_assoc ts (stop :: after) _⟩

/-- At every place up to the end there is a token: the first of those that are left there, or the
end of the input. -/
theorem view_eq_head {pos : Nat} (h : pos ≤ endIndex tokens) :
    (view tokens)[pos]? = some (((beforeEnd tokens).drop pos).head?.getD (endToken tokens)) := by
  obtain ⟨after, hview⟩ := exists_view tokens
  rw [← length_beforeEnd] at h
  rw [hview, ← List.head?_drop, List.drop_append_of_le_length h, List.head?_append, List.head?_cons]
  cases ((beforeEnd tokens).drop pos).head? <;> rfl

theorem parse_upToEnd : parse (upToEnd tokens) = parse tokens := by
  obtain hnone | ⟨ts, stop, after, rfl, hts, hstop⟩ := noEnd_or_exists_end tokens
  · rw [upToEnd, hnone.endIndex_eq, List.take_of_length_le (Nat.le_succ _)]
  · have hcut : upToEnd (ts ++ stop :: after) = ts ++ [stop] := by
      rw [upToEnd, hts.endIndex_append_cons hstop, List.take_length_add_append]
      rfl
    have hhead : (ts ++ [stop]).head? = (ts ++ stop :: after).head? := by
      rw [List.head?_append, List.head?_append]
      rfl
    rw [hcut, parse, parse, hhead]
    rw [hts.beforeEnd_append_cons hstop, hts.beforeEnd_append_cons hstop,
      hts.endToken_append_cons hstop, hts.endToken_append_cons hstop]

/-! ## Reading a program -/

/-- What reading a list of tokens keeps to. -/
structure Orderly (tokens : List Token) : Prop where
  /-- A rule that starts at the end of the input or in front of it stops there at the latest. -/
  inside : ∀ {α : Type} (rule : Grammar.Rule α) (pos : Nat), pos ≤ endIndex tokens →
    pos + (rule.read ((beforeEnd tokens).drop pos)).extent ≤ endIndex tokens
  /-- A rule that makes something takes a token at least. -/
  advances : ∀ {α : Type} (rule : Grammar.Rule α) (pos : Nat) (result : α) (taken : Nat),
    rule.read ((beforeEnd tokens).drop pos) = .made result taken → 1 ≤ taken
  /-- Up to the end of the input a token stands at every place, the one that the rules see there. -/
  seen : ∀ pos, pos ≤ endIndex tokens →
    (view tokens)[pos]? = some (((beforeEnd tokens).drop pos).head?.getD (endToken tokens))
  /-- The loop over the declarations ends after as many rounds as there are tokens. -/
  ends : ∃ body complaints,
    Grammar.rounds (endIndex tokens) (beforeEnd tokens) = some (body, complaints) ∧
    (parse tokens).program.body = body ∧
    (parse tokens).errors = complaints.map (·.toError (endToken tokens))
  /-- The loop in a block goes on right behind each declaration, and ends with a brace. -/
  blocks : ∀ (pos : Nat) (t : Token) (rest : List Token), (beforeEnd tokens).drop pos = t :: rest →
    Grammar.blockBody (t :: rest) =
      if t.kind = .rightBrace then .made [] 1
      else (Grammar.declaration (t :: rest)).andThen (t :: rest) fun first rest _ =>
        (Grammar.blockBody rest).map (first :: ·)
  /-- No more statements and errors are found than there are tokens, even if the statements inside
  of others are counted. -/
  bounded : (parse tokens).program.body.length ≤ Stmt.sizes (parse tokens).program.body ∧
    Stmt.sizes (parse tokens).program.body + (parse tokens).errors.length ≤ endIndex tokens
  /-- What stands behind the first end of the input makes no difference. -/
  cut : parse (upToEnd tokens) = parse tokens

/-- Whatever the tokens are, reading them ends, gets on with every rule and stays in front of the
first end of the input, which bounds what is found. -/
theorem parse_orderly (tokens : List Token) : Orderly tokens where
  inside rule pos hpos := by
    have hextent := (rule.advances ((beforeEnd tokens).drop pos)).extent_le
    rw [List.length_drop, length_beforeEnd] at hextent
    omega
  advances rule pos result taken hmade := by
    have hadvances := rule.advances ((beforeEnd tokens).drop pos)
    rw [hmade] at hadvances
    exact hadvances.1
  seen _ := view_eq_head tokens
  ends :=
    ⟨_, _, Grammar.rounds_eq_statements (Nat.le_of_eq (length_beforeEnd tokens)), rfl, rfl⟩
  blocks _ t rest _ := Grammar.blockBody_eq_andThen t rest
  bounded := by
    have hsize := Grammar.size_statements_le (beforeEnd tokens)
    rw [length_beforeEnd] at hsize
    refine ⟨Stmt.length_le_sizes _, ?_⟩
    rw [parse, List.length_map]
    exact hsize
  cut := parse_upToEnd tokens

end Token

end Lox

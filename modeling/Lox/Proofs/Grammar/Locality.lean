import Lox.Grammar.Program
import Lox.Proofs.Grammar.Reading
import Lox.Proofs.Lines.Tree

/-!
# What a rule depends on

A rule looks at most one token further than it goes, and the places of the tokens it looks at turn
up as lines of its result and nowhere else.  Both are said at once: `Reading.Agrees` compares a
reading of `ts` with a reading of the same tokens at other places and with more tokens behind them.
The two are the same, places apart, unless both went to the end of `ts` and there is more.

From this follow `declaration_append_cases`, with the same places, and `statements_renumber`, with
nothing behind.
-/

namespace Lox

namespace Reading

variable {α β : Type} {f : Int → Int} {more ts rest : List Token} {t : Token}
  {g : α → α} {k : β → β} {r r' : Reading α}

/-- The number of tokens that a reading went past. -/
def extent : Reading α → Nat
  | made _ n => n
  | stuck _ n => n

/-- A reading at other places, where `g` is what becomes of its result. -/
def renumber (f : Int → Int) (g : α → α) : Reading α → Reading α
  | made a n => made (g a) n
  | stuck c n => stuck (c.renumber f) n

theorem renumber_id (hg : ∀ a, g a = a) (r : Reading α) : r.renumber id g = r := by
  cases r with
  | made a n => rw [Reading.renumber, hg]
  | stuck c n => rw [Reading.renumber, Complaint.renumber_id]

/-- `r`, a reading of `ts`, becomes `r'` at other places with `more` behind the tokens.  The two
differ only where both of them went to the end of `ts` and there is more. -/
def Agrees (f : Int → Int) (more ts : List Token) (g : α → α) (r r' : Reading α) : Prop :=
  r' = r.renumber f g ∨ more ≠ [] ∧ ts.length ≤ r.extent ∧ ts.length ≤ r'.extent

theorem Agrees.eq_of_lt (h : Agrees f more ts g r r') (hlt : r.extent < ts.length) :
    r' = r.renumber f g :=
  h.resolve_right fun ⟨_, hle, _⟩ => Nat.not_le_of_lt hlt hle

theorem Agrees.eq_of_nil (h : Agrees f [] ts g r r') : r' = r.renumber f g :=
  h.resolve_right fun ⟨hne, _⟩ => hne rfl

/-! ## The combinators -/

theorem Agrees.of_eq (h : r' = r.renumber f g) : Agrees f more ts g r r' :=
  .inl h

/-- At the end of the tokens only nothing can be behind them. -/
theorem Agrees.of_nil (h : more = [] → r' = r.renumber f g) : Agrees f more [] g r r' := by
  by_cases hmore : more = []
  · exact .inl (h hmore)
  · exact .inr ⟨hmore, Nat.zero_le _, Nat.zero_le _⟩

theorem Agrees.ite {p : Prop} [Decidable p] {s s' : Reading α} (hr : Agrees f more ts g r r')
    (hs : Agrees f more ts g s s') :
    Agrees f more ts g (if p then r else s) (if p then r' else s') := by
  split
  · exact hr
  · exact hs

theorem extent_shift (r : Reading α) (n : Nat) : (r.shift n).extent = n + r.extent := by
  cases r <;> rfl

theorem extent_map (r : Reading α) (p : α → β) : (r.map p).extent = r.extent := by
  cases r <;> rfl

theorem renumber_shift (r : Reading α) (n : Nat) :
    (r.renumber f g).shift n = (r.shift n).renumber f g := by
  cases r <;> rfl

/-- Where the rest of the tokens behind `n` of them agrees, so do all of them. -/
theorem Agrees.shift {n : Nat} (h : Agrees f more rest g r r') (hdrop : ts.drop n = rest) :
    Agrees f more ts g (r.shift n) (r'.shift n) := by
  subst hdrop
  refine h.imp ?_ ?_
  · rintro rfl
    exact renumber_shift r n
  · rintro ⟨hmore, hr, hr'⟩
    rw [List.length_drop] at hr hr'
    rw [extent_shift, extent_shift]
    exact ⟨hmore, by omega, by omega⟩

theorem Agrees.shift_one (h : Agrees f more rest g r r') :
    Agrees f more (t :: rest) g (r.shift 1) (r'.shift 1) :=
  h.shift rfl

theorem Agrees.map {p q : α → β} (h : Agrees f more ts g r r') (hpq : ∀ a, q (g a) = k (p a)) :
    Agrees f more ts k (r.map p) (r'.map q) := by
  refine h.imp ?_ ?_
  · rintro rfl
    cases r with
    | made a n => simp only [Reading.renumber, map_made, hpq]
    | stuck c n => rfl
  · rw [extent_map, extent_map]
    exact id

theorem drop_renumber {n : Nat} (hn : n ≤ ts.length ∨ more = []) :
    (ts.map (Token.renumber f) ++ more).drop n =
      (ts.drop n).map (Token.renumber f) ++ more := by
  rw [List.map_drop]
  obtain hn | rfl := hn
  · exact List.drop_append_of_le_length (by rwa [List.length_map])
  · rw [List.append_nil, List.append_nil]

/-- What goes on behind some of the tokens agrees if it agrees on every rest of them. -/
theorem Agrees.of_drop
    {F : (rest : List Token) → rest.length ≤ ts.length → Reading α}
    {G : (rest : List Token) → rest.length ≤ (ts.map (Token.renumber f) ++ more).length →
      Reading α}
    (hFG : ∀ rest hle hle', Agrees f more rest g (F rest hle)
      (G (rest.map (Token.renumber f) ++ more) hle'))
    {n : Nat} {hle : (ts.drop n).length ≤ ts.length}
    {hle' : ((ts.map (Token.renumber f) ++ more).drop n).length ≤
      (ts.map (Token.renumber f) ++ more).length}
    (hn : n ≤ ts.length ∨ more = []) :
    Agrees f more (ts.drop n) g (F (ts.drop n) hle)
      (G ((ts.map (Token.renumber f) ++ more).drop n) hle') := by
  -- The bound on the rest is part of the term, so the rest is replaced as a variable.
  have hsame : ∀ rest' h, rest' = (ts.drop n).map (Token.renumber f) ++ more →
      Agrees f more (ts.drop n) g (F (ts.drop n) hle) (G rest' h) := by
    rintro _ h rfl
    exact hFG (ts.drop n) hle h
  exact hsame _ hle' (drop_renumber hn)

theorem extent_le_andThen (r : Reading α)
    (F : α → (rest : List Token) → rest.length ≤ ts.length → Reading β) :
    r.extent ≤ (r.andThen ts F).extent := by
  cases r with
  | made a n =>
    rw [Reading.andThen, extent_shift]
    exact Nat.le_add_right _ _
  | stuck c n => exact Nat.le_refl n

theorem extent_le_past (r : Reading α)
    (F : α → (rest' : List Token) → rest'.length ≤ rest.length → Reading β) :
    r.extent ≤ (r.past rest F).extent := by
  cases r with
  | made a n =>
    rw [Reading.past, extent_shift, extent]
    omega
  | stuck c n => exact Nat.le_refl n

/-- Readings that go at least as far as some that went to the end. -/
theorem Agrees.of_extent_le {s s' : Reading β}
    (h : more ≠ [] ∧ ts.length ≤ s.extent ∧ ts.length ≤ s'.extent) (hs : s.extent ≤ r.extent)
    (hs' : s'.extent ≤ r'.extent) : Agrees f more ts g r r' :=
  .inr ⟨h.1, Nat.le_trans h.2.1 hs, Nat.le_trans h.2.2 hs'⟩

theorem Agrees.andThen
    {F : α → (rest : List Token) → rest.length ≤ ts.length → Reading β}
    {G : α → (rest : List Token) → rest.length ≤ (ts.map (Token.renumber f) ++ more).length →
      Reading β}
    (hr : Agrees f more ts g r r')
    (hF : ∀ a rest hle hle', Agrees f more rest k (F a rest hle)
      (G (g a) (rest.map (Token.renumber f) ++ more) hle')) :
    Agrees f more ts k (r.andThen ts F) (r'.andThen (ts.map (Token.renumber f) ++ more) G) := by
  obtain rfl | hend := hr
  · cases r with
    | stuck c n => exact .inl rfl
    | made a n =>
      by_cases hn : n ≤ ts.length ∨ more = []
      · exact (Agrees.of_drop (hF a) hn).shift rfl
      · obtain ⟨hn, hmore⟩ := not_or.mp hn
        have hend : ts.length ≤ (made a n).extent := Nat.le_of_not_le hn
        exact .of_extent_le ⟨hmore, hend, hend⟩ (extent_le_andThen (made a n) F)
          (extent_le_andThen (made (g a) n) G)
  · exact .of_extent_le hend (extent_le_andThen r F) (extent_le_andThen r' G)

theorem Agrees.past
    {F : α → (rest' : List Token) → rest'.length ≤ rest.length → Reading β}
    {G : α → (rest' : List Token) → rest'.length ≤ (rest.map (Token.renumber f) ++ more).length →
      Reading β}
    (hr : Agrees f more (t :: rest) g r r')
    (hF : ∀ a rest hle hle', Agrees f more rest k (F a rest hle)
      (G (g a) (rest.map (Token.renumber f) ++ more) hle')) :
    Agrees f more (t :: rest) k (r.past rest F)
      (r'.past (rest.map (Token.renumber f) ++ more) G) := by
  obtain rfl | hend := hr
  · cases r with
    | stuck c n => exact .inl rfl
    | made a n =>
      by_cases hn : n ≤ (t :: rest).length ∨ more = []
      · have hdrop : (t :: rest).drop (max 1 n) = rest.drop (n - 1) := by
          obtain rfl | hpos := Nat.eq_zero_or_pos n
          · rfl
          · rw [Nat.max_eq_right hpos, ← Nat.sub_add_cancel hpos]
            rfl
        have hrest : n - 1 ≤ rest.length ∨ more = [] := hn.imp_left Nat.sub_le_of_le_add
        exact (Agrees.of_drop (hF a) hrest).shift hdrop
      · obtain ⟨hn, hmore⟩ := not_or.mp hn
        have hend : (t :: rest).length ≤ (made a n).extent := Nat.le_of_not_le hn
        exact .of_extent_le ⟨hmore, hend, hend⟩ (extent_le_past (made a n) F)
          (extent_le_past (made (g a) n) G)
  · exact .of_extent_le hend (extent_le_past r F) (extent_le_past r' G)

theorem Agrees.take {kind : Token.Kind} {place : Place}
    {F : Token → (rest : List Token) → rest.length < ts.length → Reading α}
    {G : Token → (rest : List Token) → rest.length < (ts.map (Token.renumber f) ++ more).length →
      Reading α}
    (hF : ∀ t rest hlt hlt', Agrees f more rest g (F t rest hlt)
      (G (t.renumber f) (rest.map (Token.renumber f) ++ more) hlt')) :
    Agrees f more ts g (take kind place ts F)
      (take kind place (ts.map (Token.renumber f) ++ more) G) := by
  cases ts with
  | nil =>
    refine Agrees.of_nil ?_
    rintro rfl
    rfl
  | cons t rest =>
    by_cases hkind : t.kind = kind
    · have hG := take_cons place (rest.map (Token.renumber f) ++ more)
        (show (t.renumber f).kind = kind from hkind) G
      rw [take_cons place rest hkind F]
      exact hG ▸ (hF t rest _ _).shift_one
    · have hG := take_cons_of_ne place (rest.map (Token.renumber f) ++ more)
        (show (t.renumber f).kind ≠ kind from hkind) G
      rw [take_cons_of_ne place rest hkind F]
      exact Agrees.of_eq hG

theorem Agrees.close {kind : Token.Kind} {place : Place} {a b : α} (h : b = g a) :
    Agrees f more ts g (close kind place ts a)
      (close kind place (ts.map (Token.renumber f) ++ more) b) := by
  subst h
  exact Agrees.take fun _ _ _ _ => Agrees.of_eq rfl

end Reading

/-! ## Tokens at other places -/

section Token

variable (f : Int → Int) (t : Token)

@[simp] theorem Token.kind_renumber : (t.renumber f).kind = t.kind := rfl

@[simp] theorem Token.leaf?_renumber :
    (t.renumber f).leaf? = t.leaf?.map (Expr.renumber f) := by
  unfold Token.leaf?
  rw [Token.kind_renumber]
  split <;> rfl

theorem Joint.build_renumber (joint : Joint) (line : Int) (left right : Expr) :
    (joint.build line left right).renumber f =
      joint.build (f line) (left.renumber f) (right.renumber f) := by
  cases joint <;> rfl

end Token

namespace Grammar

open Reading

variable (f : Int → Int) (more : List Token)

/-! ## Expressions -/

/-- What follows an operand agrees if the value of an assignment does. -/
theorem assignment_agrees {target : Expr} {ts : List Token}
    (ih : ∀ equals rest, ts = equals :: rest → Agrees f more rest (Expr.renumber f)
      (expression rest) (expression (rest.map (Token.renumber f) ++ more))) :
    Agrees f more ts (Expr.renumber f) (assignment target ts)
      (assignment (target.renumber f) (ts.map (Token.renumber f) ++ more)) := by
  cases ts with
  | nil => exact Agrees.of_nil fun hmore => by subst hmore; rfl
  | cons equals rest =>
    simp only [assignment, List.map_cons, List.cons_append, Token.kind_renumber]
    refine Agrees.ite ?_ (Agrees.of_eq rfl)
    refine ((ih equals rest rfl).andThen fun value _ _ _ => Agrees.of_eq ?_).shift_one
    cases target <;> rfl

theorem afterCall_agrees {result : Expr} (ts : List Token) :
    Agrees f more ts (Expr.renumber f) (afterCall result ts)
      (afterCall (result.renumber f) (ts.map (Token.renumber f) ++ more)) := by
  cases ts with
  | nil => exact Agrees.of_nil fun hmore => by subst hmore; rfl
  | cons again rest =>
    simp only [afterCall, List.map_cons, List.cons_append, Token.kind_renumber]
    exact Agrees.ite (Agrees.of_eq rfl) (Agrees.of_eq rfl)

/-- What follows a primary expression agrees if the arguments do. -/
theorem called_agrees {callee : Expr} {ts : List Token}
    (ih : ∀ paren rest, ts = paren :: rest → Agrees f more rest (List.map (Expr.renumber f))
      (arguments rest) (arguments (rest.map (Token.renumber f) ++ more))) :
    Agrees f more ts (Expr.renumber f) (called callee ts)
      (called (callee.renumber f) (ts.map (Token.renumber f) ++ more)) := by
  cases ts with
  | nil => exact Agrees.of_nil fun hmore => by subst hmore; rfl
  | cons paren rest =>
    simp only [called, List.map_cons, List.cons_append, Token.kind_renumber]
    refine Agrees.ite ?_ (Agrees.of_eq rfl)
    cases callee with
    | name l x =>
      refine ((ih paren rest rfl).andThen fun args rest _ _ => ?_).shift_one
      have hcall : (Expr.call paren.line x (args.take maxArguments)).renumber f =
          .call (f paren.line) x ((args.map (Expr.renumber f)).take maxArguments) := by
        rw [Expr.renumber, Expr.renumberAll_eq_map, List.map_take]
      exact hcall ▸ afterCall_agrees f more rest
    | _ => exact Agrees.of_eq rfl

/-- What follows an argument agrees if the further arguments do. -/
theorem argumentTail_agrees {first : Expr} {ts : List Token}
    (ih : ∀ comma rest, ts = comma :: rest → Agrees f more rest (List.map (Expr.renumber f))
      (argumentList rest) (argumentList (rest.map (Token.renumber f) ++ more))) :
    Agrees f more ts (List.map (Expr.renumber f)) (argumentTail first ts)
      (argumentTail (first.renumber f) (ts.map (Token.renumber f) ++ more)) := by
  cases ts with
  | nil => exact Agrees.of_nil fun hmore => by subst hmore; rfl
  | cons t rest =>
    simp only [argumentTail, List.map_cons, List.cons_append, Token.kind_renumber]
    refine Agrees.ite (Agrees.shift_one ((ih t rest rfl).map fun args => ?_)) ?_
    · rfl
    have hclose : [first.renumber f] = [first].map (Expr.renumber f) := rfl
    exact (Agrees.close hclose : Agrees f more (t :: rest) _ _ _)

theorem expressionRules_agree :
    (∀ ts, Agrees f more ts (Expr.renumber f) (expression ts)
      (expression (ts.map (Token.renumber f) ++ more))) ∧
    (∀ levels ts, Agrees f more ts (Expr.renumber f) (operation levels ts)
      (operation levels (ts.map (Token.renumber f) ++ more))) ∧
    (∀ level tighter left ts, Agrees f more ts (Expr.renumber f)
      (operationTail level tighter left ts)
      (operationTail level tighter (left.renumber f) (ts.map (Token.renumber f) ++ more))) ∧
    (∀ ts, Agrees f more ts (Expr.renumber f) (unary ts)
      (unary (ts.map (Token.renumber f) ++ more))) ∧
    (∀ ts, Agrees f more ts (Expr.renumber f) (call ts)
      (call (ts.map (Token.renumber f) ++ more))) ∧
    (∀ ts, Agrees f more ts (List.map (Expr.renumber f)) (arguments ts)
      (arguments (ts.map (Token.renumber f) ++ more))) ∧
    (∀ ts, Agrees f more ts (List.map (Expr.renumber f)) (argumentList ts)
      (argumentList (ts.map (Token.renumber f) ++ more))) ∧
    (∀ ts, Agrees f more ts (Expr.renumber f) (primary ts)
      (primary (ts.map (Token.renumber f) ++ more))) := by
  refine expression.mutual_induct _ _ _ _ _ _ _ _ ?expression ?operand ?operation ?tailEnd
    ?tailJoin ?tailStop ?unaryEnd ?unary ?unaryCall ?call ?argumentsEnd ?noArguments ?arguments
    ?argumentList ?primaryEnd ?leaf ?group ?noPrimary
  case expression =>
    intro ts hoperation hexpression
    rw [expression_eq, expression_eq]
    refine hoperation.andThen fun target rest hle _ => ?_
    exact assignment_agrees f more fun equals rest' h => hexpression [] equals rest' (h ▸ hle)
  case operand =>
    intro ts h
    rw [operation, operation]
    exact h
  case operation =>
    intro ts level tighter hoperand htail
    rw [operation, operation]
    exact hoperand.andThen fun left rest hle _ => htail left rest hle
  case tailEnd =>
    intro level tighter left
    refine Agrees.of_nil fun hmore => ?_
    subst hmore
    rw [operationTail, List.map_nil, List.append_nil, operationTail]
    rfl
  case tailJoin =>
    intro level tighter left op rest joint hop hoperand htail
    rw [operationTail, List.map_cons, List.cons_append, operationTail, Token.kind_renumber]
    simp only [hop]
    refine (hoperand.andThen fun right rest' hle _ => ?_).shift_one
    have key := htail right rest' hle
    rw [Joint.build_renumber] at key
    exact key
  case tailStop =>
    intro level tighter left op rest hop
    rw [operationTail, List.map_cons, List.cons_append, operationTail, Token.kind_renumber]
    simp only [hop]
    exact Agrees.of_eq rfl
  case unaryEnd =>
    intro h
    refine Agrees.of_nil fun hmore => ?_
    subst hmore
    rw [List.map_nil, List.append_nil, unary]
    exact h.eq_of_nil
  case unary =>
    intro op rest u hop h
    rw [unary, List.map_cons, List.cons_append, unary, Token.kind_renumber]
    simp only [hop]
    exact (h.andThen fun operand rest' _ _ => Agrees.of_eq rfl).shift_one
  case unaryCall =>
    intro op rest hop h
    rw [unary, List.map_cons, List.cons_append, unary, Token.kind_renumber]
    simp only [hop]
    exact h
  case call =>
    intro ts hprimary harguments
    rw [call_eq, call_eq]
    refine hprimary.andThen fun callee rest hle _ => ?_
    exact called_agrees f more fun paren rest' h => harguments [] paren rest' (h ▸ hle)
  case argumentsEnd =>
    intro h
    refine Agrees.of_nil fun hmore => ?_
    subst hmore
    rw [List.map_nil, List.append_nil, arguments]
    exact h.eq_of_nil
  case noArguments =>
    intro t rest ht
    rw [arguments, List.map_cons, List.cons_append, arguments, Token.kind_renumber, if_pos ht,
      if_pos ht]
    exact Agrees.of_eq rfl
  case arguments =>
    intro t rest ht h
    rw [arguments, List.map_cons, List.cons_append, arguments, Token.kind_renumber, if_neg ht,
      if_neg ht]
    exact h
  case argumentList =>
    intro ts hexpression hlist
    rw [argumentList_eq, argumentList_eq]
    refine hexpression.andThen fun first rest hle _ => ?_
    exact argumentTail_agrees f more fun comma rest' h => hlist [] comma rest' (h ▸ hle)
  case primaryEnd =>
    refine Agrees.of_nil fun hmore => ?_
    subst hmore
    rw [List.map_nil, List.append_nil, primary]
    rfl
  case leaf =>
    intro t rest leaf hleaf
    rw [primary, List.map_cons, List.cons_append, primary, Token.leaf?_renumber]
    simp only [hleaf, Option.map_some]
    exact Agrees.of_eq rfl
  case group =>
    intro t rest hleaf ht h
    rw [primary, List.map_cons, List.cons_append, primary, Token.leaf?_renumber,
      Token.kind_renumber]
    simp only [hleaf, ht, if_true, Option.map_none]
    exact (h.andThen fun inner rest' _ _ => Agrees.close rfl).shift_one
  case noPrimary =>
    intro t rest hleaf ht
    rw [primary, List.map_cons, List.cons_append, primary, Token.leaf?_renumber,
      Token.kind_renumber]
    simp only [hleaf, ht, if_false, Option.map_none]
    exact Agrees.of_eq rfl

theorem expression_agrees (ts : List Token) :
    Agrees f more ts (Expr.renumber f) (expression ts)
      (expression (ts.map (Token.renumber f) ++ more)) :=
  (expressionRules_agree f more).1 ts

theorem expression_nil : expression [] = stuck ⟨.noExpression, none⟩ 0 := by
  rw [expression_eq]
  simp only [Level.all, operation, unary, call, primary]
  rfl

/-! ## Parts of statements -/

theorem startsWith_renumber {kind : Token.Kind} (t : Token) (rest : List Token) :
    startsWith kind ((t :: rest).map (Token.renumber f) ++ more) = startsWith kind (t :: rest) :=
  rfl

theorem expressionStatement_agrees (ts : List Token) :
    Agrees f more ts (Stmt.renumber f) (expressionStatement ts)
      (expressionStatement (ts.map (Token.renumber f) ++ more)) := by
  cases ts with
  | nil =>
    refine Agrees.of_nil fun hmore => ?_
    subst hmore
    rw [List.map_nil, List.append_nil, expressionStatement, expression_nil]
    rfl
  | cons t rest =>
    rw [expressionStatement, expressionStatement]
    exact (expression_agrees f more (t :: rest)).andThen fun value rest' _ _ => Agrees.close rfl

theorem printed_agrees (line : Int) (ts : List Token) :
    Agrees f more ts (Stmt.renumber f) (printed line ts)
      (printed (f line) (ts.map (Token.renumber f) ++ more)) := by
  rw [printed, printed]
  exact (expression_agrees f more ts).andThen fun value rest _ _ => Agrees.close rfl

theorem declared_agrees (line : Int) (ts : List Token) :
    Agrees f more ts (Stmt.renumber f) (declared line ts)
      (declared (f line) (ts.map (Token.renumber f) ++ more)) := by
  rw [declared, declared]
  refine Agrees.take fun name rest _ _ => ?_
  cases rest with
  | nil => exact Agrees.of_nil fun hmore => by subst hmore; rfl
  | cons t rest =>
    have hclose : (Stmt.declare line name.lexeme none).renumber f =
        .declare (f line) name.lexeme none := rfl
    refine Agrees.ite ?_ (Agrees.close hclose.symm : Agrees f more (t :: rest) _ _ _)
    exact ((expression_agrees f more rest).andThen fun value rest' _ _ =>
      Agrees.close rfl).shift_one

theorem optional_agrees (stop : Token.Kind) (place : Place) (ts : List Token) :
    Agrees f more ts (Option.map (Expr.renumber f)) (optional stop place ts)
      (optional stop place (ts.map (Token.renumber f) ++ more)) := by
  cases ts with
  | nil =>
    refine Agrees.of_nil fun hmore => ?_
    subst hmore
    rw [List.map_nil, List.append_nil, optional, expression_nil]
    rfl
  | cons t rest =>
    rw [optional, optional, startsWith_renumber]
    refine Agrees.ite (Agrees.of_eq rfl) ?_
    exact (expression_agrees f more (t :: rest)).andThen fun value rest' _ _ => Agrees.close rfl

theorem condition_agrees (before behind : Place) (ts : List Token) :
    Agrees f more ts (Expr.renumber f) (condition before behind ts)
      (condition before behind (ts.map (Token.renumber f) ++ more)) := by
  rw [condition, condition]
  refine Agrees.take fun paren rest _ _ => ?_
  exact (expression_agrees f more rest).andThen fun value rest' _ _ => Agrees.close rfl

theorem forStart_agrees (ts : List Token) :
    Agrees f more ts (Option.map (Stmt.renumber f)) (forStart ts)
      (forStart (ts.map (Token.renumber f) ++ more)) := by
  cases ts with
  | nil =>
    refine Agrees.of_nil fun hmore => ?_
    subst hmore
    exact ((expressionStatement_agrees f [] []).map (p := some) fun _ => rfl).eq_of_nil
  | cons t rest =>
    rw [forStart, List.map_cons, List.cons_append, forStart, Token.kind_renumber]
    cases hkind : t.kind with
    | semicolon => exact Agrees.of_eq rfl
    | varWord =>
      refine Agrees.shift_one ((declared_agrees f more t.line rest).map fun s => ?_)
      rfl
    | _ => exact (expressionStatement_agrees f more (t :: rest)).map fun _ => rfl

theorem parameterList_of_ne {name : Token} (h : name.kind ≠ .identifier) (rest : List Token) :
    parameterList (name :: rest) = stuck ⟨.missing .identifier .asParameter, some name⟩ 0 := by
  cases rest with
  | nil => rw [parameterList, if_neg h]
  | cons t rest => rw [parameterList, if_neg h]

theorem parameterList_agrees (ts : List Token) :
    Agrees f more ts id (parameterList ts)
      (parameterList (ts.map (Token.renumber f) ++ more)) := by
  fun_induction parameterList ts with
  | case1 => exact Agrees.of_nil fun hmore => by subst hmore; rfl
  | case2 name hname =>
    have hname' : (name.renumber f).kind = .identifier := hname
    rw [List.map_singleton, List.singleton_append]
    cases more with
    | nil => exact .inl (by rw [parameterList, if_pos hname']; rfl)
    | cons t more =>
      refine .inr ⟨List.cons_ne_nil t more, Nat.le_refl 1, ?_⟩
      rw [parameterList, if_pos hname']
      split
      · rw [extent_shift, List.length_singleton]
        omega
      · rw [extent_shift]
        exact Nat.le_add_right _ _
  | case3 name hname =>
    have hname' : (name.renumber f).kind ≠ .identifier := hname
    rw [List.map_singleton, List.singleton_append, parameterList_of_ne hname']
    exact Agrees.of_eq rfl
  | case4 name comma rest hname hcomma ih =>
    rw [List.map_cons, List.map_cons, List.cons_append, List.cons_append, parameterList,
      Token.kind_renumber, if_pos hname, Token.kind_renumber, if_pos hcomma]
    have hrest := (ih.map (k := id) (p := (name.lexeme :: ·)) (q := (name.lexeme :: ·))
      fun _ => rfl)
    have hshift := (hrest.shift_one (t := comma)).shift_one (t := name)
    rwa [shift_shift, shift_shift] at hshift
  | case5 name t rest hname ht =>
    rw [List.map_cons, List.map_cons, List.cons_append, List.cons_append, parameterList,
      Token.kind_renumber, if_pos hname, Token.kind_renumber, if_neg ht]
    have hclose : [name.lexeme] = id [name.lexeme] := rfl
    exact (Agrees.close hclose : Agrees f more (t :: rest) _ _ _).shift_one
  | case6 name t rest hname =>
    have hname' : (name.renumber f).kind ≠ .identifier := hname
    rw [List.map_cons, List.cons_append, parameterList_of_ne hname']
    exact Agrees.of_eq rfl

theorem parameters_agrees (ts : List Token) :
    Agrees f more ts id (parameters ts) (parameters (ts.map (Token.renumber f) ++ more)) := by
  cases ts with
  | nil => exact Agrees.of_nil fun hmore => by subst hmore; rfl
  | cons t rest =>
    rw [parameters, parameters, startsWith_renumber]
    exact Agrees.ite (Agrees.of_eq rfl) (parameterList_agrees f more (t :: rest))

theorem functionHead_agrees (ts : List Token) :
    Agrees f more ts (fun (name, params, line) => (name, params, f line)) (functionHead ts)
      (functionHead (ts.map (Token.renumber f) ++ more)) := by
  rw [functionHead, functionHead]
  refine Agrees.take fun name rest₁ _ _ => Agrees.take fun paren rest₂ _ _ => ?_
  refine (parameters_agrees f more rest₂).andThen fun params rest₃ _ _ => ?_
  exact Agrees.take fun brace rest₄ _ _ => Agrees.of_eq rfl

/-! ## Statements -/

/-- What follows the first branch of an `if` agrees if the other branch does. -/
theorem otherwise_agrees {line : Int} {test : Expr} {yes : Stmt} {ts : List Token}
    (ih : ∀ other rest, ts = other :: rest → Agrees f more rest (Stmt.renumber f)
      (statement rest) (statement (rest.map (Token.renumber f) ++ more))) :
    Agrees f more ts (Stmt.renumber f) (otherwise line test yes ts)
      (otherwise (f line) (test.renumber f) (yes.renumber f)
        (ts.map (Token.renumber f) ++ more)) := by
  cases ts with
  | nil => exact Agrees.of_nil fun hmore => by subst hmore; rfl
  | cons t rest =>
    simp only [otherwise, List.map_cons, List.cons_append, Token.kind_renumber]
    refine Agrees.ite (Agrees.shift_one ((ih t rest rfl).map fun no => ?_)) (Agrees.of_eq rfl)
    rfl

theorem forLoop_renumber (line : Int) (start : Option Stmt) (test step : Option Expr)
    (body : Stmt) :
    (Stmt.forLoop line start test step body).renumber f =
      Stmt.forLoop (f line) (start.map (Stmt.renumber f)) (test.map (Expr.renumber f))
        (step.map (Expr.renumber f)) (body.renumber f) := by
  cases start <;> cases test <;> cases step <;> rfl

theorem statementRules_agree :
    (∀ ts, Agrees f more ts (Stmt.renumber f) (declaration ts)
      (declaration (ts.map (Token.renumber f) ++ more))) ∧
    (∀ ts, Agrees f more ts (Stmt.renumberAll f) (blockBody ts)
      (blockBody (ts.map (Token.renumber f) ++ more))) ∧
    (∀ ts, Agrees f more ts (Stmt.renumber f) (statement ts)
      (statement (ts.map (Token.renumber f) ++ more))) := by
  refine declaration.mutual_induct _ _ _ ?declarationEnd ?declare ?function ?declaration
    ?blockEnd ?blockClosed ?block ?statementEnd ?print ?choice ?loop ?forLoop ?giveBack
    ?inBraces ?expression
  case declarationEnd =>
    intro h
    refine Agrees.of_nil fun hmore => ?_
    subst hmore
    rw [List.map_nil, List.append_nil, declaration]
    exact h.eq_of_nil
  case declare =>
    intro t rest ht
    rw [declaration, List.map_cons, List.cons_append, declaration, Token.kind_renumber, ht]
    exact (declared_agrees f more t.line rest).shift_one
  case function =>
    intro t rest ht ih
    rw [declaration, List.map_cons, List.cons_append, declaration, Token.kind_renumber, ht]
    refine Agrees.shift_one ((functionHead_agrees f more rest).andThen fun head rest' hle _ => ?_)
    refine (ih rest' hle).map fun body => ?_
    rfl
  case declaration =>
    intro t rest hvar hfun h
    have hrenumber := declaration_statement (t := t.renumber f) hvar hfun
      (rest.map (Token.renumber f) ++ more)
    rw [declaration_statement hvar hfun, List.map_cons, List.cons_append, hrenumber]
    exact h
  case blockEnd =>
    refine Agrees.of_nil fun hmore => ?_
    subst hmore
    rw [List.map_nil, List.append_nil, blockBody]
    rfl
  case blockClosed =>
    intro t rest ht
    rw [blockBody, List.map_cons, List.cons_append, blockBody, Token.kind_renumber, if_pos ht,
      if_pos ht]
    exact Agrees.of_eq rfl
  case block =>
    intro t rest ht hfirst ih
    rw [blockBody, List.map_cons, List.cons_append, blockBody, Token.kind_renumber, if_neg ht,
      if_neg ht]
    refine hfirst.past fun first rest' hle _ => (ih rest' hle).map fun body => ?_
    rfl
  case statementEnd =>
    refine Agrees.of_nil fun hmore => ?_
    subst hmore
    rw [List.map_nil, List.append_nil, statement]
    exact (expressionStatement_agrees f [] []).eq_of_nil
  case print =>
    intro t rest ht
    rw [statement, List.map_cons, List.cons_append, statement, Token.kind_renumber, ht]
    exact (printed_agrees f more t.line rest).shift_one
  case choice =>
    intro t rest ht hyes hno
    have hrenumber := statement_if (t := t.renumber f) (rest.map (Token.renumber f) ++ more) ht
    rw [statement_if rest ht, List.map_cons, List.cons_append, hrenumber, chosen, chosen]
    refine Agrees.shift_one ((condition_agrees f more _ _ rest).andThen fun test rest₁ h₁ _ => ?_)
    refine (hyes rest₁ h₁).andThen fun yes rest₂ h₂ _ => ?_
    exact otherwise_agrees f more fun other rest₃ h => hno rest₁ h₁ [] other rest₃ (h ▸ h₂)
  case loop =>
    intro t rest ht ih
    rw [statement, List.map_cons, List.cons_append, statement, Token.kind_renumber, ht]
    refine Agrees.shift_one ((condition_agrees f more _ _ rest).andThen fun test rest' hle _ => ?_)
    refine (ih rest' hle).map fun body => ?_
    rfl
  case forLoop =>
    intro t rest ht ih
    rw [statement, List.map_cons, List.cons_append, statement, Token.kind_renumber, ht]
    refine Agrees.shift_one (Agrees.take fun paren rest₁ h₁ _ => ?_)
    refine (forStart_agrees f more rest₁).andThen fun start rest₂ h₂ _ => ?_
    refine (optional_agrees f more _ _ rest₂).andThen fun test rest₃ h₃ _ => ?_
    refine (optional_agrees f more _ _ rest₃).andThen fun step rest₄ h₄ _ => ?_
    refine (ih rest₁ h₁ rest₂ h₂ rest₃ h₃ rest₄ h₄).map fun body => ?_
    exact (forLoop_renumber f t.line start test step body).symm
  case giveBack =>
    intro t rest ht
    rw [statement, List.map_cons, List.cons_append, statement, Token.kind_renumber, ht]
    refine Agrees.shift_one ((optional_agrees f more _ _ rest).map fun value => ?_)
    rfl
  case inBraces =>
    intro t rest ht ih
    rw [statement, List.map_cons, List.cons_append, statement, Token.kind_renumber, ht]
    refine Agrees.shift_one (ih.map fun body => ?_)
    rfl
  case expression =>
    intro t rest h₁ h₂ h₃ h₄ h₅ h₆
    have hrenumber := statement_otherwise (t := t.renumber f) h₁ h₂ h₃ h₄ h₅ h₆
      (rest.map (Token.renumber f) ++ more)
    rw [statement_otherwise h₁ h₂ h₃ h₄ h₅ h₆, List.map_cons, List.cons_append, hrenumber]
    exact expressionStatement_agrees f more (t :: rest)

/-! ## Consequences -/

/-- More tokens change a declaration only if it goes to the end of the tokens without them, and
then it does so with them. -/
theorem declaration_append_cases (ts more : List Token) :
    declaration (ts ++ more) = declaration ts ∨
      ts.length ≤ (declaration ts).extent ∧ ts.length ≤ (declaration (ts ++ more)).extent := by
  have key := (statementRules_agree id more).1 ts
  have htokens : ts.map (Token.renumber id) = ts := List.map_id ts
  rw [htokens] at key
  refine key.imp ?_ fun ⟨_, hle⟩ => hle
  rw [Reading.renumber_id Stmt.renumber_id]
  exact id

/-- A declaration that leaves a token is not changed by tokens behind that. -/
theorem declaration_append {ts : List Token} (more : List Token)
    (h : (declaration ts).extent < ts.length) : declaration (ts ++ more) = declaration ts :=
  (declaration_append_cases ts more).resolve_right fun ⟨hle, _⟩ => Nat.not_le_of_lt h hle

theorem declaration_renumber (ts : List Token) :
    declaration (ts.map (Token.renumber f)) =
      (declaration ts).renumber f (Stmt.renumber f) := by
  have key := ((statementRules_agree f []).1 ts).eq_of_nil
  rwa [List.append_nil] at key

theorem toBoundary_renumber (ts : List Token) :
    toBoundary (ts.map (Token.renumber f)) = toBoundary ts := by
  induction ts with
  | nil => rfl
  | cons t rest ih => rw [List.map_cons, toBoundary, toBoundary, ih, Token.kind_renumber]

/-- Reading a program commutes with moving its tokens. -/
theorem statements_renumber (ts : List Token) :
    statements (ts.map (Token.renumber f)) =
      ((statements ts).1.map (Stmt.renumber f), (statements ts).2.map (Complaint.renumber f)) := by
  fun_induction statements ts with
  | case1 => rw [List.map_nil, statements]; rfl
  | case2 t rest s taken hmade ss cs hss ih =>
    have hmade' := declaration_renumber f (t :: rest)
    rw [hmade, List.map_cons] at hmade'
    rw [List.map_cons, statements, hmade']
    simp only [Reading.renumber, ← List.map_drop]
    rw [ih, hss]
    rfl
  | case3 t rest c passed hstuck skipped ss cs hss ih =>
    have hstuck' := declaration_renumber f (t :: rest)
    rw [hstuck, List.map_cons] at hstuck'
    have hskip : passed + toBoundary ((t.renumber f :: rest.map (Token.renumber f)).drop passed) =
        skipped := by
      rw [← List.map_cons, ← List.map_drop, toBoundary_renumber]
    rw [List.map_cons, statements, hstuck']
    simp only [Reading.renumber, hskip, ← List.map_drop]
    rw [ih, hss]
    rfl

end Grammar

end Lox

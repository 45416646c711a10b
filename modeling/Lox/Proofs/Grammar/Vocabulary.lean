import Lox.Proofs.Grammar.Soundness
import Lox.Grammar.Program

/-!
# What trees are made of

Whatever is read from tokens is made of what the tokens have: its lines are theirs, its names and
numbers are theirs, and its operators are those of the language.  That holds for flawed tokens too
and also where a `for` is spelled out (`Grammar.over_statements`).
-/

namespace Lox

/-- The unary operators of the language. -/
def UnaryOp.known : List UnaryOp := [.negate, .not]

/-- The logical operators of the language. -/
def LogicalOp.known : List LogicalOp := [.and, .or]

/-- The lines, the names and the numbers that may occur in a tree. -/
structure Vocabulary where
  line : Int → Prop
  name : String → Prop
  number : Float → Prop

/-- What the token contributes to a tree is in the vocabulary. -/
structure Vocabulary.Has (v : Vocabulary) (t : Token) : Prop where
  line : v.line t.line
  lexeme : t.kind = .identifier → v.name t.lexeme
  name : t.kind = .identifier → v.name t.textValue
  number : t.kind = .number → v.number t.numberValue

mutual

/-- The parts of an expression are in the vocabulary, and its operators are those of the
language. -/
def Expr.Over (v : Vocabulary) : Expr → Prop
  | .number l x => v.line l ∧ v.number x
  | .string l _ | .bool l _ | .nil l => v.line l
  | .name l x => v.line l ∧ v.name x
  | .unary l op operand => v.line l ∧ op ∈ UnaryOp.known ∧ operand.Over v
  | .binary l op left right => v.line l ∧ op ∈ BinaryOp.known ∧ left.Over v ∧ right.Over v
  | .logical l op left right => v.line l ∧ op ∈ LogicalOp.known ∧ left.Over v ∧ right.Over v
  | .group l inner => v.line l ∧ inner.Over v
  | .assign l x value => v.line l ∧ v.name x ∧ value.Over v
  | .call l f args => v.line l ∧ v.name f ∧ Expr.AllOver v args

/-- All of these expressions are over the vocabulary. -/
def Expr.AllOver (v : Vocabulary) : List Expr → Prop
  | [] => True
  | e :: es => e.Over v ∧ Expr.AllOver v es

end

mutual

/-- The parts of a statement are in the vocabulary. -/
def Stmt.Over (v : Vocabulary) : Stmt → Prop
  | .expression l value | .print l value => v.line l ∧ value.Over v
  | .declare l x initializer => v.line l ∧ v.name x ∧ ∀ e ∈ initializer, e.Over v
  | .function l f params bodyLine body =>
    v.line l ∧ v.name f ∧ (∀ x ∈ params, v.name x) ∧ v.line bodyLine ∧ Stmt.AllOver v body
  | .block l body => v.line l ∧ Stmt.AllOver v body
  | .ifThen l test yes => v.line l ∧ test.Over v ∧ yes.Over v
  | .ifElse l test yes no => v.line l ∧ test.Over v ∧ yes.Over v ∧ no.Over v
  | .loop l test body => v.line l ∧ test.Over v ∧ body.Over v
  | .giveBack l value => v.line l ∧ ∀ e ∈ value, e.Over v

/-- All of these statements are over the vocabulary. -/
def Stmt.AllOver (v : Vocabulary) : List Stmt → Prop
  | [] => True
  | s :: ss => s.Over v ∧ Stmt.AllOver v ss

end

variable {v : Vocabulary}

theorem Expr.allOver_iff {es : List Expr} : Expr.AllOver v es ↔ ∀ e ∈ es, e.Over v := by
  induction es with
  | nil => exact ⟨fun _ _ h => absurd h List.not_mem_nil, fun _ => trivial⟩
  | cons e es ih => rw [Expr.AllOver, ih, List.forall_mem_cons]

theorem Stmt.allOver_iff {ss : List Stmt} : Stmt.AllOver v ss ↔ ∀ s ∈ ss, s.Over v := by
  induction ss with
  | nil => exact ⟨fun _ _ h => absurd h List.not_mem_nil, fun _ => trivial⟩
  | cons s ss ih => rw [Stmt.AllOver, ih, List.forall_mem_cons]

/-! ## Phrases -/

namespace Phrase

theorem Infix.over {line : Int} {left right e : Expr} {level : Level} {k : Token.Kind}
    (h : Infix line left right level k e) (hline : v.line line) (hleft : left.Over v)
    (hright : right.Over v) : e.Over v := by
  cases h <;> exact ⟨hline, by decide, hleft, hright⟩

mutual

theorem Expression.over : {w : List Token} → {e : Expr} → Expression w e →
    (∀ t ∈ w, v.Has t) → e.Over v
  | _, _, .assign hname hx _ hvalue, h => by
    simp only [List.forall_mem_cons] at h
    exact ⟨h.2.1.line, textOf_iff.mp hx ▸ h.1.name hname, hvalue.over h.2.2⟩
  | _, _, .operation h, hw => h.over hw

theorem Operation.over : {levels : List Level} → {w : List Token} → {e : Expr} →
    Operation levels w e → (∀ t ∈ w, v.Has t) → e.Over v
  | _, _, _, .unary h, hw => h.over hw
  | _, _, _, .tighter h, hw => h.over hw
  | _, _, _, .join hleft hop hright, h => by
    simp only [List.forall_mem_append, List.forall_mem_cons] at h
    exact hop.over h.2.1.line (hleft.over h.1) (hright.over h.2.2)

theorem Unary.over : {w : List Token} → {e : Expr} → Unary w e →
    (∀ t ∈ w, v.Has t) → e.Over v
  | _, _, .not _ hoperand, h => by
    simp only [List.forall_mem_cons] at h
    exact ⟨h.1.line, by decide, hoperand.over h.2⟩
  | _, _, .negate _ hoperand, h => by
    simp only [List.forall_mem_cons] at h
    exact ⟨h.1.line, by decide, hoperand.over h.2⟩
  | _, _, .call h, hw => h.over hw

theorem Call.over : {w : List Token} → {e : Expr} → Call w e → (∀ t ∈ w, v.Has t) → e.Over v
  | _, _, .call hname hf _ hargs _, h => by
    simp only [List.cons_append, List.forall_mem_cons, List.forall_mem_append] at h
    have hall := Expr.allOver_iff.mp (hargs.over h.2.2.1)
    exact ⟨h.2.1.line, textOf_iff.mp hf ▸ h.1.name hname,
      Expr.allOver_iff.mpr fun e he => hall e (List.mem_of_mem_take he)⟩
  | _, _, .primary h, hw => h.over hw

theorem Primary.over : {w : List Token} → {e : Expr} → Primary w e →
    (∀ t ∈ w, v.Has t) → e.Over v
  | _, _, .number hkind hx, h => by
    have ht := h _ (List.mem_singleton_self _)
    exact ⟨ht.line, numberOf_iff.mp hx ▸ ht.number hkind⟩
  | _, _, .name hkind hx, h => by
    have ht := h _ (List.mem_singleton_self _)
    exact ⟨ht.line, textOf_iff.mp hx ▸ ht.name hkind⟩
  | _, _, .string _ _, h | _, _, .trueWord _, h | _, _, .falseWord _, h | _, _, .nilWord _, h =>
    (h _ (List.mem_singleton_self _)).line
  | _, _, .group _ hinner _, h => by
    simp only [List.cons_append, List.forall_mem_cons, List.forall_mem_append] at h
    exact ⟨h.1.line, hinner.over h.2.1⟩

theorem Arguments.over : {w : List Token} → {es : List Expr} → Arguments w es →
    (∀ t ∈ w, v.Has t) → Expr.AllOver v es
  | _, _, .none, _ => trivial
  | _, _, .some h, hw => h.over hw

theorem ArgumentList.over : {w : List Token} → {es : List Expr} → ArgumentList w es →
    (∀ t ∈ w, v.Has t) → Expr.AllOver v es
  | _, _, .one h, hw => ⟨h.over hw, trivial⟩
  | _, _, .more hfirst _ hrest, h => by
    simp only [List.forall_mem_append, List.forall_mem_cons] at h
    exact ⟨hfirst.over h.1, hrest.over h.2.2⟩

end

section Parts

variable {w : List Token}

theorem Optional.over {stop : Token.Kind} {value : Option Expr} (h : Optional stop w value)
    (hw : ∀ t ∈ w, v.Has t) : ∀ e ∈ value, e.Over v := by
  cases h with
  | none => exact fun e he => absurd he (by simp)
  | some he _ =>
    simp only [List.forall_mem_append] at hw
    rintro _ ⟨⟩
    exact he.over hw.1

theorem Variable.over {s : Stmt} (h : Variable w s) (hw : ∀ t ∈ w, v.Has t) : s.Over v := by
  cases h with
  | plain _ hname _ =>
    simp only [List.forall_mem_cons] at hw
    exact ⟨hw.1.line, hw.2.1.lexeme hname, fun e he => absurd he (by simp)⟩
  | initialized _ hname _ hvalue _ =>
    simp only [List.cons_append, List.forall_mem_cons, List.forall_mem_append] at hw
    refine ⟨hw.1.line, hw.2.1.lexeme hname, ?_⟩
    rintro _ ⟨⟩
    exact hvalue.over hw.2.2.2.1

theorem ExpressionStatement.over {s : Stmt} (h : ExpressionStatement w s)
    (hw : ∀ t ∈ w, v.Has t) : s.Over v := by
  cases h with
  | mk he _ =>
    have hparts := List.forall_mem_append.mp hw
    exact ⟨(hparts.1 _ (List.mem_cons_self ..)).line, he.over hparts.1⟩

theorem ForStart.over {start : List Stmt} (h : ForStart w start) (hw : ∀ t ∈ w, v.Has t) :
    ∀ s ∈ start, s.Over v := by
  cases h with
  | none => exact fun s hs => absurd hs List.not_mem_nil
  | declare h => exact List.forall_mem_singleton.mpr (h.over hw)
  | expression h => exact List.forall_mem_singleton.mpr (h.over hw)

theorem Parameters.over {xs : List String} (h : Parameters w xs) (hw : ∀ t ∈ w, v.Has t) :
    ∀ x ∈ xs, v.name x := by
  induction h with
  | none => exact fun x hx => absurd hx List.not_mem_nil
  | one hname =>
    exact List.forall_mem_singleton.mpr ((hw _ (List.mem_singleton_self _)).lexeme hname)
  | more hname _ _ ih =>
    obtain ⟨hfirst, hrest⟩ := List.forall_mem_cons.mp hw
    exact List.forall_mem_cons.mpr
      ⟨hfirst.lexeme hname, ih (List.forall_mem_cons.mp hrest).2⟩

theorem Condition.over {test : Expr} (h : Condition w test) (hw : ∀ t ∈ w, v.Has t) :
    test.Over v := by
  cases h with
  | mk _ he _ =>
    simp only [List.cons_append, List.forall_mem_cons, List.forall_mem_append] at hw
    exact he.over hw.2.1

/-- What a `for` stands for is made of its parts, and what it adds has its line. -/
theorem over_forLoop {line : Int} {start : List Stmt} {test step : Option Expr} {body : Stmt}
    (hline : v.line line) (hstart : ∀ s ∈ start, s.Over v) (htest : ∀ e ∈ test, e.Over v)
    (hstep : ∀ e ∈ step, e.Over v) (hbody : body.Over v) :
    (Stmt.block line (start ++ [.loop line (test.getD (.bool line true))
      (step.elim body fun e => .block line [body, .expression line e])])).Over v := by
  refine ⟨hline, Stmt.allOver_iff.mpr (List.forall_mem_append.mpr
    ⟨hstart, List.forall_mem_singleton.mpr ⟨hline, ?_, ?_⟩⟩)⟩
  · cases test with
    | none => exact hline
    | some e => exact htest e rfl
  · cases step with
    | none => exact hbody
    | some e => exact ⟨hline, hbody, ⟨hline, hstep e rfl⟩, trivial⟩

end Parts

mutual

theorem Declaration.over : {o : Bool} → {w : List Token} → {s : Stmt} →
    Declaration o w s → (∀ t ∈ w, v.Has t) → s.Over v
  | _, _, _, .declare h, hw => h.over hw
  | _, _, _, .function _ hname _ hparams _ _ hbody _, h => by
    simp only [List.cons_append, List.append_assoc, List.forall_mem_cons,
      List.forall_mem_append] at h
    obtain ⟨hword, hnamed, _, hparameters, _, hbrace, hinner, _⟩ := h
    exact ⟨hword.line, hnamed.lexeme hname,
      fun x hx => hparams.over hparameters x (List.mem_of_mem_take hx), hbrace.line,
      hbody.over hinner⟩
  | _, _, _, .statement h, hw => h.over hw

theorem Statement.over : {o : Bool} → {w : List Token} → {s : Stmt} →
    Statement o w s → (∀ t ∈ w, v.Has t) → s.Over v
  | _, _, _, .expression h, hw => h.over hw
  | _, _, _, .print _ he _, h => by
    simp only [List.cons_append, List.forall_mem_cons, List.forall_mem_append] at h
    exact ⟨h.1.line, he.over h.2.1⟩
  | _, _, _, .giveBack _ hvalue, h => by
    obtain ⟨hword, hrest⟩ := List.forall_mem_cons.mp h
    exact ⟨hword.line, hvalue.over hrest⟩
  | _, _, _, .block _ hbody _, h => by
    simp only [List.cons_append, List.forall_mem_cons, List.forall_mem_append] at h
    exact ⟨h.1.line, hbody.over h.2.1⟩
  | _, _, _, .ifThen _ htest hyes, h => by
    simp only [List.cons_append, List.forall_mem_cons, List.forall_mem_append] at h
    exact ⟨h.1.line, htest.over h.2.1, hyes.over h.2.2⟩
  | _, _, _, .ifElse _ htest hyes _ hno, h => by
    simp only [List.cons_append, List.append_assoc, List.forall_mem_cons,
      List.forall_mem_append] at h
    exact ⟨h.1.line, htest.over h.2.1, hyes.over h.2.2.1, hno.over h.2.2.2.2⟩
  | _, _, _, .loop _ htest hbody, h => by
    simp only [List.cons_append, List.forall_mem_cons, List.forall_mem_append] at h
    exact ⟨h.1.line, htest.over h.2.1, hbody.over h.2.2⟩
  | _, _, _, .forLoop _ _ hstart htest hstep hbody, h => by
    simp only [List.cons_append, List.append_assoc, List.forall_mem_cons,
      List.forall_mem_append] at h
    exact over_forLoop h.1.line (hstart.over h.2.2.1) (htest.over h.2.2.2.1)
      (hstep.over h.2.2.2.2.1) (hbody.over h.2.2.2.2.2)

theorem Declarations.over : {w : List Token} → {ss : List Stmt} → Declarations w ss →
    (∀ t ∈ w, v.Has t) → Stmt.AllOver v ss
  | _, _, .nil, _ => trivial
  | _, _, .cons hfirst hrest, h => by
    simp only [List.forall_mem_append] at h
    exact ⟨hfirst.over h.1, hrest.over h.2⟩

end

end Phrase

/-! ## Programs -/

/-- Every statement that is read from tokens is made of what these have. -/
theorem Grammar.over_statements (ts : List Token) (h : ∀ t ∈ ts, v.Has t) :
    ∀ s ∈ (statements ts).1, s.Over v := by
  fun_induction statements ts with
  | case1 => exact fun s hs => absurd hs List.not_mem_nil
  | case2 t rest s taken hmade ss cs hss ih =>
    have hfits := declaration_fits (t :: rest)
    rw [hmade] at hfits
    obtain ⟨w, rest', hts, rfl, o, hs, _⟩ := hfits
    have hw : ∀ t ∈ w, v.Has t := fun u hu => h u (hts ▸ List.mem_append_left rest' hu)
    rw [hss] at ih
    exact List.forall_mem_cons.mpr ⟨hs.over hw,
      ih fun u hu => h u (List.mem_cons_of_mem t (List.mem_of_mem_drop hu))⟩
  | case3 t rest c passed hstuck skipped ss cs hss ih =>
    rw [hss] at ih
    exact ih fun u hu => h u (List.mem_cons_of_mem t (List.mem_of_mem_drop hu))

end Lox

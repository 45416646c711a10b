import Lox.Proofs.Machine.Names

/-!
# Induction on evaluation

A property of computations in a scope holds of the whole evaluator if the single steps have it and
the ways in which the evaluator puts them together keep it.  Properties may depend on the names that
a computation binds in its scope: for a statement these are the names that it declares outside of
blocks and function bodies.

A property may also be one of computations that keep to certain names.  Then a step has to have it
only for allowed names, and what goes on with a value may rely on it to mention no others
(`Eval.InductiveOver`).  Trees that mention no others have the property, whatever functions they
call (`Eval.InductiveOver.evaluated`).  With all names allowed this is a property of all trees
(`Eval.Inductive.evaluated`).

The induction is on the fuel, over all kinds of computations at once, so a property has to hold
also of what stops for lack of fuel.
-/

namespace Lox

/-- The names that a statement binds in the scope it runs in. -/
def Stmt.declares : Stmt → List String
  | .declare _ x _ => [x]
  | .function _ name _ _ _ => [name]
  | .ifThen _ _ yes => yes.declares
  | .ifElse _ _ yes no => yes.declares ++ no.declares
  | .loop _ _ body => body.declares
  | .expression _ _ | .print _ _ | .block _ _ | .giveBack _ _ => []

namespace Eval

/-! ## Properties -/

/-- `J α names x` is a property of a computation `x` that binds at most `names` in its scope.  It
holds of the steps of the evaluator that keep to the allowed names, and is kept where they are put
together. -/
structure InductiveOver (allowed : String → Prop)
    (J : (α : Type) → [Mentions α] → List String → (ScopeId → Eval α) → Prop) : Prop where
  mono : ∀ {α} [Mentions α] {names names'} {x : ScopeId → Eval α}, J α names x → names ⊆ names' →
    J α names' x
  bind : ∀ {α β} [Mentions α] [Mentions β] {names} {x : ScopeId → Eval α}
    {f : α → ScopeId → Eval β}, J α names x → (∀ a, Allows allowed a → J β names (f a)) →
    J β names fun scope => x scope >>= fun a => f a scope
  extend : ∀ {α} [Mentions α] {names} {body : ScopeId → Eval α}, J α names body →
    J α [] fun scope => extend scope >>= body
  pure : ∀ {α} [Mentions α] (a : α), Allows allowed a → J α [] fun _ => pure a
  stop : ∀ {α} [Mentions α] (s : Stop), J α [] fun _ => stop s
  lookup : ∀ x, allowed x → J (Option Value) [] fun scope => lookup scope x
  define : ∀ x v, allowed x → Allows allowed v → J Unit [x] fun scope => define scope x v
  assign : ∀ line x v, allowed x → Allows allowed v → J Unit [] fun scope => assign line scope x v
  newFunction : ∀ name params body, (∀ x ∈ params ++ Stmt.allNames body, allowed x) →
    J Value [] fun _ => newFunction name params body
  write : ∀ refused s, J Unit [] fun _ => write refused s
  noteCall : ∀ name, J Unit [] fun _ => noteCall name

/-- `J α names x` is a property of a computation `x` that binds at most `names` in its scope.  It
holds of the steps of the evaluator and is kept where they are put together. -/
structure Inductive (J : (α : Type) → List String → (ScopeId → Eval α) → Prop) : Prop where
  mono : ∀ {α names names'} {x : ScopeId → Eval α}, J α names x → names ⊆ names' → J α names' x
  bind : ∀ {α β names} {x : ScopeId → Eval α} {f : α → ScopeId → Eval β}, J α names x →
    (∀ a, J β names (f a)) → J β names fun scope => x scope >>= fun a => f a scope
  extend : ∀ {α names} {body : ScopeId → Eval α}, J α names body →
    J α [] fun scope => extend scope >>= body
  pure : ∀ {α} (a : α), J α [] fun _ => pure a
  stop : ∀ {α} (s : Stop), J α [] fun _ => stop s
  lookup : ∀ x, J _ [] fun scope => lookup scope x
  define : ∀ x v, J _ [x] fun scope => define scope x v
  assign : ∀ line x v, J _ [] fun scope => assign line scope x v
  newFunction : ∀ name params body, J _ [] fun _ => newFunction name params body
  write : ∀ refused s, J _ [] fun _ => write refused s
  noteCall : ∀ name, J _ [] fun _ => noteCall name

/-! ## Steps that are put together from others -/

section

variable {allowed : String → Prop}
  {J : (α : Type) → [Mentions α] → List String → (ScopeId → Eval α) → Prop}
  {α β : Type} [Mentions α] [Mentions β] {names names' : List String}
  (h : InductiveOver allowed J)

include h

theorem InductiveOver.pure_any (a : α) (ha : Allows allowed a) :
    J α names fun _ => Pure.pure a :=
  h.mono (h.pure a ha) (List.nil_subset names)

/-- A computation that binds no names in front of one that may. -/
theorem InductiveOver.nil_bind {x : ScopeId → Eval α} {f : α → ScopeId → Eval β} (hx : J α [] x)
    (hf : ∀ a, Allows allowed a → J β names (f a)) :
    J β names fun scope => x scope >>= fun a => f a scope :=
  h.bind (h.mono hx (List.nil_subset names)) hf

theorem InductiveOver.ofExcept (r : Except Failure α) (hr : ∀ a, r = .ok a → Allows allowed a) :
    J α [] fun _ => ofExcept r := by
  cases r with
  | ok a => exact h.pure a (hr a rfl)
  | error e => exact h.stop _

theorem InductiveOver.require (e : Failure) (a : Option α) (ha : Allows allowed a) :
    J α [] fun _ => require e a := by
  cases a with
  | none => exact h.stop _
  | some a => exact h.pure a ha

theorem InductiveOver.defineAll (bindings : List (String × Value))
    (hbindings : ∀ b ∈ bindings, allowed b.1 ∧ Allows allowed b.2) :
    J Unit (bindings.map Prod.fst) fun scope => defineAll scope bindings := by
  induction bindings with
  | nil => exact h.pure () fun _ hx => absurd hx List.not_mem_nil
  | cons b rest ih =>
    obtain ⟨⟨hname, hvalue⟩, hrest⟩ := List.forall_mem_cons.mp hbindings
    refine h.bind (h.mono (h.define b.1 b.2 hname hvalue) ?_)
      fun _ _ => h.mono (ih hrest) (List.subset_cons_self _ _)
    exact List.cons_subset.mpr ⟨List.mem_cons_self .., List.nil_subset _⟩

theorem InductiveOver.callNative (n : Native) : J Value [] fun _ => callNative n := by
  obtain ⟨name, action⟩ := n
  have hnil : Allows allowed Value.nil := fun _ hx => absurd hx List.not_mem_nil
  match action with
  | .announce => exact h.bind (h.write _ _) fun _ _ => h.pure _ hnil
  | .host none => exact h.bind (h.noteCall name) fun _ _ => h.pure _ hnil
  | .host (some message) => exact h.bind (h.noteCall name) fun _ _ => h.stop _

end

/-! ## Values that are allowed -/

section

variable {allowed : String → Prop}

theorem allows_of_nil {α : Type} [Mentions α] {a : α} (h : Mentions.names a = []) :
    Allows allowed a := by
  intro x hx
  rw [h] at hx
  exact absurd hx List.not_mem_nil

theorem allows_cons {v : Value} {vs : List Value} (hv : Allows allowed v)
    (hvs : Allows allowed vs) : Allows allowed (v :: vs) :=
  List.forall_mem_append.mpr ⟨hv, hvs⟩

theorem allows_of_mem {v : Value} {vs : List Value} (hvs : Allows allowed vs) (hv : v ∈ vs) :
    Allows allowed v :=
  fun x hx => hvs x (List.mem_flatMap.mpr ⟨v, hv, hx⟩)

end

/-! ## Trees -/

/-- With this much fuel, evaluation of trees and values with allowed names has the property. -/
structure EvaluatedOver (allowed : String → Prop)
    (J : (α : Type) → [Mentions α] → List String → (ScopeId → Eval α) → Prop) (fuel : Nat) :
    Prop where
  expression : ∀ e : Expr, (∀ x ∈ e.names, allowed x) →
    J Value [] fun scope => expression fuel scope e
  expressions : ∀ es, (∀ x ∈ Expr.allNames es, allowed x) →
    J (List Value) [] fun scope => expressions fuel scope es
  apply : ∀ l x callee vs, Allows allowed callee → Allows allowed vs →
    J Value [] fun scope => apply fuel scope l x callee vs
  statement : ∀ s : Stmt, (∀ x ∈ s.names, allowed x) →
    J Flow s.declares fun scope => statement fuel scope s
  statements : ∀ ss, (∀ x ∈ Stmt.allNames ss, allowed x) →
    J Flow (ss.flatMap Stmt.declares) fun scope => statements fuel scope ss
  loop : ∀ (e : Expr) (body : Stmt), (∀ x ∈ e.names, allowed x) → (∀ x ∈ body.names, allowed x) →
    J Flow body.declares fun scope => loop fuel scope e body

section

variable {allowed : String → Prop}
  {J : (α : Type) → [Mentions α] → List String → (ScopeId → Eval α) → Prop}
  (h : InductiveOver allowed J)

include h

theorem InductiveOver.zero : EvaluatedOver allowed J 0 where
  expression _ _ := by simp only [Eval.expression]; exact h.stop _
  expressions _ _ := by simp only [Eval.expressions]; exact h.stop _
  apply _ _ _ _ _ _ := by simp only [Eval.apply]; exact h.stop _
  statement _ _ := by simp only [Eval.statement]; exact h.mono (h.stop _) (List.nil_subset _)
  statements _ _ := by simp only [Eval.statements]; exact h.mono (h.stop _) (List.nil_subset _)
  loop _ _ _ _ := by simp only [Eval.loop]; exact h.mono (h.stop _) (List.nil_subset _)

variable {fuel : Nat} (ih : EvaluatedOver allowed J fuel)

include ih

theorem InductiveOver.expression_succ (e : Expr) (he : ∀ x ∈ e.names, allowed x) :
    J Value [] fun scope => Eval.expression (fuel + 1) scope e := by
  cases e with
  | number l x | string l x | bool l x | nil l =>
    simp only [Eval.expression]
    exact h.pure _ (allows_of_nil rfl)
  | name l x =>
    simp only [Eval.expression]
    exact h.bind (h.lookup x (he x (List.mem_singleton_self x))) fun bound hbound =>
      h.require _ bound hbound
  | group l inner =>
    simp only [Eval.expression]
    exact ih.expression inner he
  | unary l op operand =>
    simp only [Eval.expression]
    exact h.bind (ih.expression operand he) fun v _ => h.ofExcept _ fun w hw =>
      allows_of_nil (UnaryOp.names_of_evaluate hw)
  | binary l op left right =>
    obtain ⟨hleft, hright⟩ := List.forall_mem_append.mp he
    simp only [Eval.expression]
    exact h.bind (ih.expression left hleft) fun v _ =>
      h.bind (ih.expression right hright) fun w _ =>
        h.ofExcept _ fun r hr => allows_of_nil (BinaryOp.names_of_evaluate hr)
  | logical l op left right =>
    obtain ⟨hleft, hright⟩ := List.forall_mem_append.mp he
    simp only [Eval.expression]
    exact h.bind (ih.expression left hleft) fun v _ =>
      h.bind (ih.expression right hright) fun w _ =>
        h.ofExcept _ fun r hr => allows_of_nil (LogicalOp.names_of_evaluate hr)
  | assign l x value =>
    obtain ⟨hx, hvalue⟩ := List.forall_mem_cons.mp he
    simp only [Eval.expression]
    exact h.bind (ih.expression value hvalue) fun v hv => h.bind (h.assign l x v hx hv) fun _ _ =>
      h.pure v hv
  | call l callee args =>
    obtain ⟨hcallee, hargs⟩ := List.forall_mem_cons.mp he
    simp only [Eval.expression]
    refine h.bind (h.lookup callee hcallee) fun bound hbound =>
      h.bind (h.require _ bound hbound) fun v hv =>
      h.bind (h.require _ v.arity? (allows_of_nil (by cases v.arity? <;> rfl))) fun arity _ =>
      h.bind (ih.expressions args hargs) fun vs hvs => ?_
    split
    · exact ih.apply l callee v vs hv hvs
    · exact h.stop _

theorem InductiveOver.expressions_succ (es : List Expr) (hes : ∀ x ∈ Expr.allNames es, allowed x) :
    J (List Value) [] fun scope => Eval.expressions (fuel + 1) scope es := by
  cases es with
  | nil =>
    simp only [Eval.expressions]
    exact h.pure _ (allows_of_nil rfl)
  | cons e es =>
    obtain ⟨he, hes⟩ := List.forall_mem_append.mp hes
    simp only [Eval.expressions]
    exact h.bind (ih.expression e he) fun v hv => h.bind (ih.expressions es hes) fun vs hvs =>
      h.pure _ (allows_cons hv hvs)

theorem InductiveOver.apply_succ (l : Int) (x : String) (callee : Value) (vs : List Value)
    (hcallee : Allows allowed callee) (hvs : Allows allowed vs) :
    J Value [] fun scope => Eval.apply (fuel + 1) scope l x callee vs := by
  cases callee with
  | function g =>
    simp only [Eval.apply]
    obtain ⟨hparameters, hnames⟩ := List.forall_mem_append.mp hcallee
    have hbindings : ∀ b ∈ g.params.zip vs, allowed b.1 ∧ Allows allowed b.2 := fun b hb =>
      ⟨hparameters b.1 (List.of_mem_zip hb).1, allows_of_mem hvs (List.of_mem_zip hb).2⟩
    -- The parameters and what the body declares are bound in the scope of the call.
    have hparams := h.mono (h.defineAll (g.params.zip vs) hbindings)
      (List.subset_append_left _ (g.body.flatMap Stmt.declares))
    have hbody := h.mono (ih.statements g.body hnames)
      (List.subset_append_right ((g.params.zip vs).map Prod.fst) _)
    refine h.extend (h.bind hparams fun _ _ => h.bind hbody fun flow hflow => ?_)
    cases flow with
    | next v => exact h.pure_any _ (allows_of_nil rfl)
    | giveBack v => exact h.pure_any v hflow
  | native n =>
    simp only [Eval.apply]
    exact h.callNative n
  | _ =>
    simp only [Eval.apply]
    exact h.stop _

theorem InductiveOver.loop_succ (e : Expr) (body : Stmt) (he : ∀ x ∈ e.names, allowed x)
    (hbody : ∀ x ∈ body.names, allowed x) :
    J Flow body.declares fun scope => Eval.loop (fuel + 1) scope e body := by
  simp only [Eval.loop]
  refine h.nil_bind (ih.expression e he) fun v _ =>
    h.nil_bind (h.ofExcept _ fun _ _ => allows_of_nil rfl) fun holds _ => ?_
  cases holds with
  | false => exact h.pure_any _ (allows_of_nil rfl)
  | true =>
    refine h.bind (ih.statement body hbody) fun flow hflow => ?_
    cases flow with
    | next v => exact ih.loop e body he hbody
    | giveBack v => exact h.pure_any _ hflow

theorem InductiveOver.statements_succ (ss : List Stmt) (hss : ∀ x ∈ Stmt.allNames ss, allowed x) :
    J Flow (ss.flatMap Stmt.declares) fun scope => Eval.statements (fuel + 1) scope ss := by
  cases ss with
  | nil =>
    simp only [Eval.statements]
    exact h.pure _ (allows_of_nil rfl)
  | cons s ss =>
    obtain ⟨hs, hss⟩ := List.forall_mem_append.mp hss
    simp only [Eval.statements, List.flatMap_cons]
    refine h.bind (h.mono (ih.statement s hs) (List.subset_append_left _ _)) fun flow hflow => ?_
    cases flow with
    | next v => exact h.mono (ih.statements ss hss) (List.subset_append_right _ _)
    | giveBack v => exact h.pure_any _ hflow

theorem InductiveOver.statement_succ (s : Stmt) (hs : ∀ x ∈ s.names, allowed x) :
    J Flow s.declares fun scope => Eval.statement (fuel + 1) scope s := by
  cases s with
  | expression l e =>
    simp only [Eval.statement]
    exact h.bind (ih.expression e hs) fun v hv => h.pure _ hv
  | print l e =>
    simp only [Eval.statement]
    exact h.bind (ih.expression e hs) fun v _ => h.bind (h.write _ _) fun _ _ =>
      h.pure _ (allows_of_nil rfl)
  | declare l x initializer =>
    obtain ⟨hx, hvalue⟩ := List.forall_mem_cons.mp hs
    cases initializer with
    | none =>
      simp only [Eval.statement]
      exact h.bind (h.define x .nil hx (allows_of_nil rfl)) fun _ _ =>
        h.pure_any _ (allows_of_nil rfl)
    | some e =>
      simp only [Eval.statement]
      exact h.nil_bind (ih.expression e hvalue) fun v hv => h.bind (h.define x v hx hv) fun _ _ =>
        h.pure_any _ (allows_of_nil rfl)
  | function l g params bodyLine body =>
    obtain ⟨hg, hbody⟩ := List.forall_mem_cons.mp hs
    simp only [Eval.statement]
    exact h.nil_bind (h.newFunction g params body hbody) fun v hv =>
      h.bind (h.define g v hg hv) fun _ _ => h.pure_any _ (allows_of_nil rfl)
  | block l body =>
    simp only [Eval.statement]
    exact h.extend (ih.statements body hs)
  | ifThen l test yes =>
    obtain ⟨htest, hyes⟩ := List.forall_mem_append.mp hs
    simp only [Eval.statement]
    refine h.nil_bind (ih.expression test htest) fun v _ =>
      h.nil_bind (h.ofExcept _ fun _ _ => allows_of_nil rfl) fun holds _ => ?_
    cases holds with
    | false => exact h.pure_any _ (allows_of_nil rfl)
    | true => exact ih.statement yes hyes
  | ifElse l test yes no =>
    obtain ⟨htest, hbranches⟩ := List.forall_mem_append.mp hs
    obtain ⟨hyes, hno⟩ := List.forall_mem_append.mp hbranches
    simp only [Eval.statement]
    refine h.nil_bind (ih.expression test htest) fun v _ =>
      h.nil_bind (h.ofExcept _ fun _ _ => allows_of_nil rfl) fun holds _ => ?_
    cases holds with
    | false => exact h.mono (ih.statement no hno) (List.subset_append_right _ _)
    | true => exact h.mono (ih.statement yes hyes) (List.subset_append_left _ _)
  | loop l test body =>
    obtain ⟨htest, hbody⟩ := List.forall_mem_append.mp hs
    simp only [Eval.statement]
    exact ih.loop test body htest hbody
  | giveBack l value =>
    cases value with
    | none =>
      simp only [Eval.statement]
      exact h.pure _ (allows_of_nil rfl)
    | some e =>
      simp only [Eval.statement]
      exact h.bind (ih.expression e hs) fun v hv => h.pure _ hv

omit ih in
/-- What holds of the steps with allowed names and is kept where they are put together holds of the
evaluation of trees with allowed names. -/
theorem InductiveOver.evaluated (fuel : Nat) : EvaluatedOver allowed J fuel := by
  induction fuel with
  | zero => exact h.zero
  | succ fuel ih =>
    exact ⟨h.expression_succ ih, h.expressions_succ ih, h.apply_succ ih, h.statement_succ ih,
      h.statements_succ ih, h.loop_succ ih⟩

end

/-! ## All trees -/

/-- With this much fuel, evaluation has the property. -/
structure Evaluated (J : (α : Type) → List String → (ScopeId → Eval α) → Prop) (fuel : Nat) :
    Prop where
  expression : ∀ e, J _ [] fun scope => expression fuel scope e
  expressions : ∀ es, J _ [] fun scope => expressions fuel scope es
  apply : ∀ l x callee vs, J _ [] fun scope => apply fuel scope l x callee vs
  statement : ∀ s, J _ s.declares fun scope => statement fuel scope s
  statements : ∀ ss, J _ (ss.flatMap Stmt.declares) fun scope => statements fuel scope ss
  loop : ∀ e body, J _ body.declares fun scope => loop fuel scope e body

variable {J : (α : Type) → List String → (ScopeId → Eval α) → Prop}

/-- With all names allowed nothing is known about values. -/
theorem Inductive.over (h : Inductive J) : InductiveOver (fun _ => True) fun α _ => J α where
  mono := h.mono
  bind hx hf := h.bind hx fun a => hf a fun _ _ => trivial
  extend := h.extend
  pure a _ := h.pure a
  stop := h.stop
  lookup x _ := h.lookup x
  define x v _ _ := h.define x v
  assign line x v _ _ := h.assign line x v
  newFunction name params body _ := h.newFunction name params body
  write := h.write
  noteCall := h.noteCall

/-- What holds of the steps and is kept where they are put together holds of the evaluator. -/
theorem Inductive.evaluated (h : Inductive J) (fuel : Nat) : Evaluated J fuel := by
  have hover := h.over.evaluated fuel
  exact {
    expression e := hover.expression e fun _ _ => trivial
    expressions es := hover.expressions es fun _ _ => trivial
    apply l x callee vs := hover.apply l x callee vs (fun _ _ => trivial) fun _ _ => trivial
    statement s := hover.statement s fun _ _ => trivial
    statements ss := hover.statements ss fun _ _ => trivial
    loop e body := hover.loop e body (fun _ _ => trivial) fun _ _ => trivial }

end Eval

end Lox

import Lox.Tree.Basic

/-!
# Trees up to lines and groups

Erasing a tree puts zero in the place of every line and leaves out the groups: an expression in
parentheses becomes the expression itself.  Trees that are equal after this differ only in where
they stand in a source and in parentheses that the grammar needed or that someone liked.

An expression is compared with another one from the outside to the inside.  Where one of them is not
in parentheses, the other one is the same node with equal parts, inside any number of parentheses
(`Expr.exists_core`).
-/

namespace Lox

mutual

/-- An expression without its lines and groups. -/
def Expr.erase : Expr → Expr
  | .number _ x => .number 0 x
  | .string _ s => .string 0 s
  | .bool _ b => .bool 0 b
  | .nil _ => .nil 0
  | .name _ x => .name 0 x
  | .unary _ op operand => .unary 0 op operand.erase
  | .binary _ op left right => .binary 0 op left.erase right.erase
  | .logical _ op left right => .logical 0 op left.erase right.erase
  | .group _ inner => inner.erase
  | .assign _ x value => .assign 0 x value.erase
  | .call _ f args => .call 0 f (Expr.eraseAll args)

/-- Expressions without their lines and groups. -/
def Expr.eraseAll : List Expr → List Expr
  | [] => []
  | e :: es => e.erase :: Expr.eraseAll es

end

mutual

/-- A statement without its lines and groups. -/
def Stmt.erase : Stmt → Stmt
  | .expression _ value => .expression 0 value.erase
  | .print _ value => .print 0 value.erase
  | .declare _ x initializer => .declare 0 x (initializer.map Expr.erase)
  | .function _ name params _ body => .function 0 name params 0 (Stmt.eraseAll body)
  | .block _ body => .block 0 (Stmt.eraseAll body)
  | .ifThen _ test yes => .ifThen 0 test.erase yes.erase
  | .ifElse _ test yes no => .ifElse 0 test.erase yes.erase no.erase
  | .loop _ test body => .loop 0 test.erase body.erase
  | .giveBack _ value => .giveBack 0 (value.map Expr.erase)

/-- Statements without their lines and groups. -/
def Stmt.eraseAll : List Stmt → List Stmt
  | [] => []
  | s :: ss => s.erase :: Stmt.eraseAll ss

end

/-- A program without its lines and groups. -/
def Program.erase (p : Program) : Program := ⟨0, Stmt.eraseAll p.body⟩

/-! ## Expressions in parentheses -/

/-- What stands inside all parentheses around an expression. -/
def Expr.core : Expr → Expr
  | .group _ inner => inner.core
  | e => e

/-- The same node, with parts that are equal up to lines and groups. -/
inductive Expr.Matches : Expr → Expr → Prop
  | number {l l' : Int} {x : Float} : Matches (.number l x) (.number l' x)
  | string {l l' : Int} {s : String} : Matches (.string l s) (.string l' s)
  | bool {l l' : Int} {b : Bool} : Matches (.bool l b) (.bool l' b)
  | nil {l l' : Int} : Matches (.nil l) (.nil l')
  | name {l l' : Int} {x : String} : Matches (.name l x) (.name l' x)
  | unary {l l' : Int} {op : UnaryOp} {e e' : Expr} (h : e.erase = e'.erase) :
      Matches (.unary l op e) (.unary l' op e')
  | binary {l l' : Int} {op : BinaryOp} {left left' right right' : Expr}
      (hleft : left.erase = left'.erase) (hright : right.erase = right'.erase) :
      Matches (.binary l op left right) (.binary l' op left' right')
  | logical {l l' : Int} {op : LogicalOp} {left left' right right' : Expr}
      (hleft : left.erase = left'.erase) (hright : right.erase = right'.erase) :
      Matches (.logical l op left right) (.logical l' op left' right')
  | assign {l l' : Int} {x : String} {e e' : Expr} (h : e.erase = e'.erase) :
      Matches (.assign l x e) (.assign l' x e')
  | call {l l' : Int} {f : String} {args args' : List Expr}
      (h : Expr.eraseAll args = Expr.eraseAll args') : Matches (.call l f args) (.call l' f args')

/-- The expression stands in parentheses. -/
def Expr.isGroup : Expr → Bool
  | .group _ _ => true
  | _ => false

theorem Expr.matches_of_erase {e e' : Expr} (he : e.isGroup = false) (he' : e'.isGroup = false)
    (h : e.erase = e'.erase) : e.Matches e' := by
  -- Only nodes of the same kind are left, and they are equal but for their lines and parts.
  cases e <;> cases e' <;>
    simp only [isGroup, erase, reduceCtorEq, number.injEq, string.injEq, bool.injEq, name.injEq,
      unary.injEq, binary.injEq, logical.injEq, assign.injEq, call.injEq, true_and] at he he' h
  case number.number => exact h ▸ .number
  case string.string => exact h ▸ .string
  case bool.bool => exact h ▸ .bool
  case nil.nil => exact .nil
  case name.name => exact h ▸ .name
  case unary.unary => exact h.1 ▸ .unary h.2
  case binary.binary => exact h.1 ▸ .binary h.2.1 h.2.2
  case logical.logical => exact h.1 ▸ .logical h.2.1 h.2.2
  case assign.assign => exact h.1 ▸ .assign h.2
  case call.call => exact h.1 ▸ .call h.2

theorem Expr.isGroup_core : (e : Expr) → e.core.isGroup = false
  | .group _ inner => by rw [core, inner.isGroup_core]
  | .number _ _ | .string _ _ | .bool _ _ | .nil _ | .name _ _ | .unary _ _ _ | .binary _ _ _ _
  | .logical _ _ _ _ | .assign _ _ _ | .call _ _ _ => rfl

theorem Expr.erase_core : (e : Expr) → e.core.erase = e.erase
  | .group _ inner => by rw [core, erase, inner.erase_core]
  | .number _ _ | .string _ _ | .bool _ _ | .nil _ | .name _ _ | .unary _ _ _ | .binary _ _ _ _
  | .logical _ _ _ _ | .assign _ _ _ | .call _ _ _ => rfl

/-- An expression that is not in parentheses is the same node as what stands inside the parentheses
of an expression that it equals up to lines and groups. -/
theorem Expr.exists_core {e : Expr} (he : e.isGroup = false) {e₂ : Expr} (h : e.erase = e₂.erase) :
    ∃ e', e₂.core = e' ∧ e.Matches e' :=
  ⟨e₂.core, rfl, matches_of_erase he e₂.isGroup_core (h.trans e₂.erase_core.symm)⟩

theorem Expr.eraseAll_eq_cons {e : Expr} {es es' : List Expr}
    (h : Expr.eraseAll (e :: es) = Expr.eraseAll es') :
    ∃ e' rest, es' = e' :: rest ∧ e.erase = e'.erase ∧ Expr.eraseAll es = Expr.eraseAll rest := by
  cases es' with
  | nil => exact absurd h (List.cons_ne_nil _ _)
  | cons e' rest => exact ⟨e', rest, rfl, List.cons.inj h⟩

theorem Expr.eraseAll_eq_nil {es : List Expr} (h : Expr.eraseAll [] = Expr.eraseAll es) :
    es = [] := by
  cases es with
  | nil => rfl
  | cons e rest => exact absurd h.symm (List.cons_ne_nil _ _)

/-! ## Statements -/

/-- The same statement, with parts that are equal up to lines and groups. -/
inductive Stmt.Matches : Stmt → Stmt → Prop
  | expression {l l' : Int} {e e' : Expr} (h : e.erase = e'.erase) :
      Matches (.expression l e) (.expression l' e')
  | print {l l' : Int} {e e' : Expr} (h : e.erase = e'.erase) :
      Matches (.print l e) (.print l' e')
  | declareNil {l l' : Int} {x : String} : Matches (.declare l x none) (.declare l' x none)
  | declare {l l' : Int} {x : String} {e e' : Expr} (h : e.erase = e'.erase) :
      Matches (.declare l x (some e)) (.declare l' x (some e'))
  | function {l l' bodyLine bodyLine' : Int} {g : String} {params : List String}
      {body body' : List Stmt} (h : Stmt.eraseAll body = Stmt.eraseAll body') :
      Matches (.function l g params bodyLine body) (.function l' g params bodyLine' body')
  | block {l l' : Int} {body body' : List Stmt} (h : Stmt.eraseAll body = Stmt.eraseAll body') :
      Matches (.block l body) (.block l' body')
  | ifThen {l l' : Int} {test test' : Expr} {yes yes' : Stmt} (htest : test.erase = test'.erase)
      (hyes : yes.erase = yes'.erase) : Matches (.ifThen l test yes) (.ifThen l' test' yes')
  | ifElse {l l' : Int} {test test' : Expr} {yes yes' no no' : Stmt}
      (htest : test.erase = test'.erase) (hyes : yes.erase = yes'.erase)
      (hno : no.erase = no'.erase) : Matches (.ifElse l test yes no) (.ifElse l' test' yes' no')
  | loop {l l' : Int} {test test' : Expr} {body body' : Stmt} (htest : test.erase = test'.erase)
      (hbody : body.erase = body'.erase) : Matches (.loop l test body) (.loop l' test' body')
  | giveBackNil {l l' : Int} : Matches (.giveBack l none) (.giveBack l' none)
  | giveBack {l l' : Int} {e e' : Expr} (h : e.erase = e'.erase) :
      Matches (.giveBack l (some e)) (.giveBack l' (some e'))

theorem Stmt.matches_of_erase {s s' : Stmt} (h : s.erase = s'.erase) : s.Matches s' := by
  cases s <;> cases s' <;>
    simp only [erase, reduceCtorEq, expression.injEq, print.injEq, declare.injEq, function.injEq,
      block.injEq, ifThen.injEq, ifElse.injEq, loop.injEq, giveBack.injEq, true_and] at h
  case expression.expression => exact .expression h
  case print.print => exact .print h
  case declare.declare l x value l' x' value' =>
    obtain ⟨rfl, h⟩ := h
    cases value <;> cases value' <;> simp only [Option.map_none, Option.map_some, reduceCtorEq,
      Option.some.injEq] at h
    · exact .declareNil
    · exact .declare h
  case function.function => exact h.1 ▸ h.2.1 ▸ .function h.2.2
  case block.block => exact .block h
  case ifThen.ifThen => exact .ifThen h.1 h.2
  case ifElse.ifElse => exact .ifElse h.1 h.2.1 h.2.2
  case loop.loop => exact .loop h.1 h.2
  case giveBack.giveBack l value l' value' =>
    cases value <;> cases value' <;> simp only [Option.map_none, Option.map_some, reduceCtorEq,
      Option.some.injEq] at h
    · exact .giveBackNil
    · exact .giveBack h

theorem Stmt.erase_branch {yes yes' no no' : Stmt} (b : Bool) (hyes : yes.erase = yes'.erase)
    (hno : no.erase = no'.erase) :
    (if b then yes else no).erase = (if b then yes' else no').erase := by
  cases b
  · exact hno
  · exact hyes

theorem Stmt.eraseAll_eq_cons {s : Stmt} {ss ss' : List Stmt}
    (h : Stmt.eraseAll (s :: ss) = Stmt.eraseAll ss') :
    ∃ s' rest, ss' = s' :: rest ∧ s.erase = s'.erase ∧ Stmt.eraseAll ss = Stmt.eraseAll rest := by
  cases ss' with
  | nil => exact absurd h (List.cons_ne_nil _ _)
  | cons s' rest => exact ⟨s', rest, rfl, List.cons.inj h⟩

theorem Stmt.eraseAll_eq_nil {ss : List Stmt} (h : Stmt.eraseAll [] = Stmt.eraseAll ss) :
    ss = [] := by
  cases ss with
  | nil => rfl
  | cons s rest => exact absurd h.symm (List.cons_ne_nil _ _)

end Lox

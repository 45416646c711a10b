import Lox.Machine.Evaluate

/-!
# The names in trees and values

A program mentions a name where it uses, assigns, calls, declares or takes it as a parameter.  A
value mentions the names in it if it is a function; every other value is without names, and so is
what an operator makes of its operands.
-/

namespace Lox

mutual

/-- The names that an expression mentions. -/
def Expr.names : Expr → List String
  | .number _ _ | .string _ _ | .bool _ _ | .nil _ => []
  | .name _ x => [x]
  | .unary _ _ operand => operand.names
  | .binary _ _ left right | .logical _ _ left right => left.names ++ right.names
  | .group _ inner => inner.names
  | .assign _ x value => x :: value.names
  | .call _ callee args => callee :: Expr.allNames args

/-- The names that these expressions mention. -/
def Expr.allNames : List Expr → List String
  | [] => []
  | e :: es => e.names ++ Expr.allNames es

end

/-- The names that an expression mentions, if there is one. -/
def Expr.namesOf? (e : Option Expr) : List String := (e.map Expr.names).getD []

mutual

/-- The names that a statement mentions. -/
def Stmt.names : Stmt → List String
  | .expression _ value | .print _ value => value.names
  | .declare _ x initializer => x :: Expr.namesOf? initializer
  | .function _ f params _ body => f :: (params ++ Stmt.allNames body)
  | .block _ body => Stmt.allNames body
  | .ifThen _ test yes => test.names ++ yes.names
  | .ifElse _ test yes no => test.names ++ (yes.names ++ no.names)
  | .loop _ test body => test.names ++ body.names
  | .giveBack _ value => Expr.namesOf? value

/-- The names that these statements mention. -/
def Stmt.allNames : List Stmt → List String
  | [] => []
  | s :: ss => s.names ++ Stmt.allNames ss

end

/-- The names that a program mentions. -/
def Program.names (p : Program) : List String := Stmt.allNames p.body

/-- The names that the parameters and the body of a function mention. -/
def Value.names : Value → List String
  | .function f => f.params ++ Stmt.allNames f.body
  | _ => []

/-! ## Mentions -/

/-- Whatever may mention names. -/
class Mentions (α : Type) where
  /-- The names that it mentions. -/
  names : α → List String

instance : Mentions Value := ⟨Value.names⟩

instance {α : Type} [Mentions α] : Mentions (Option α) := ⟨fun a => (a.map Mentions.names).getD []⟩

instance {α : Type} [Mentions α] : Mentions (List α) := ⟨fun as => as.flatMap Mentions.names⟩

instance : Mentions Flow :=
  ⟨fun
    | .next v => v.names
    | .giveBack v => v.names⟩

instance : Mentions Unit := ⟨fun _ => []⟩

instance : Mentions Bool := ⟨fun _ => []⟩

instance : Mentions Nat := ⟨fun _ => []⟩

/-- Only allowed names are mentioned. -/
def Allows {α : Type} [Mentions α] (allowed : String → Prop) (a : α) : Prop :=
  ∀ x ∈ Mentions.names a, allowed x

/-! ## Operators -/

theorem UnaryOp.names_of_evaluate {line : Int} {op : UnaryOp} {v w : Value}
    (h : op.evaluate line v = .ok w) : w.names = [] := by
  unfold evaluate at h
  split at h <;> cases h <;> rfl

theorem LogicalOp.names_of_evaluate {line : Int} {op : LogicalOp} {v w r : Value}
    (h : op.evaluate line v w = .ok r) : r.names = [] := by
  unfold evaluate at h
  split at h <;> cases h
  rfl

theorem ArithmeticOp.names_of_result {op : ArithmeticOp} {v w r : Value}
    (h : op.result? v w = some r) : r.names = [] := by
  unfold ArithmeticOp.result? at h
  split at h
  · cases h
    rfl
  · split at h <;> cases h
    rfl
  · cases h

theorem BinaryOp.names_of_result {op : BinaryOp} {v w r : Value} (h : op.result? v w = some r) :
    r.names = [] := by
  cases op with
  | arithmetic op => exact op.names_of_result h
  | order op =>
    obtain ⟨_, -, rfl⟩ := Option.map_eq_some_iff.mp h
    rfl
  | equal | notEqual =>
    obtain ⟨_, -, rfl⟩ := Option.map_eq_some_iff.mp h
    rfl
  | other symbol => cases h

theorem BinaryOp.names_of_evaluate {line : Int} {op : BinaryOp} {v w r : Value}
    (h : op.evaluate line v w = .ok r) : r.names = [] := by
  unfold evaluate at h
  split at h
  · cases h
  · split at h
    · cases h
      exact names_of_result ‹_›
    · cases h

end Lox

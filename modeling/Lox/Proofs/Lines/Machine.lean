import Lox.Machine.Evaluate
import Lox.Proofs.Lines.Tree

/-!
# Values and machines at other places

Functions carry the statements of their bodies, so a value, a scope and a machine have lines in
them too.  `renumber` changes all of them.  No operation on values or scopes looks at a line; only
the faults that come of it name one.
-/

namespace Lox

variable (f : Int → Int)

/-! ## Values -/

/-- A value with another body, if it is a function. -/
def Value.mapBody (g : List Stmt → List Stmt) : Value → Value
  | .function h => .function { h with body := g h.body }
  | v => v

/-- A function with other lines in its body. -/
def Function.renumber (g : Function) : Function :=
  { g with body := Stmt.renumberAll f g.body }

/-- A value with other lines. -/
def Value.renumber : Value → Value
  | .function g => .function (g.renumber f)
  | v => v

/-- A failure with another line. -/
def Failure.renumber : Failure → Failure
  | .fault g => .fault { g with line := f g.line }
  | failure => failure

/-- A stop with another line. -/
def Stop.renumber : Stop → Stop
  | .failed failure => .failed (failure.renumber f)
  | .outOfFuel => .outOfFuel

/-- A flow with other lines in its value. -/
def Flow.renumber : Flow → Flow
  | .next v => .next (v.renumber f)
  | .giveBack v => .giveBack (v.renumber f)

namespace Value

theorem renumber_eq_mapBody : Value.renumber f = Value.mapBody (Stmt.renumberAll f) := by
  funext v
  cases v <;> rfl

variable (g : List Stmt → List Stmt)

@[simp] theorem kind_mapBody (v : Value) : (v.mapBody g).kind = v.kind := by
  cases v <;> rfl

@[simp] theorem text_mapBody (v : Value) : (v.mapBody g).text = v.text := by
  cases v <;> rfl

@[simp] theorem isNil_mapBody (v : Value) : (v.mapBody g).isNil = v.isNil := by
  cases v <;> rfl

@[simp] theorem arity?_mapBody (v : Value) : (v.mapBody g).arity? = v.arity? := by
  cases v <;> rfl

@[simp] theorem kind_renumber (v : Value) : (v.renumber f).kind = v.kind := by
  rw [renumber_eq_mapBody, kind_mapBody]

@[simp] theorem text_renumber (v : Value) : (v.renumber f).text = v.text := by
  rw [renumber_eq_mapBody, text_mapBody]

@[simp] theorem isNil_renumber (v : Value) : (v.renumber f).isNil = v.isNil := by
  rw [renumber_eq_mapBody, isNil_mapBody]

@[simp] theorem arity?_renumber (v : Value) : (v.renumber f).arity? = v.arity? := by
  rw [renumber_eq_mapBody, arity?_mapBody]

end Value

/-! ## Operators -/

/-- An outcome with other lines, where `g` is what becomes of a result. -/
def Failure.renumberOutcome {α β : Type} (g : α → β) : Except Failure α → Except Failure β
  | .ok a => .ok (g a)
  | .error failure => .error (failure.renumber f)

/-- The same for computations, which may also run out of fuel. -/
def Stop.renumberOutcome {α β : Type} (g : α → β) : Except Stop α → Except Stop β
  | .ok a => .ok (g a)
  | .error stop => .error (stop.renumber f)

section Bodies

/- Operators do not look into the bodies of functions, whatever is done to these. -/
variable (g : List Stmt → List Stmt)

theorem UnaryOp.evaluate_mapBody (op : UnaryOp) (line : Int) (v : Value) :
    op.evaluate (f line) (v.mapBody g) =
      Failure.renumberOutcome f (Value.mapBody g) (op.evaluate line v) := by
  cases op <;> cases v <;> rfl

theorem Value.order?_mapBody (v w : Value) :
    Value.order? (v.mapBody g) (w.mapBody g) = Value.order? v w := by
  cases v <;> cases w <;> rfl

theorem Value.equal?_mapBody (v w : Value) :
    Value.equal? (v.mapBody g) (w.mapBody g) = Value.equal? v w := by
  cases v <;> cases w <;> rfl

theorem ArithmeticOp.result?_mapBody (op : ArithmeticOp) (v w : Value) :
    op.result? (v.mapBody g) (w.mapBody g) = (op.result? v w).map (Value.mapBody g) := by
  cases v <;> cases w <;> first | rfl | (cases op <;> rfl)

theorem OrderOp.result?_mapBody (op : OrderOp) (v w : Value) :
    op.result? (v.mapBody g) (w.mapBody g) = (op.result? v w).map (Value.mapBody g) := by
  unfold OrderOp.result?
  rw [Value.order?_mapBody, Option.map_map]
  rfl

theorem BinaryOp.result?_mapBody (op : BinaryOp) (v w : Value) :
    op.result? (v.mapBody g) (w.mapBody g) = (op.result? v w).map (Value.mapBody g) := by
  cases op with
  | arithmetic op => exact op.result?_mapBody g v w
  | order op => exact op.result?_mapBody g v w
  | equal =>
    show ((v.mapBody g).equal? (w.mapBody g)).map .bool =
      ((v.equal? w).map .bool).map (Value.mapBody g)
    rw [Value.equal?_mapBody, Option.map_map]
    rfl
  | notEqual =>
    show ((v.mapBody g).equal? (w.mapBody g)).map (fun same => .bool !same) =
      ((v.equal? w).map fun same => .bool !same).map (Value.mapBody g)
    rw [Value.equal?_mapBody, Option.map_map]
    rfl
  | other symbol => rfl

theorem operandPairFailure_mapBody (line : Int) (symbol : String) (v w : Value) :
    operandPairFailure (f line) symbol (v.mapBody g) (w.mapBody g) =
      (operandPairFailure line symbol v w).renumber f := by
  rw [operandPairFailure, Value.kind_mapBody, Value.kind_mapBody]
  rfl

theorem renumberOutcome_option (v : Option Value) (failure : Failure) :
    (match v.map (Value.mapBody g) with
      | some v => Except.ok v
      | none => Except.error (failure.renumber f)) =
    Failure.renumberOutcome f (Value.mapBody g)
      (match v with
      | some v => Except.ok v
      | none => Except.error failure) := by
  cases v <;> rfl

theorem BinaryOp.evaluate_mapBody (op : BinaryOp) (line : Int) (v w : Value) :
    op.evaluate (f line) (v.mapBody g) (w.mapBody g) =
      Failure.renumberOutcome f (Value.mapBody g) (op.evaluate line v w) := by
  cases op with
  | other symbol => rfl
  | _ =>
    simp only [BinaryOp.evaluate, BinaryOp.result?_mapBody, operandPairFailure_mapBody]
    exact renumberOutcome_option f g _ _

theorem LogicalOp.evaluate_mapBody (op : LogicalOp) (line : Int) (v w : Value) :
    op.evaluate (f line) (v.mapBody g) (w.mapBody g) =
      Failure.renumberOutcome f (Value.mapBody g) (op.evaluate line v w) := by
  cases v <;> cases w <;> rfl

theorem Value.condition_mapBody (line : Int) (keyword : String) (v : Value) :
    (v.mapBody g).condition (f line) keyword =
      Failure.renumberOutcome f id (v.condition line keyword) := by
  cases v <;> rfl

end Bodies

theorem UnaryOp.evaluate_renumber (op : UnaryOp) (line : Int) (v : Value) :
    op.evaluate (f line) (v.renumber f) =
      Failure.renumberOutcome f (Value.renumber f) (op.evaluate line v) := by
  rw [Value.renumber_eq_mapBody, op.evaluate_mapBody]

theorem BinaryOp.evaluate_renumber (op : BinaryOp) (line : Int) (v w : Value) :
    op.evaluate (f line) (v.renumber f) (w.renumber f) =
      Failure.renumberOutcome f (Value.renumber f) (op.evaluate line v w) := by
  rw [Value.renumber_eq_mapBody, op.evaluate_mapBody]

theorem LogicalOp.evaluate_renumber (op : LogicalOp) (line : Int) (v w : Value) :
    op.evaluate (f line) (v.renumber f) (w.renumber f) =
      Failure.renumberOutcome f (Value.renumber f) (op.evaluate line v w) := by
  rw [Value.renumber_eq_mapBody, op.evaluate_mapBody]

theorem Value.condition_renumber (line : Int) (keyword : String) (v : Value) :
    (v.renumber f).condition (f line) keyword =
      Failure.renumberOutcome f id (v.condition line keyword) := by
  rw [Value.renumber_eq_mapBody, v.condition_mapBody]

/-! ## Scopes -/

namespace Bindings

variable {α β : Type} (g : α → β)

/-- Bindings with other values. -/
def mapValues (b : Bindings α) : Bindings β := b.map fun p => (p.1, g p.2)

theorem find?_mapValues (b : Bindings α) (x : String) :
    (b.mapValues g).find? x = (b.find? x).map g := by
  induction b with
  | nil => rfl
  | cons p rest ih =>
    obtain ⟨n, v⟩ := p
    show Bindings.find? x ((n, g v) :: mapValues g rest) = _
    rw [Bindings.find?, Bindings.find?, ih]
    split <;> rfl

theorem insert_mapValues (b : Bindings α) (x : String) (v : α) :
    (b.mapValues g).insert x (g v) = (b.insert x v).mapValues g := by
  induction b with
  | nil => rfl
  | cons p rest ih =>
    obtain ⟨n, w⟩ := p
    show Bindings.insert x (g v) ((n, g w) :: mapValues g rest) = _
    rw [Bindings.insert, Bindings.insert, ih]
    split <;> rfl

theorem sorted_mapValues (b : Bindings α) : (b.mapValues g).sorted = b.sorted.mapValues g := by
  symm
  apply List.map_mergeSort
  intro _ _ _ _
  rfl

end Bindings

namespace Scopes

variable {α β : Type} (g : α → β) (s : Scopes α)

/-- A store of scopes with other values. -/
def mapValues : Scopes β where
  scopes := s.scopes.map fun scope => ⟨scope.parent, scope.bindings.mapValues g⟩
  parent_lt := by
    intro i scope p hi hp
    rw [Array.getElem?_map] at hi
    obtain ⟨old, hold, rfl⟩ := Option.map_eq_some_iff.mp hi
    exact s.parent_lt i old p hold hp

theorem ext_scopes {s s' : Scopes α} (h : s.scopes = s'.scopes) : s = s' := by
  cases s
  cases s'
  cases h
  rfl

@[simp] theorem size_mapValues : (s.mapValues g).size = s.size := Array.size_map

theorem parent?_mapValues (id : ScopeId) : (s.mapValues g).parent? id = s.parent? id := by
  rw [parent?, parent?, mapValues, Array.getElem?_map]
  cases s.scopes[id]? <;> rfl

theorem bindings_mapValues (id : ScopeId) :
    (s.mapValues g).bindings id = (s.bindings id).mapValues g := by
  rw [bindings, bindings, mapValues, Array.getElem?_map]
  cases s.scopes[id]? <;> rfl

theorem has_mapValues (id : ScopeId) (x : String) : (s.mapValues g).has id x = s.has id x := by
  rw [has, has, bindings_mapValues, Bindings.find?_mapValues, Option.isSome_map]

theorem owner?_mapValues (id : ScopeId) (x : String) :
    (s.mapValues g).owner? id x = s.owner? id x := by
  have key : ∀ bound id, (s.mapValues g).ownerWithin x bound id = s.ownerWithin x bound id := by
    intro bound
    induction bound with
    | zero => exact fun _ => rfl
    | succ bound ih =>
      intro id
      rw [ownerWithin, ownerWithin, has_mapValues, parent?_mapValues]
      cases s.parent? id with
      | none => rfl
      | some p => simp only [ih p]
  exact key (id + 1) id

theorem get?_mapValues (id : ScopeId) (x : String) :
    (s.mapValues g).get? id x = (s.get? id x).map g := by
  rw [get?, get?, owner?_mapValues]
  cases s.owner? id x with
  | none => rfl
  | some owner =>
    show ((s.mapValues g).bindings owner).find? x = ((s.bindings owner).find? x).map g
    rw [bindings_mapValues, Bindings.find?_mapValues]

theorem snapshot_mapValues (id : ScopeId) :
    (s.mapValues g).snapshot id = (s.snapshot id).mapValues g := by
  rw [snapshot, snapshot, bindings_mapValues, Bindings.sorted_mapValues]

theorem define_mapValues (id : ScopeId) (x : String) (v : α) :
    (s.mapValues g).define id x (g v) = (s.define id x v).mapValues g := by
  refine ext_scopes (Array.ext_getElem? fun i => ?_)
  simp only [define, mapValues, Array.getElem?_modify, Array.getElem?_map]
  split
  · cases s.scopes[i]? with
    | none => rfl
    | some scope =>
      exact congrArg (fun b => some (Scope.mk _ b)) (Bindings.insert_mapValues g _ x v)
  · rfl

theorem add_mapValues (parent : Option ScopeId) :
    (s.mapValues g).add parent = (s.add parent).mapValues g := by
  refine ext_scopes ?_
  have hsize : (s.mapValues g).size = s.size := size_mapValues g s
  simp only [add, hsize]
  simp only [mapValues, Array.map_push]
  rfl

end Scopes

/-! ## Machines -/

/-- A machine with other lines in its functions. -/
def Machine.renumber (m : Machine) : Machine :=
  { m with scopes := m.scopes.mapValues (Value.renumber f) }

end Lox

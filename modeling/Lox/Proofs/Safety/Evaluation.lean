import Lox.Proofs.Safety.Guarded
import Lox.Proofs.Safety.WellFormed
import Lox.Proofs.Scope.Chain

/-!
# Safety of evaluation

A machine is well-formed if the functions that it has bound are, its natives only announce
themselves, and its output is not limited.  Evaluating a well-formed tree on such a machine meets no
hazard, stops in a documented way if it stops, and leaves a machine that is well-formed again
(`Eval.safe`).  The functions that a program leaves behind carry this over to later programs.
-/

namespace Lox

/-! ## What is documented -/

/-- The causes of faults, with the operators that they can name. -/
def Fault.Cause.Documented : Fault.Cause → Prop
  | .operandType operator _ => operator ∈ ["-", "if", "while"]
  | .operandPair operator _ _ =>
    operator ∈ ["+", "-", "*", "/", "<", "<=", ">", ">=", "==", "!=", "and", "or"]
  | .undefinedVariable _ | .undefinedFunction _ | .notCallable _ _ => True
  | .arity _ expected got => expected ≠ got
  | .unknown _ => False

/-- The failure is a documented fault on one of the given lines. -/
def Failure.Documented (lines : Int → Prop) : Failure → Prop
  | .fault f => lines f.line ∧ f.cause.Documented
  | .native _ _ | .print _ | .unaryOperator _ | .binaryOperator _ => False

/-- The computation failed in a documented way, or it was too long for its fuel. -/
def Stop.Documented (lines : Int → Prop) : Stop → Prop
  | .failed f => f.Documented lines
  | .outOfFuel => True

/-- A calculation ends with a result of some kind or fails in a documented way. -/
def Failure.Allowed {α : Type} (lines : Int → Prop) (P : α → Prop) : Except Failure α → Prop
  | .ok a => P a
  | .error f => f.Documented lines

/-- A computation ends with a result of some kind or stops in a documented way. -/
def Stop.Allowed {α : Type} (lines : Int → Prop) (P : α → Prop) : Except Stop α → Prop
  | .ok a => P a
  | .error s => s.Documented lines

/-! ## Values and machines -/

/-- The body of a function is well-formed, and a native only announces itself. -/
def Value.WellFormed (lines : Int → Prop) : Value → Prop
  | .function g => Stmt.AllWellFormed lines g.body
  | .native n => n.action = .announce
  | .number _ | .string _ | .bool _ | .nil => True

/-- The value of a flow is well-formed. -/
def Flow.WellFormed (lines : Int → Prop) : Flow → Prop
  | .next v | .giveBack v => v.WellFormed lines

/-- All values that are bound are well-formed, and everything can be written. -/
structure Machine.WellFormed (lines : Int → Prop) (m : Machine) : Prop where
  bound : ∀ id x v, m.scopes.frame id x = some v → v.WellFormed lines
  room : m.output.room = none

variable {lines : Int → Prop}

namespace Scopes

variable {α : Type}

theorem eq_or_frame_of_define (s : Scopes α) {id i : ScopeId} {x y : String} {v w : α}
    (h : (s.define id x v).frame i y = some w) : w = v ∨ s.frame i y = some w := by
  rw [frame, bindings, define, Array.getElem?_modify] at h
  rw [frame, bindings]
  split at h
  · cases hs : s.scopes[i]? with
    | none => exact absurd (hs ▸ h) (by simp [Bindings.find?])
    | some scope =>
      rw [hs] at h
      have hfind := (Bindings.find?_insert scope.bindings x y v).symm.trans h
      split at hfind
      · exact .inl (Option.some.inj hfind).symm
      · exact .inr hfind
  · exact .inr h

theorem frame_of_add (s : Scopes α) {parent : Option ScopeId} {i : ScopeId} {x : String} {w : α}
    (h : (s.add parent).frame i x = some w) : s.frame i x = some w := by
  rw [frame, bindings, add, Array.getElem?_push] at h
  split at h
  · exact absurd h (by simp [Bindings.find?])
  · exact h

end Scopes

namespace Machine.WellFormed

variable {m : Machine}

theorem get? (h : m.WellFormed lines) {scope : ScopeId} {x : String} {v : Value}
    (hv : m.scopes.get? scope x = some v) : v.WellFormed lines := by
  obtain ⟨owner, -, howner⟩ := Option.bind_eq_some_iff.mp hv
  exact h.bound owner x v howner

theorem define (h : m.WellFormed lines) (scope : ScopeId) (x : String) {v : Value}
    (hv : v.WellFormed lines) :
    Machine.WellFormed lines { m with scopes := m.scopes.define scope x v } where
  bound id y w hw := by
    rcases m.scopes.eq_or_frame_of_define hw with rfl | hw
    · exact hv
    · exact h.bound id y w hw
  room := h.room

theorem add (h : m.WellFormed lines) (parent : Option ScopeId) :
    Machine.WellFormed lines { m with scopes := m.scopes.add parent } where
  bound id x v hv := h.bound id x v (m.scopes.frame_of_add hv)
  room := h.room

theorem hasRoom (h : m.WellFormed lines) (s : String) : m.output.hasRoom s = true := by
  rw [Output.hasRoom, h.room]

theorem append (h : m.WellFormed lines) (s : String) :
    Machine.WellFormed lines { m with output := m.output.append s } where
  bound := h.bound
  room := by rw [Output.append, h.room]; rfl

end Machine.WellFormed

/-! ## Operators -/

theorem UnaryOp.evaluate_allowed {op : UnaryOp} (hop : op ∈ UnaryOp.known) {line : Int}
    (hline : lines line) (v : Value) :
    Failure.Allowed lines (Value.WellFormed lines) (op.evaluate line v) := by
  simp only [known, List.mem_cons, List.not_mem_nil, or_false] at hop
  rcases hop with rfl | rfl
  · cases v with
    | number x => trivial
    | _ => exact ⟨hline, List.mem_cons_self ..⟩
  · cases v <;> trivial

theorem ArithmeticOp.result?_wellFormed {op : ArithmeticOp} {v w r : Value}
    (h : op.result? v w = some r) : r.WellFormed lines := by
  unfold ArithmeticOp.result? at h
  split at h
  · obtain rfl := Option.some.inj h
    trivial
  · split at h
    · obtain rfl := Option.some.inj h
      trivial
    · exact absurd h (by simp)
  · exact absurd h (by simp)

/-- Operators yield no functions. -/
theorem BinaryOp.result?_wellFormed {op : BinaryOp} {v w r : Value}
    (h : op.result? v w = some r) : r.WellFormed lines := by
  cases op with
  | arithmetic op => exact ArithmeticOp.result?_wellFormed h
  | order op | equal | notEqual =>
    obtain ⟨_, -, rfl⟩ := Option.map_eq_some_iff.mp h
    trivial
  | other symbol => exact absurd h.symm (Option.some_ne_none r)

theorem BinaryOp.symbol_documented {op : BinaryOp} (h : op ∈ BinaryOp.known)
    (left right : Value.Kind) : (Fault.Cause.operandPair op.symbol left right).Documented := by
  have hall : ∀ op ∈ BinaryOp.known, op.symbol ∈
      ["+", "-", "*", "/", "<", "<=", ">", ">=", "==", "!=", "and", "or"] := by decide
  exact hall op h

theorem LogicalOp.evaluate_allowed {op : LogicalOp} (hop : op ∈ LogicalOp.known) {line : Int}
    (hline : lines line) (v w : Value) :
    Failure.Allowed lines (Value.WellFormed lines) (op.evaluate line v w) := by
  have hall : ∀ op ∈ LogicalOp.known, op.symbol ∈
      ["+", "-", "*", "/", "<", "<=", ">", ">=", "==", "!=", "and", "or"] := by decide
  unfold evaluate
  split
  · trivial
  · exact ⟨hline, hall op hop⟩

theorem Value.condition_allowed {keyword : String} (hkeyword : keyword ∈ ["-", "if", "while"])
    {line : Int} (hline : lines line) (v : Value) :
    Failure.Allowed lines (fun _ => True) (v.condition line keyword) := by
  cases v with
  | bool b => trivial
  | _ => exact ⟨hline, hkeyword⟩

/-! ## Steps -/

namespace Eval

variable {α β γ δ : Type} {P : α → Prop} {Q : γ → Prop}

/-- On well-formed machines the guarded computation `g` meets no hazard and does what `x` does, with
results changed by `r`; `x` ends with a result of the kind `P` or stops in a documented way, and
leaves a well-formed machine. -/
def Safe (lines : Int → Prop) (P : α → Prop) (r : α → β) (x : Eval α) (g : Guarded β) : Prop :=
  ∀ m : Machine, m.WellFormed lines →
    g m = Guarded.lift r x m ∧ (x m).2.WellFormed lines ∧ Stop.Allowed lines P (x m).1

theorem Safe.bind {r : α → β} {r' : γ → δ} {x : Eval α} {g : Guarded β} {f : α → Eval γ}
    {k : β → Guarded δ} (hx : Safe lines P r x g)
    (hf : ∀ a, P a → Safe lines Q r' (f a) (k (r a))) : Safe lines Q r' (x >>= f) (g >>= k) := by
  intro m hm
  obtain ⟨hg, hwf, hallowed⟩ := hx m hm
  show Guarded.andThen g k m = Guarded.lift r' (andThen x f) m ∧
    (andThen x f m).2.WellFormed lines ∧ Stop.Allowed lines Q (andThen x f m).1
  unfold Guarded.andThen Guarded.lift andThen
  rw [hg, Guarded.lift]
  cases hxm : x m with
  | mk out m₁ =>
    rw [hxm] at hwf hallowed
    cases out with
    | ok a => exact hf a hallowed m₁ hwf
    | error s => exact ⟨rfl, hwf, hallowed⟩

/-- A step that is not guarded. -/
theorem Safe.lift {r : α → β} {x : Eval α}
    (h : ∀ m : Machine, m.WellFormed lines →
      (x m).2.WellFormed lines ∧ Stop.Allowed lines P (x m).1) :
    Safe lines P r x (Guarded.lift r x) :=
  fun m hm => ⟨rfl, h m hm⟩

theorem safe_pure {r : α → β} {a : α} (h : P a) :
    Safe lines P r (pure a) (pure (r a) : Guarded β) :=
  fun _ hm => ⟨rfl, hm, h⟩

theorem safe_outOfFuel {r : α → β} :
    Safe lines P r (stop .outOfFuel) (Guarded.lift id (stop .outOfFuel)) :=
  fun _ hm => ⟨rfl, hm, trivial⟩

theorem safe_fail {r : α → β} {f : Failure} (h : f.Documented lines) :
    Safe lines P r (fail f) (Guarded.fail f) :=
  fun _ hm => ⟨rfl, hm, h⟩

theorem safe_ofExcept {r : α → β} {x : Except Failure α} (h : Failure.Allowed lines P x) :
    Safe lines P r (ofExcept x) (Guarded.lift r (ofExcept x)) := by
  cases x with
  | ok a => exact Safe.lift fun m hm => ⟨hm, h⟩
  | error f => exact Safe.lift fun m hm => ⟨hm, h⟩

theorem safe_condition {keyword : String} (hkeyword : keyword ∈ ["-", "if", "while"]) {test : Expr}
    (htest : test.WellFormed lines) (v : Value) :
    Safe lines (fun _ => True) id (ofExcept (v.condition test.line keyword))
      (Guarded.lift id (ofExcept (v.condition test.line keyword))) :=
  safe_ofExcept (v.condition_allowed hkeyword htest.lines_line)

theorem safe_require {r : α → β} {f : Failure} {bound : Option α} (hf : f.Documented lines)
    (h : ∀ a ∈ bound, P a) :
    Safe lines P r (require f bound) (Guarded.lift r (require f bound)) := by
  cases bound with
  | none => exact Safe.lift fun m hm => ⟨hm, hf⟩
  | some a => exact Safe.lift fun m hm => ⟨hm, h a rfl⟩

/-- What a look-up came to is handed on. -/
theorem safe_found {P : Value → Prop} {f : Failure} {bound : Option Value}
    (hf : f.Documented lines) (h : ∀ v ∈ bound, P v) :
    Safe lines P some (require f bound) (Guarded.found f bound) := by
  cases bound with
  | none => exact safe_fail hf
  | some v => exact safe_pure (h v rfl)

/-- A value that the guarded computation yields is there when it is used. -/
theorem Safe.present {P : Value → Prop} {x : Eval Value} {g : Guarded (Option Value)}
    (h : Safe lines P some x g) : Safe lines P id x g.present := by
  intro m hm
  obtain ⟨hg, hwf, hallowed⟩ := h m hm
  refine ⟨?_, hwf, hallowed⟩
  show Guarded.andThen g _ m = _
  unfold Guarded.andThen Guarded.lift
  rw [hg, Guarded.lift]
  cases x m with
  | mk out m₁ => cases out <;> rfl

theorem safe_lookup (scope : ScopeId) (x : String) :
    Safe lines (fun bound => ∀ v ∈ bound, v.WellFormed lines) id (lookup scope x)
      (Guarded.lift id (lookup scope x)) :=
  Safe.lift fun _ hm => ⟨hm, fun _ hv => hm.get? hv⟩

theorem safe_define (scope : ScopeId) (x : String) {v : Value} (hv : v.WellFormed lines) :
    Safe lines (fun _ => True) id (define scope x v) (Guarded.lift id (define scope x v)) :=
  Safe.lift fun _ hm => ⟨hm.define scope x hv, trivial⟩

theorem safe_assign {line : Int} (hline : lines line) (scope : ScopeId) (x : String) {v : Value}
    (hv : v.WellFormed lines) :
    Safe lines (fun _ => True) id (assign line scope x v)
      (Guarded.lift id (assign line scope x v)) := by
  refine Safe.lift fun m hm => ?_
  unfold assign
  cases m.scopes.owner? scope x with
  | none => exact ⟨hm, hline, trivial⟩
  | some owner => exact ⟨hm.define owner x hv, trivial⟩

theorem safe_extend (scope : ScopeId) :
    Safe lines (fun _ => True) id (extend scope) (Guarded.lift id (extend scope)) :=
  Safe.lift fun _ hm => ⟨hm.add (some scope), trivial⟩

theorem safe_newFunction (name : String) (params : List String) {body : List Stmt}
    (h : Stmt.AllWellFormed lines body) :
    Safe lines (Value.WellFormed lines) id (newFunction name params body)
      (Guarded.lift id (newFunction name params body)) :=
  Safe.lift fun _ hm => ⟨⟨hm.bound, hm.room⟩, h⟩

/-- Everything can be written, so it does not matter what a refusal would mean. -/
theorem safe_write (refused : String → Failure) (s : String) :
    Safe lines (fun _ => True) id (write refused s) (Guarded.lift id (write refused s)) := by
  refine Safe.lift fun m hm => ?_
  rw [write, if_pos (hm.hasRoom s)]
  exact ⟨hm.append s, trivial⟩

theorem safe_callNative {n : Native} (h : n.action = .announce) :
    Safe lines (Value.WellFormed lines) some (callNative n) (Guarded.lift some (callNative n)) := by
  obtain ⟨name, action⟩ := n
  subst h
  refine Safe.lift fun m hm => ?_
  show (andThen (write _ _) _ m).2.WellFormed lines ∧
    Stop.Allowed lines _ (andThen (write _ _) _ m).1
  rw [andThen, write, if_pos (hm.hasRoom _)]
  exact ⟨hm.append _, trivial⟩

theorem safe_unary {op : UnaryOp} (hop : op ∈ UnaryOp.known) {line : Int} (hline : lines line)
    (v : Value) : Safe lines (Value.WellFormed lines) some (ofExcept (op.evaluate line v))
      (Guarded.unary line op v) := by
  have hallowed := UnaryOp.evaluate_allowed hop hline v
  simp only [UnaryOp.known, List.mem_cons, List.not_mem_nil, or_false] at hop
  rcases hop with rfl | rfl <;> exact safe_ofExcept hallowed

theorem safe_binary {op : BinaryOp} (hop : op ∈ BinaryOp.known) {line : Int} (hline : lines line)
    (v w : Value) : Safe lines (Value.WellFormed lines) some (ofExcept (op.evaluate line v w))
      (Guarded.binary line op v w) := by
  have hfailure : (operandPairFailure line op.symbol v w).Documented lines :=
    ⟨hline, op.symbol_documented hop _ _⟩
  have hevaluate : ofExcept (op.evaluate line v w) =
      require (operandPairFailure line op.symbol v w) (op.result? v w) := by
    cases op with
    | other symbol => exact absurd hop (by simp [BinaryOp.known])
    | _ =>
      simp only [BinaryOp.evaluate]
      split <;> simp only [*] <;> rfl
  have hbinary : Guarded.binary line op v w =
      Guarded.found (operandPairFailure line op.symbol v w) (op.result? v w) := by
    cases op with
    | other symbol => exact absurd hop (by simp [BinaryOp.known])
    | _ => rfl
  rw [hevaluate, hbinary]
  exact safe_found hfailure fun r hr => BinaryOp.result?_wellFormed hr

/-- Every parameter is bound to the argument at its index, and there is one. -/
theorem safe_bindParameters (scope : ScopeId) {args : List Value}
    (hargs : ∀ v ∈ args, v.WellFormed lines) (index : Nat) (xs : List String)
    (hlength : index + xs.length = args.length) :
    Safe lines (fun _ => True) id (defineAll scope (xs.zip (args.drop index)))
      (Guarded.bindParameters scope args index xs) := by
  induction xs generalizing index with
  | nil => exact safe_pure trivial
  | cons x xs ih =>
    rw [List.length_cons] at hlength
    have hlt : index < args.length := by omega
    have harg : args[index]? = some args[index] := List.getElem?_eq_getElem hlt
    rw [List.drop_eq_getElem_cons hlt, List.zip_cons_cons, Guarded.bindParameters, harg]
    exact (safe_define scope x (hargs _ (List.getElem_mem hlt))).bind fun _ _ =>
      ih (index + 1) (by omega)

/-! ## Trees -/

/-- With this much fuel, evaluation is safe. -/
structure SafeWith (lines : Int → Prop) (fuel : Nat) : Prop where
  expression : ∀ scope e, e.WellFormed lines → Safe lines (Value.WellFormed lines) some
    (expression fuel scope e) (Guarded.expression fuel scope e)
  expressions : ∀ scope es, Expr.AllWellFormed lines es →
    Safe lines (fun vs => ∀ v ∈ vs, v.WellFormed lines) id (expressions fuel scope es)
      (Guarded.expressions fuel scope es)
  apply : ∀ scope l x callee vs, callee.WellFormed lines → callee.arity? = some vs.length →
    (∀ v ∈ vs, v.WellFormed lines) → Safe lines (Value.WellFormed lines) some
      (apply fuel scope l x callee vs) (Guarded.apply fuel scope callee vs)
  statement : ∀ scope s, s.WellFormed lines → Safe lines (Flow.WellFormed lines) id
    (statement fuel scope s) (Guarded.statement fuel scope s)
  statements : ∀ scope ss, Stmt.AllWellFormed lines ss → Safe lines (Flow.WellFormed lines) id
    (statements fuel scope ss) (Guarded.statements fuel scope ss)
  loop : ∀ scope e body, e.WellFormed lines → body.WellFormed lines →
    Safe lines (Flow.WellFormed lines) id (loop fuel scope e body)
      (Guarded.loop fuel scope e body)

theorem SafeWith.zero : SafeWith lines 0 where
  expression _ _ _ := by rw [Eval.expression, Guarded.expression]; exact safe_outOfFuel
  expressions _ _ _ := by rw [Eval.expressions, Guarded.expressions]; exact safe_outOfFuel
  apply _ _ _ _ _ _ _ _ := by rw [Eval.apply, Guarded.apply]; exact safe_outOfFuel
  statement _ _ _ := by rw [Eval.statement, Guarded.statement]; exact safe_outOfFuel
  statements _ _ _ := by rw [Eval.statements, Guarded.statements]; exact safe_outOfFuel
  loop _ _ _ _ _ := by rw [Eval.loop, Guarded.loop]; exact safe_outOfFuel

variable {fuel : Nat}

theorem SafeWith.expression_succ (h : SafeWith lines fuel) (scope : ScopeId) (e : Expr)
    (he : e.WellFormed lines) : Safe lines (Value.WellFormed lines) some
      (Eval.expression (fuel + 1) scope e) (Guarded.expression (fuel + 1) scope e) := by
  cases e with
  | number l x | string l x | bool l x | nil l =>
    rw [Eval.expression, Guarded.expression]
    exact safe_pure trivial
  | name l x =>
    rw [Eval.expression, Guarded.expression]
    exact (safe_lookup scope x).bind fun bound hbound => safe_found ⟨he, trivial⟩ hbound
  | group l inner =>
    rw [Eval.expression, Guarded.expression]
    exact h.expression scope inner he.2
  | unary l op operand =>
    obtain ⟨hl, hop, hoperand⟩ := he
    rw [Eval.expression, Guarded.expression]
    exact (h.expression scope operand hoperand).present.bind fun v _ => safe_unary hop hl v
  | binary l op left right =>
    obtain ⟨hl, hop, hleft, hright⟩ := he
    rw [Eval.expression, Guarded.expression]
    exact (h.expression scope left hleft).present.bind fun v _ =>
      (h.expression scope right hright).present.bind fun w _ => safe_binary hop hl v w
  | logical l op left right =>
    obtain ⟨hl, hop, hleft, hright⟩ := he
    rw [Eval.expression, Guarded.expression]
    exact (h.expression scope left hleft).present.bind fun v _ =>
      (h.expression scope right hright).present.bind fun w _ =>
        safe_ofExcept (LogicalOp.evaluate_allowed hop hl v w)
  | assign l x value =>
    obtain ⟨hl, hvalue⟩ := he
    rw [Eval.expression, Guarded.expression]
    exact (h.expression scope value hvalue).present.bind fun v hv =>
      (safe_assign hl scope x hv).bind fun _ _ => safe_pure hv
  | call l g args =>
    obtain ⟨hl, hargs⟩ := he
    rw [Eval.expression, Guarded.expression]
    have hunbound : Failure.Documented lines (.fault ⟨l, .undefinedFunction g⟩) := ⟨hl, trivial⟩
    have hother (k : Value.Kind) : Failure.Documented lines (.fault ⟨l, .notCallable g k⟩) :=
      ⟨hl, trivial⟩
    refine (safe_lookup scope g).bind fun bound hbound =>
      (safe_found hunbound hbound).present.bind fun callee hcallee =>
      (safe_require (P := fun n => callee.arity? = some n) (hother callee.kind)
        fun _ harity => harity).bind fun arity harity =>
      (h.expressions scope args hargs).bind fun vs hvs => ?_
    -- Only what takes this many arguments is called with them.
    by_cases hlength : vs.length = arity
    · rw [id, id, if_pos hlength, if_pos hlength]
      exact h.apply scope l g callee vs hcallee (hlength ▸ harity) hvs
    · rw [id, id, if_neg hlength, if_neg hlength]
      exact safe_fail ⟨hl, fun heq => hlength (Int.ofNat.inj heq).symm⟩

theorem SafeWith.expressions_succ (h : SafeWith lines fuel) (scope : ScopeId) (es : List Expr)
    (hes : Expr.AllWellFormed lines es) :
    Safe lines (fun vs => ∀ v ∈ vs, v.WellFormed lines) id
      (Eval.expressions (fuel + 1) scope es) (Guarded.expressions (fuel + 1) scope es) := by
  cases es with
  | nil =>
    rw [Eval.expressions, Guarded.expressions]
    exact safe_pure fun v hv => absurd hv List.not_mem_nil
  | cons e es =>
    rw [Eval.expressions, Guarded.expressions]
    exact (h.expression scope e hes.1).present.bind fun v hv =>
      (h.expressions scope es hes.2).bind fun vs hvs =>
        safe_pure (List.forall_mem_cons.mpr ⟨hv, hvs⟩)

theorem SafeWith.apply_succ (h : SafeWith lines fuel) (scope : ScopeId) (l : Int) (x : String)
    (callee : Value) (vs : List Value) (hcallee : callee.WellFormed lines)
    (harity : callee.arity? = some vs.length) (hvs : ∀ v ∈ vs, v.WellFormed lines) :
    Safe lines (Value.WellFormed lines) some (Eval.apply (fuel + 1) scope l x callee vs)
      (Guarded.apply (fuel + 1) scope callee vs) := by
  cases callee with
  | function g =>
    rw [Eval.apply, Guarded.apply]
    have hlength : 0 + g.params.length = vs.length := by
      rw [Nat.zero_add]
      exact Option.some.inj harity
    refine (safe_extend scope).bind fun inner _ =>
      (safe_bindParameters inner hvs 0 g.params hlength).bind fun _ _ =>
      (h.statements inner g.body hcallee).bind fun flow hflow => ?_
    cases flow with
    | next v => exact safe_pure trivial
    | giveBack v => exact safe_pure hflow
  | native n =>
    rw [Eval.apply, Guarded.apply]
    exact safe_callNative hcallee
  | number | string | bool | nil => exact absurd harity (by simp [Value.arity?])

theorem SafeWith.loop_succ (h : SafeWith lines fuel) (scope : ScopeId) (e : Expr) (body : Stmt)
    (he : e.WellFormed lines) (hbody : body.WellFormed lines) :
    Safe lines (Flow.WellFormed lines) id (Eval.loop (fuel + 1) scope e body)
      (Guarded.loop (fuel + 1) scope e body) := by
  rw [Eval.loop, Guarded.loop]
  refine (h.expression scope e he).present.bind fun v _ =>
    (safe_condition (by decide) he v).bind fun holds _ => ?_
  cases holds with
  | false => exact safe_pure trivial
  | true =>
    refine (h.statement scope body hbody).bind fun flow hflow => ?_
    cases flow with
    | next v => exact h.loop scope e body he hbody
    | giveBack v => exact safe_pure hflow

theorem SafeWith.statements_succ (h : SafeWith lines fuel) (scope : ScopeId) (ss : List Stmt)
    (hss : Stmt.AllWellFormed lines ss) :
    Safe lines (Flow.WellFormed lines) id (Eval.statements (fuel + 1) scope ss)
      (Guarded.statements (fuel + 1) scope ss) := by
  cases ss with
  | nil =>
    rw [Eval.statements, Guarded.statements]
    exact safe_pure trivial
  | cons s ss =>
    rw [Eval.statements, Guarded.statements]
    refine (h.statement scope s hss.1).bind fun flow hflow => ?_
    cases flow with
    | next v => exact h.statements scope ss hss.2
    | giveBack v => exact safe_pure hflow

theorem SafeWith.statement_succ (h : SafeWith lines fuel) (scope : ScopeId) (s : Stmt)
    (hs : s.WellFormed lines) : Safe lines (Flow.WellFormed lines) id
      (Eval.statement (fuel + 1) scope s) (Guarded.statement (fuel + 1) scope s) := by
  cases s with
  | expression l e =>
    rw [Eval.statement, Guarded.statement]
    exact (h.expression scope e hs).present.bind fun v hv => safe_pure hv
  | print l e =>
    rw [Eval.statement, Guarded.statement]
    exact (h.expression scope e hs).present.bind fun v _ =>
      (safe_write .print _).bind fun _ _ => safe_pure trivial
  | declare l x initializer =>
    cases initializer with
    | none =>
      rw [Eval.statement, Guarded.statement]
      exact (safe_define scope x (v := .nil) trivial).bind fun _ _ => safe_pure trivial
    | some e =>
      rw [Eval.statement, Guarded.statement]
      exact (h.expression scope e (hs e rfl)).present.bind fun v hv =>
        (safe_define scope x hv).bind fun _ _ => safe_pure trivial
  | function l g params bodyLine body =>
    rw [Eval.statement, Guarded.statement]
    exact (safe_newFunction g params hs).bind fun v hv =>
      (safe_define scope g hv).bind fun _ _ => safe_pure trivial
  | block l body =>
    rw [Eval.statement, Guarded.statement]
    exact (safe_extend scope).bind fun inner _ => h.statements inner body hs
  | ifThen l test yes =>
    obtain ⟨htest, hyes⟩ := hs
    rw [Eval.statement, Guarded.statement]
    refine (h.expression scope test htest).present.bind fun v _ =>
      (safe_condition (by decide) htest v).bind fun holds _ => ?_
    cases holds with
    | false => exact safe_pure trivial
    | true => exact h.statement scope yes hyes
  | ifElse l test yes no =>
    obtain ⟨htest, hyes, hno⟩ := hs
    rw [Eval.statement, Guarded.statement]
    refine (h.expression scope test htest).present.bind fun v _ =>
      (safe_condition (by decide) htest v).bind fun holds _ => ?_
    cases holds with
    | false => exact h.statement scope no hno
    | true => exact h.statement scope yes hyes
  | loop l test body =>
    rw [Eval.statement, Guarded.statement]
    exact h.loop scope test body hs.1 hs.2
  | giveBack l value =>
    cases value with
    | none =>
      rw [Eval.statement, Guarded.statement]
      exact safe_pure trivial
    | some e =>
      rw [Eval.statement, Guarded.statement]
      exact (h.expression scope e (hs e rfl)).present.bind fun v hv => safe_pure hv

/-- Evaluation is safe, however much fuel there is. -/
theorem safe (fuel : Nat) : SafeWith lines fuel := by
  induction fuel with
  | zero => exact .zero
  | succ fuel ih =>
    exact ⟨ih.expression_succ, ih.expressions_succ, ih.apply_succ, ih.statement_succ,
      ih.statements_succ, ih.loop_succ⟩

end Eval

end Lox

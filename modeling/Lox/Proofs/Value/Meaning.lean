import Lox.Proofs.Value.Comparison

/-!
# What operators mean

The language says by rules what its operators make of values: which kinds they take, what comes of
them, and how an operand of another kind is reported.  The rules say in the same way what a value
is called, how many arguments it takes and what `print` shows of it.  They are independent of the
evaluator, which does what they say (`UnaryOp.means_iff`, `BinaryOp.means_iff`,
`LogicalOp.means_iff`): there is one outcome for all operands, and it is the one of the rules.
-/

namespace Lox

namespace Value

/-! ## Values -/

/-- The value is of this kind. -/
inductive HasKind : Value → Kind → Prop
  | number {x : Float} : HasKind (number x) .number
  | string {s : String} : HasKind (string s) .string
  | bool {b : Bool} : HasKind (bool b) .bool
  | nil : HasKind nil .nil
  | function {f : Function} : HasKind (function f) .function
  | native {n : Native} : HasKind (native n) .native

/-- The value can be called, with this many arguments. -/
inductive Takes : Value → Nat → Prop
  | function {f : Function} : Takes (function f) f.params.length
  | native {n : Native} : Takes (native n) 0

/-- The value counts as false. -/
inductive Falsy : Value → Prop
  | nil : Falsy nil
  | false : Falsy (bool false)

/-- What `print` shows of a value. -/
inductive Shown : Value → String → Prop
  | number {x : Float} : Shown (number x) (Number.text x)
  | string {s : String} : Shown (string s) s
  | true : Shown (bool true) "true"
  | false : Shown (bool false) "false"
  | nil : Shown nil "nil"
  | function {f : Function} : Shown (function f) ("<fn " ++ f.name ++ ">")
  | native {n : Native} : Shown (native n) ("<native fn " ++ n.name ++ ">")

/-- The first value comes before the second one.  Texts are ordered by their code points. -/
inductive Precedes : Value → Value → Prop
  | number {x y : Float} (h : x < y) : Precedes (number x) (number y)
  | string {s t : String} (h : Text.codePoints s < Text.codePoints t) :
      Precedes (string s) (string t)
  | bool : Precedes (bool false) (bool true)

/-- The two values are the same.  NaN is not the same as itself, and a function is only the same as
itself. -/
inductive Same : Value → Value → Prop
  | number {x y : Float} (h : (x == y) = true) : Same (number x) (number y)
  | string {s : String} : Same (string s) (string s)
  | bool {b : Bool} : Same (bool b) (bool b)
  | nil : Same nil nil
  | function {f g : Function} (h : f.id = g.id) : Same (function f) (function g)
  | native {m n : Native} (h : m.name = n.name) : Same (native m) (native n)

variable {v l r : Value} {k : Kind}

theorem hasKind_iff : v.HasKind k ↔ v.kind = k := by
  constructor
  · intro h
    cases h <;> rfl
  · rintro rfl
    cases v <;> constructor

theorem hasKind_kind (v : Value) : v.HasKind v.kind := hasKind_iff.mpr rfl

theorem exists_of_kind_bool (h : v.kind = .bool) : ∃ b, v = .bool b := by
  cases hasKind_iff.mpr h
  exact ⟨_, rfl⟩

theorem takes_iff {n : Nat} : v.Takes n ↔ v.arity? = some n := by
  constructor
  · intro h
    cases h <;> rfl
  · intro h
    cases v <;> cases h <;> constructor

theorem not_takes_iff : (∀ n, ¬ v.Takes n) ↔ v.arity? = none := by
  simp only [takes_iff, Option.eq_none_iff_forall_ne_some, Ne]

theorem falsy_iff : v.Falsy ↔ v.isTruthy = false := by
  constructor
  · intro h
    cases h <;> rfl
  · intro h
    cases v with
    | nil => exact .nil
    | bool b =>
      obtain rfl : b = false := h
      exact .false
    | number | string | function | native => cases h

theorem shown_iff {s : String} : v.Shown s ↔ v.text = s := by
  constructor
  · intro h
    cases h <;> rfl
  · rintro rfl
    cases v with
    | bool b => cases b <;> constructor
    | number | string | nil | function | native => constructor

theorem shown_text (v : Value) : v.Shown v.text := shown_iff.mpr rfl

/-! ## Order and sameness -/

/-- The order found for two values is theirs. -/
structure Compared (l r : Value) (o : Option Ordering) : Prop where
  less : o = some .lt ↔ l.Precedes r
  greater : o = some .gt ↔ r.Precedes l
  same : o = some .eq ↔ l.Same r

theorem compared_number (x y : Float) :
    Compared (number x) (number y) (Number.order? x y) := by
  obtain ⟨hless, hgreater, hsame⟩ := Number.order?_eq_some_iff x y
  exact ⟨hless.trans ⟨.number, fun | .number h => h⟩,
    hgreater.trans ⟨.number, fun | .number h => h⟩, hsame.trans ⟨.number, fun | .number h => h⟩⟩

theorem compared_string (s t : String) :
    Compared (string s) (string t) (some (Text.Utf8.order s t)) := by
  rw [Text.Utf8.order_eq_compare]
  refine ⟨?_, ?_, ?_⟩
  · rw [Option.some_inj, Text.Utf8.compare_eq_lt_iff]
    exact ⟨.string, fun | .string h => h⟩
  · rw [Option.some_inj, Std.OrientedCmp.gt_iff_lt, Text.Utf8.compare_eq_lt_iff]
    exact ⟨.string, fun | .string h => h⟩
  · rw [Option.some_inj, Std.LawfulEqCmp.compare_eq_iff_eq, Text.Utf8.codePoints_injective.eq_iff]
    exact ⟨fun h => h ▸ .string, fun | .string => rfl⟩

theorem compared_bool (a b : Bool) : Compared (bool a) (bool b) (some (boolOrder a b)) := by
  cases a <;> cases b
  · exact ⟨iff_of_false nofun nofun, iff_of_false nofun nofun, iff_of_true rfl .bool⟩
  · exact ⟨iff_of_true rfl .bool, iff_of_false nofun nofun, iff_of_false nofun nofun⟩
  · exact ⟨iff_of_false nofun nofun, iff_of_true rfl .bool, iff_of_false nofun nofun⟩
  · exact ⟨iff_of_false nofun nofun, iff_of_false nofun nofun, iff_of_true rfl .bool⟩

/-- The kinds whose values are ordered. -/
def Kind.ordered : List Kind := [.number, .string, .bool]

/-- Two values are in an order if they are of one kind and that kind is ordered. -/
theorem compared_of_order? {o : Option Ordering} (h : order? l r = some o) :
    Compared l r o ∧ ∃ k ∈ Kind.ordered, l.HasKind k ∧ r.HasKind k := by
  cases l <;> cases r
  case number.number x y =>
    obtain rfl := Option.some.inj h
    exact ⟨compared_number x y, .number, by decide, .number, .number⟩
  case string.string s t =>
    obtain rfl := Option.some.inj h
    exact ⟨compared_string s t, .string, by decide, .string, .string⟩
  case bool.bool a b =>
    obtain rfl := Option.some.inj h
    exact ⟨compared_bool a b, .bool, by decide, .bool, .bool⟩
  all_goals cases h

theorem exists_order (hk : k ∈ Kind.ordered) (hl : l.HasKind k) (hr : r.HasKind k) :
    ∃ o, order? l r = some o := by
  cases hl <;> cases hr
  case nil.nil | function.function | native.native => exact absurd hk (by decide)
  all_goals exact ⟨_, rfl⟩

theorem same_of_equal? {same : Bool} (h : equal? l r = some same) :
    (same = true ↔ l.Same r) ∧ ∃ k, l.HasKind k ∧ r.HasKind k := by
  cases l <;> cases r
  case number.number x y =>
    obtain rfl := Option.some.inj h
    exact ⟨⟨.number, fun | .number h => h⟩, _, .number, .number⟩
  case string.string s t =>
    obtain rfl := Option.some.inj h
    rw [beq_iff_eq]
    exact ⟨⟨fun h => h ▸ .string, fun | .string => rfl⟩, _, .string, .string⟩
  case bool.bool a b =>
    obtain rfl := Option.some.inj h
    rw [beq_iff_eq]
    exact ⟨⟨fun h => h ▸ .bool, fun | .bool => rfl⟩, _, .bool, .bool⟩
  case nil.nil =>
    obtain rfl := Option.some.inj h
    exact ⟨iff_of_true rfl .nil, _, .nil, .nil⟩
  case function.function f g =>
    obtain rfl := Option.some.inj h
    rw [beq_iff_eq]
    exact ⟨⟨.function, fun | .function h => h⟩, _, .function, .function⟩
  case native.native m n =>
    obtain rfl := Option.some.inj h
    rw [beq_iff_eq]
    exact ⟨⟨.native, fun | .native h => h⟩, _, .native, .native⟩
  all_goals cases h

theorem exists_equal (hl : l.HasKind k) (hr : r.HasKind k) : ∃ same, equal? l r = some same := by
  cases hl <;> cases hr <;> exact ⟨_, rfl⟩

end Value

/-! ## Operators with two operands -/

/-- What an operator asks of the order of two values. -/
def OrderOp.Holds (l r : Value) : OrderOp → Prop
  | less => l.Precedes r
  | lessEqual => l.Precedes r ∨ l.Same r
  | greater => r.Precedes l
  | greaterEqual => r.Precedes l ∨ l.Same r

theorem OrderOp.holds_iff {l r : Value} {o : Option Ordering} (h : Value.Compared l r o)
    (op : OrderOp) : op.Holds l r ↔ (o.map op.accepts).getD false = true := by
  cases op <;> simp only [Holds, ← h.less, ← h.greater, ← h.same]
  all_goals obtain _ | _ | _ | _ := o <;> decide

namespace BinaryOp

/-- What an operator makes of two values that it takes: arithmetic takes two numbers, `+` also two
texts, the order two values of one ordered kind, and equality two values of any one kind. -/
inductive Computes : BinaryOp → Value → Value → Value → Prop
  | add {x y : Float} : Computes (.arithmetic .add) (.number x) (.number y) (.number (x + y))
  | subtract {x y : Float} :
      Computes (.arithmetic .subtract) (.number x) (.number y) (.number (x - y))
  | multiply {x y : Float} :
      Computes (.arithmetic .multiply) (.number x) (.number y) (.number (x * y))
  | divide {x y : Float} : Computes (.arithmetic .divide) (.number x) (.number y) (.number (x / y))
  | join {s t : String} : Computes (.arithmetic .add) (.string s) (.string t) (.string (s ++ t))
  | order {op : OrderOp} {l r : Value} {k : Value.Kind} {b : Bool}
      (hk : k ∈ Value.Kind.ordered) (hl : l.HasKind k) (hr : r.HasKind k)
      (hb : b = true ↔ op.Holds l r) : Computes (.order op) l r (.bool b)
  | equal {l r : Value} {k : Value.Kind} {b : Bool} (hl : l.HasKind k) (hr : r.HasKind k)
      (hb : b = true ↔ l.Same r) : Computes .equal l r (.bool b)
  | notEqual {l r : Value} {k : Value.Kind} {b : Bool} (hl : l.HasKind k) (hr : r.HasKind k)
      (hb : b = true ↔ ¬ l.Same r) : Computes .notEqual l r (.bool b)

/-- The symbol of an operator of the language. -/
inductive HasSymbol : BinaryOp → String → Prop
  | add : HasSymbol (.arithmetic .add) "+"
  | subtract : HasSymbol (.arithmetic .subtract) "-"
  | multiply : HasSymbol (.arithmetic .multiply) "*"
  | divide : HasSymbol (.arithmetic .divide) "/"
  | less : HasSymbol (.order .less) "<"
  | lessEqual : HasSymbol (.order .lessEqual) "<="
  | greater : HasSymbol (.order .greater) ">"
  | greaterEqual : HasSymbol (.order .greaterEqual) ">="
  | equal : HasSymbol .equal "=="
  | notEqual : HasSymbol .notEqual "!="

/-- What comes of an operator with two operands.  Where it does not take them, the failure names
its symbol and their kinds. -/
inductive Means (line : Int) : BinaryOp → Value → Value → Except Failure Value → Prop
  | value {op : BinaryOp} {l r v : Value} (h : op.Computes l r v) : Means line op l r (.ok v)
  | mismatch {op : BinaryOp} {l r : Value} {symbol : String} {j k : Value.Kind}
      (h : ∀ v, ¬ op.Computes l r v) (hsymbol : op.HasSymbol symbol) (hl : l.HasKind j)
      (hr : r.HasKind k) : Means line op l r (.error (.fault ⟨line, .operandPair symbol j k⟩))
  | unknown {symbol : String} {l r : Value} :
      Means line (.other symbol) l r (.error (.binaryOperator symbol))

variable {op : BinaryOp} {l r v : Value} {out : Except Failure Value}

/-! ### Agreement with the evaluator -/

theorem Computes.result?_eq (h : op.Computes l r v) : op.result? l r = some v := by
  cases h with
  | add | subtract | multiply | divide | join => rfl
  | @order op l r k b hk hl hr hb =>
    obtain ⟨o, ho⟩ := Value.exists_order hk hl hr
    have hsays := op.holds_iff (Value.compared_of_order? ho).1
    have hb' : (o.map op.accepts).getD false = b := by rw [Bool.eq_iff_iff, hb, hsays]
    rw [result_order, ho, Option.map_some, hb']
  | equal hl hr hb =>
    obtain ⟨same, hsame⟩ := Value.exists_equal hl hr
    have hb' := Bool.eq_iff_iff.mpr ((Value.same_of_equal? hsame).1.trans hb.symm)
    rw [result_equal, hsame, Option.map_some, hb']
  | @notEqual l r k b hl hr hb =>
    obtain ⟨same, hsame⟩ := Value.exists_equal hl hr
    have hb' : (!same) = b := by
      rw [Bool.eq_iff_iff, hb, ← (Value.same_of_equal? hsame).1, Bool.not_eq_true',
        Bool.not_eq_true]
    rw [result_notEqual, hsame, Option.map_some, hb']

theorem computes_arithmetic {op : ArithmeticOp} (h : op.result? l r = some v) :
    (arithmetic op).Computes l r v := by
  cases l <;> cases r
  case number.number x y =>
    obtain rfl := Option.some.inj h
    cases op <;> constructor
  case string.string s t =>
    cases op <;> cases h
    exact .join
  all_goals cases h

theorem computes_iff : op.Computes l r v ↔ op.result? l r = some v := by
  refine ⟨Computes.result?_eq, fun h => ?_⟩
  cases op with
  | arithmetic op => exact computes_arithmetic h
  | order op =>
    obtain ⟨o, ho, rfl⟩ := Option.map_eq_some_iff.mp h
    obtain ⟨hcompared, k, hk, hl, hr⟩ := Value.compared_of_order? ho
    exact .order hk hl hr (op.holds_iff hcompared).symm
  | equal =>
    obtain ⟨same, hsame, rfl⟩ := Option.map_eq_some_iff.mp h
    obtain ⟨hiff, k, hl, hr⟩ := Value.same_of_equal? hsame
    exact .equal hl hr hiff
  | notEqual =>
    obtain ⟨same, hsame, rfl⟩ := Option.map_eq_some_iff.mp h
    obtain ⟨hiff, k, hl, hr⟩ := Value.same_of_equal? hsame
    exact .notEqual hl hr (by rw [← hiff, Bool.not_eq_true', Bool.not_eq_true])
  | other symbol => cases h

theorem HasSymbol.symbol_eq {s : String} (h : op.HasSymbol s) : op.symbol = s := by
  cases h <;> rfl

/-- An operator of the language does what it makes of two values, or names their kinds. -/
theorem evaluate_of_symbol {s : String} (h : op.HasSymbol s) (line : Int) :
    op.evaluate line l r =
      match op.result? l r with
      | some v => .ok v
      | none => .error (operandPairFailure line s l r) := by
  rw [← h.symbol_eq]
  cases h <;> rfl

theorem exists_symbol (h : ∀ s, op ≠ .other s) : ∃ s, op.HasSymbol s := by
  cases op with
  | arithmetic op => cases op <;> exact ⟨_, by constructor⟩
  | order op => cases op <;> exact ⟨_, by constructor⟩
  | equal => exact ⟨_, .equal⟩
  | notEqual => exact ⟨_, .notEqual⟩
  | other s => exact absurd rfl (h s)

theorem Computes.ne_other (h : op.Computes l r v) (s : String) : op ≠ .other s := by
  rintro rfl
  cases h

theorem means_iff {line : Int} : op.Means line l r out ↔ op.evaluate line l r = out := by
  constructor
  · intro h
    cases h with
    | value h =>
      obtain ⟨s, hs⟩ := exists_symbol h.ne_other
      rw [evaluate_of_symbol hs, computes_iff.mp h]
    | mismatch h hsymbol hl hr =>
      have hnone : op.result? l r = none := by
        rw [Option.eq_none_iff_forall_ne_some]
        exact fun v hv => h v (computes_iff.mpr hv)
      rw [evaluate_of_symbol hsymbol, hnone, operandPairFailure, Value.hasKind_iff.mp hl,
        Value.hasKind_iff.mp hr]
    | unknown => rfl
  · rintro rfl
    by_cases hother : ∃ s, op = .other s
    · obtain ⟨s, rfl⟩ := hother
      exact .unknown
    · obtain ⟨s, hs⟩ := exists_symbol (not_exists.mp hother)
      rw [evaluate_of_symbol hs]
      cases hresult : op.result? l r with
      | some v => exact .value (computes_iff.mpr hresult)
      | none =>
        refine .mismatch (fun v hv => ?_) hs l.hasKind_kind r.hasKind_kind
        rw [computes_iff.mp hv] at hresult
        cases hresult

end BinaryOp

/-! ## Operators on truth values -/

namespace LogicalOp

/-- The symbol of an operator on truth values. -/
inductive HasSymbol : LogicalOp → String → Prop
  | and : HasSymbol .and "and"
  | or : HasSymbol .or "or"
  | other {symbol : String} : HasSymbol (.other symbol) symbol

/-- What comes of an operator on truth values, once both operands have values. -/
inductive Means (line : Int) : LogicalOp → Value → Value → Except Failure Value → Prop
  | and {a b : Bool} : Means line .and (.bool a) (.bool b) (.ok (.bool (a && b)))
  | or {a b : Bool} : Means line .or (.bool a) (.bool b) (.ok (.bool (a || b)))
  | other {symbol : String} {a b : Bool} :
      Means line (.other symbol) (.bool a) (.bool b) (.ok (.bool (a || b)))
  | mismatch {op : LogicalOp} {l r : Value} {symbol : String} {j k : Value.Kind}
      (hsymbol : op.HasSymbol symbol) (hl : l.HasKind j) (hr : r.HasKind k)
      (h : j ≠ .bool ∨ k ≠ .bool) :
      Means line op l r (.error (.fault ⟨line, .operandPair symbol j k⟩))

theorem hasSymbol_iff {op : LogicalOp} {s : String} : op.HasSymbol s ↔ op.symbol = s := by
  constructor
  · intro h
    cases h <;> rfl
  · rintro rfl
    cases op <;> constructor

theorem evaluate_of_ne {op : LogicalOp} {l r : Value} (h : l.kind ≠ .bool ∨ r.kind ≠ .bool)
    {line : Int} :
    op.evaluate line l r = .error (.fault ⟨line, .operandPair op.symbol l.kind r.kind⟩) := by
  cases l with
  | bool a =>
    cases r with
    | bool b => exact h.elim (absurd rfl) (absurd rfl)
    | _ => rfl
  | _ => rfl

theorem means_iff {op : LogicalOp} {l r : Value} {line : Int} {out : Except Failure Value} :
    op.Means line l r out ↔ op.evaluate line l r = out := by
  constructor
  · intro h
    cases h with
    | and | or | other => rfl
    | mismatch hsymbol hl hr h =>
      obtain rfl := hasSymbol_iff.mp hsymbol
      obtain rfl := Value.hasKind_iff.mp hl
      obtain rfl := Value.hasKind_iff.mp hr
      exact evaluate_of_ne h
  · rintro rfl
    by_cases hkinds : l.kind = .bool ∧ r.kind = .bool
    · obtain ⟨a, rfl⟩ := Value.exists_of_kind_bool hkinds.1
      obtain ⟨b, rfl⟩ := Value.exists_of_kind_bool hkinds.2
      cases op <;> constructor
    · have hne := Decidable.not_and_iff_or_not.mp hkinds
      rw [evaluate_of_ne hne]
      exact .mismatch (hasSymbol_iff.mpr rfl) l.hasKind_kind r.hasKind_kind hne

end LogicalOp

/-! ## Operators with one operand -/

namespace UnaryOp

/-- What comes of an operator with one operand. -/
inductive Means (line : Int) : UnaryOp → Value → Except Failure Value → Prop
  | negate {x : Float} : Means line .negate (.number x) (.ok (.number (-x)))
  | mismatch {v : Value} {k : Value.Kind} (hv : v.HasKind k) (h : k ≠ .number) :
      Means line .negate v (.error (.fault ⟨line, .operandType "-" k⟩))
  | notFalsy {v : Value} (h : v.Falsy) : Means line .not v (.ok (.bool true))
  | notTruthy {v : Value} (h : ¬ v.Falsy) : Means line .not v (.ok (.bool false))
  | unknown {symbol : String} {v : Value} :
      Means line (.other symbol) v (.error (.unaryOperator symbol))

theorem means_iff {op : UnaryOp} {v : Value} {line : Int} {out : Except Failure Value} :
    op.Means line v out ↔ op.evaluate line v = out := by
  constructor
  · intro h
    cases h with
    | negate | unknown => rfl
    | mismatch hv h =>
      cases hv
      case number => exact absurd rfl h
      all_goals rfl
    | notFalsy h => rw [evaluate, Value.falsy_iff.mp h, Bool.not_false]
    | notTruthy h =>
      rw [Value.falsy_iff, Bool.not_eq_false] at h
      rw [evaluate, h, Bool.not_true]
  · rintro rfl
    cases op with
    | negate =>
      cases v with
      | number x => exact .negate
      | string | bool | nil | function | native =>
        exact .mismatch (Value.hasKind_kind _) nofun
    | not =>
      rw [evaluate]
      cases htruthy : v.isTruthy with
      | false => exact .notFalsy (Value.falsy_iff.mpr htruthy)
      | true =>
        refine .notTruthy fun h => ?_
        rw [Value.falsy_iff.mp h] at htruthy
        cases htruthy
    | other symbol => exact .unknown

end UnaryOp

end Lox

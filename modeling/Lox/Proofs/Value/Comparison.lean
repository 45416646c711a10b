import Lox.Proofs.Number.Comparison
import Lox.Proofs.Text.CodePointOrder
import Mathlib.Logic.ExistsUnique

/-!
# Comparing values

The six comparisons of the language fit together, although `==` and `!=` do not go by the order that
the other four go by (`Value.lawful_comparisons`).  On numbers, texts and truth values they come of
one total order, which is that of the code points for texts.  NaN stands outside: every comparison
with it is false, but for `!=`.  Values of different kinds are not compared at all, and of
functions, natives and nil one can only ask whether they are the same.
-/

namespace Lox

/-! ## What an operator says -/

namespace BinaryOp

/-- The value of the operator is this truth value. -/
def Yields (op : BinaryOp) (l r : Value) (b : Bool) : Prop :=
  ∀ line, op.evaluate line l r = .ok (.bool b)

/-- The operator fails, naming the kinds of its operands. -/
def Rejects (op : BinaryOp) (l r : Value) : Prop :=
  ∀ line, op.evaluate line l r = .error (.fault ⟨line, .operandPair op.symbol l.kind r.kind⟩)

/-- The operators that compare. -/
def comparisons : List BinaryOp :=
  [.order .less, .order .lessEqual, .order .greater, .order .greaterEqual, .equal, .notEqual]

variable {l r : Value}

theorem result_order (op : OrderOp) :
    BinaryOp.result? (order op) l r =
      (Value.order? l r).map fun o => .bool ((o.map op.accepts).getD false) := rfl

theorem result_equal : equal.result? l r = (Value.equal? l r).map .bool := rfl

theorem result_notEqual :
    notEqual.result? l r = (Value.equal? l r).map fun same => .bool (!same) := rfl

/-- What an operator that compares makes of two values is its value, and the kinds of the two are
named where it makes nothing of them. -/
theorem evaluate_eq {op : BinaryOp} (hop : op ∈ comparisons) (line : Int) :
    op.evaluate line l r =
      match op.result? l r with
      | some v => .ok v
      | none => .error (operandPairFailure line op.symbol l r) := by
  cases op with
  | other symbol => simp [comparisons] at hop
  | _ => rfl

theorem yields_iff {op : BinaryOp} (hop : op ∈ comparisons) {b c : Bool}
    (h : op.result? l r = some (.bool c)) : op.Yields l r b ↔ c = b := by
  simp only [Yields, evaluate_eq hop, h, Except.ok.injEq, Value.bool.injEq, forall_const]

theorem rejects_of_eq_none {op : BinaryOp} (hop : op ∈ comparisons) (h : op.result? l r = none) :
    op.Rejects l r := by
  intro line
  rw [evaluate_eq hop, h]
  rfl

theorem order_mem_comparisons (op : OrderOp) : .order op ∈ comparisons := by
  cases op <;> decide

/-- The operators that compare ask for the order, or whether two values are the same. -/
theorem forall_comparisons {P : BinaryOp → Prop} (horder : ∀ op, P (.order op)) (hequal : P .equal)
    (hnotEqual : P .notEqual) : ∀ op ∈ comparisons, P op := by
  intro op hop
  cases op with
  | order op => exact horder op
  | equal => exact hequal
  | notEqual => exact hnotEqual
  | arithmetic op => simp [comparisons] at hop
  | other symbol => simp [comparisons] at hop

/-- The operators that ask for the order say what they accept of it. -/
theorem order_yields_iff {o : Option Ordering} (h : Value.order? l r = some o) (op : OrderOp)
    {b : Bool} : (order op).Yields l r b ↔ (o.map op.accepts).getD false = b :=
  yields_iff (order_mem_comparisons op) (by rw [result_order, h]; rfl)

theorem equal_yields_iff {same : Bool} (h : Value.equal? l r = some same) {b : Bool} :
    equal.Yields l r b ↔ same = b :=
  yields_iff (by decide) (by rw [result_equal, h]; rfl)

theorem notEqual_yields_iff {same : Bool} (h : Value.equal? l r = some same) {b : Bool} :
    notEqual.Yields l r b ↔ (!same) = b :=
  yields_iff (by decide) (by rw [result_notEqual, h]; rfl)

end BinaryOp

namespace Value

open BinaryOp

/-! ## One order -/

/-- Two numbers other than NaN, two texts or two truth values. -/
inductive Comparable : Value → Value → Prop
  | numbers {x y : Float} (hx : x.isNaN = false) (hy : y.isNaN = false) :
      Comparable (number x) (number y)
  | strings (s t : String) : Comparable (string s) (string t)
  | bools (a b : Bool) : Comparable (bool a) (bool b)

/-- The order of two comparable values. -/
def compare : Value → Value → Ordering
  | number x, number y => Number.compare x y
  | string s, string t => Ord.compare (Text.codePoints s) (Text.codePoints t)
  | bool a, bool b => boolOrder a b
  | _, _ => .eq

namespace Comparable

variable {l r t : Value}

/-- The order and the equality of comparable values are one thing. -/
theorem order_eq (h : l.Comparable r) :
    order? l r = some (some (compare l r)) ∧ equal? l r = some (compare l r == .eq) := by
  cases h with
  | @numbers x y hx hy =>
    rw [order?, equal?, compare, Number.order?_eq_some hx hy, Number.beq_eq_compare hx hy]
    exact ⟨rfl, rfl⟩
  | strings s t =>
    have hsame : (s == t) = (Text.Utf8.order s t == .eq) := by
      rw [Bool.eq_iff_iff, beq_iff_eq, beq_iff_eq, Text.Utf8.order_eq_compare,
        Std.LawfulEqCmp.compare_eq_iff_eq]
      exact Text.Utf8.codePoints_injective.eq_iff.symm
    rw [order?, equal?, compare, hsame, Text.Utf8.order_eq_compare]
    exact ⟨rfl, rfl⟩
  | bools a b => cases a <;> cases b <;> exact ⟨rfl, rfl⟩

theorem symm (h : l.Comparable r) : r.Comparable l := by
  cases h with
  | numbers hx hy => exact .numbers hy hx
  | strings s t => exact .strings t s
  | bools a b => exact .bools b a

theorem trans (h : l.Comparable r) (h' : r.Comparable t) : l.Comparable t := by
  cases h with
  | numbers hx hy => cases h' with | numbers _ hz => exact .numbers hx hz
  | strings s u => cases h' with | strings _ v => exact .strings s v
  | bools a b => cases h' with | bools _ c => exact .bools a c

theorem compare_swap (h : l.Comparable r) : compare r l = (compare l r).swap := by
  cases h with
  | numbers hx hy =>
    rw [compare, compare]
    exact Std.OrientedCmp.eq_swap
  | strings s t =>
    rw [compare, compare]
    exact Std.OrientedCmp.eq_swap
  | bools a b => cases a <;> cases b <;> rfl

theorem compare_trans (h : l.Comparable r) (h' : r.Comparable t) (hlt : compare l r = .lt)
    (hlt' : compare r t = .lt) : compare l t = .lt := by
  cases h with
  | numbers hx hy =>
    cases h' with | numbers _ hz =>
    rw [compare] at hlt hlt' ⊢
    exact Std.TransCmp.lt_trans hlt hlt'
  | strings s u =>
    cases h' with | strings _ v =>
    rw [compare] at hlt hlt' ⊢
    exact Std.TransCmp.lt_trans hlt hlt'
  | bools a b =>
    cases h' with | bools _ c =>
    -- Nothing comes before false and nothing comes after true.
    revert hlt hlt'
    cases a <;> cases b <;> cases c <;> decide

end Comparable

/-! ## The six comparisons -/

/-- The six operators compare the two values by one order. -/
structure Ordered (l r : Value) : Prop where
  /-- Of `<`, `==` and `>` one is true and the other two are false. -/
  trichotomy :
    ((order .less).Yields l r true ∧ equal.Yields l r false ∧ (order .greater).Yields l r false) ∨
    ((order .less).Yields l r false ∧ equal.Yields l r true ∧ (order .greater).Yields l r false) ∨
    ((order .less).Yields l r false ∧ equal.Yields l r false ∧ (order .greater).Yields l r true)
  /-- Each of the six has one truth value. -/
  decided : ∀ op ∈ comparisons, ∃! b, op.Yields l r b
  lessEqual_iff : (order .lessEqual).Yields l r true ↔
    (order .less).Yields l r true ∨ equal.Yields l r true
  greaterEqual_iff : (order .greaterEqual).Yields l r true ↔
    (order .greater).Yields l r true ∨ equal.Yields l r true
  less_iff : (order .less).Yields l r true ↔ (order .greater).Yields r l true
  notEqual_iff : ∀ b, notEqual.Yields l r b ↔ equal.Yields l r (!b)

theorem Comparable.ordered {l r : Value} (h : l.Comparable r) : Ordered l r := by
  obtain ⟨horder, hequal⟩ := h.order_eq
  obtain ⟨horder', -⟩ := h.symm.order_eq
  rw [h.compare_swap] at horder'
  generalize compare l r = o at *
  refine ⟨?_, ?_, ?_, ?_, ?_, ?_⟩
  · simp only [order_yields_iff horder, equal_yields_iff hequal]
    cases o <;> simp [OrderOp.accepts]
  · refine forall_comparisons (fun op => ?_) ?_ ?_
    · simp only [order_yields_iff horder, existsUnique_eq']
    · simp only [equal_yields_iff hequal, existsUnique_eq']
    · simp only [notEqual_yields_iff hequal, existsUnique_eq']
  · simp only [order_yields_iff horder, equal_yields_iff hequal]
    cases o <;> simp [OrderOp.accepts]
  · simp only [order_yields_iff horder, equal_yields_iff hequal]
    cases o <;> simp [OrderOp.accepts]
  · simp only [order_yields_iff horder, order_yields_iff horder']
    cases o <;> simp [OrderOp.accepts]
  · intro b
    simp only [equal_yields_iff hequal, notEqual_yields_iff hequal]
    cases o <;> cases b <;> simp

theorem Comparable.less_iff {l r : Value} (h : l.Comparable r) :
    (order .less).Yields l r true ↔ compare l r = .lt := by
  rw [order_yields_iff h.order_eq.1]
  exact beq_iff_eq

/-- What the six comparisons make of two values, and of a third one behind them. -/
structure LawfulComparisons (l r : Value) : Prop where
  ordered : l.Comparable r → Ordered l r
  trans : ∀ t, l.Comparable r → r.Comparable t → (order .less).Yields l r true →
    (order .less).Yields r t true → (order .less).Yields l t true
  /-- The order of texts is the lexicographic order of their code points. -/
  codePoints : ∀ s t, l = string s → r = string t →
    ((order .less).Yields l r true ↔ Text.codePoints s < Text.codePoints t)
  /-- With NaN every comparison is false, but for `!=`. -/
  undefined : ∀ x y, l = number x → r = number y → x.isNaN = true ∨ y.isNaN = true →
    ∀ op ∈ comparisons, op.Yields l r (op == notEqual)
  /-- Values of two kinds are not compared. -/
  mixed : l.kind ≠ r.kind → ∀ op ∈ comparisons, op.Rejects l r
  /-- Values of a kind without an order can be the same or not. -/
  unordered : l.kind = r.kind → l.kind ∈ [Kind.nil, .function, .native] →
    (∀ op, (order op).Rejects l r) ∧ ∃ same, equal.Yields l r same ∧ notEqual.Yields l r (!same)

theorem order?_eq_none_of_kind_ne {l r : Value} (h : l.kind ≠ r.kind) :
    order? l r = none ∧ equal? l r = none := by
  cases l <;> cases r
  case number.number | string.string | bool.bool | nil.nil | function.function | native.native =>
    exact absurd rfl h
  all_goals exact ⟨rfl, rfl⟩

/-- The six comparisons of the language are one order on numbers, texts and truth values, leave NaN
outside, and reject values of two kinds; of other values they tell the same from different ones. -/
theorem lawful_comparisons (l r : Value) : LawfulComparisons l r where
  ordered h := h.ordered
  trans t h h' hlt hlt' := by
    rw [h.less_iff] at hlt
    rw [h'.less_iff] at hlt'
    exact (h.trans h').less_iff.mpr (h.compare_trans h' hlt hlt')
  codePoints := by
    rintro s t rfl rfl
    rw [(Comparable.strings s t).less_iff, compare, Text.Utf8.compare_eq_lt_iff]
  undefined := by
    rintro x y rfl rfl hnan
    have horder : order? (number x) (number y) = some none := by
      rw [order?, Number.order?_eq_none hnan]
    have hequal : equal? (number x) (number y) = some false := by
      rw [equal?, Number.beq_eq_false hnan]
    exact forall_comparisons (fun op => (order_yields_iff horder op).mpr rfl)
      ((equal_yields_iff hequal).mpr rfl) ((notEqual_yields_iff hequal).mpr rfl)
  mixed h op hop := by
    obtain ⟨horder, hequal⟩ := order?_eq_none_of_kind_ne h
    refine rejects_of_eq_none hop ?_
    revert op
    refine forall_comparisons (fun op => ?_) ?_ ?_
    · rw [result_order, horder]
      rfl
    · rw [result_equal, hequal]
      rfl
    · rw [result_notEqual, hequal]
      rfl
  unordered hkind hmem := by
    have hnone : order? l r = none := by
      cases l <;> simp [kind] at hmem <;> rfl
    obtain ⟨same, hsame⟩ : ∃ same, equal? l r = some same := by
      cases l <;> cases r <;> cases hkind <;> exact ⟨_, rfl⟩
    refine ⟨fun op => rejects_of_eq_none (order_mem_comparisons op) ?_, same,
      (equal_yields_iff hsame).mpr rfl, (notEqual_yields_iff hsame).mpr rfl⟩
    rw [result_order, hnone]
    rfl

/-- A code point of three bytes comes before one of four. -/
example : BinaryOp.evaluate 1 (.order .less) (.string "\uffff") (.string "😀") =
    .ok (.bool true) := by rfl

end Value

end Lox

import Lox.Value.Operation

/-!
# Comparing numbers

Two doubles that are not NaN are compared by their signs and magnitudes, and this is a total order
in which the two zeros are equal (`Number.order?_eq_some`).  A double is unpacked into a grade,
which tells the infinities, the signs and zero apart, and an exponent and a mantissa with the sign
of the number; of these three the first that differs decides.
-/

namespace Lox.Number

open Float.Model (UnpackedFloat)

/-! ## Unpacked numbers -/

/-- A number with more of a grade is larger, whatever else it has. -/
def grade : UnpackedFloat → Int
  | .infinity .negative => -2
  | .finite .negative .. => -1
  | .finite .positive .. => 1
  | .infinity .positive => 2
  | .zero _ | .notANumber => 0

/-- The exponent, which counts the other way round below zero. -/
def scale : UnpackedFloat → Int
  | .finite .negative _ e _ => -e
  | .finite .positive _ e _ => e
  | _ => 0

/-- The mantissa, with the sign of the number. -/
def part : UnpackedFloat → Int
  | .finite .negative m _ _ => -m
  | .finite .positive m _ _ => m
  | _ => 0

/-- Numbers are compared by grade, exponent and mantissa. -/
def compareUnpacked : UnpackedFloat → UnpackedFloat → Ordering :=
  compareLex (compareOn grade) (compareLex (compareOn scale) (compareOn part))

instance : Std.TransCmp compareUnpacked :=
  inferInstanceAs (Std.TransCmp
    (compareLex (compareOn grade) (compareLex (compareOn scale) (compareOn part))))

theorem compare_neg (a b : Int) : compare (-a) (-b) = (compare a b).swap := by
  rw [← Std.OrientedOrd.eq_swap]
  rcases Int.lt_trichotomy b a with hlt | rfl | hgt
  · rw [Int.compare_eq_lt.mpr hlt, Int.compare_eq_lt.mpr (by omega)]
  · rw [Std.ReflOrd.compare_self, Std.ReflOrd.compare_self]
  · rw [Int.compare_eq_gt.mpr hgt, Int.compare_eq_gt.mpr (by omega)]

theorem compare_cast (m n : Nat) : compare (m : Int) (n : Int) = compare m n := by
  rcases Nat.lt_trichotomy m n with hlt | rfl | hgt
  · rw [Nat.compare_eq_lt.mpr hlt, Int.compare_eq_lt.mpr (by omega)]
  · rw [Std.ReflOrd.compare_self, Std.ReflOrd.compare_self]
  · rw [Nat.compare_eq_gt.mpr hgt, Int.compare_eq_gt.mpr (by omega)]

theorem compareUnpacked_positive {m n : Nat} {e f : Int} (hm : 0 < m) (hn : 0 < n) :
    compareUnpacked (.finite .positive m e hm) (.finite .positive n f hn) =
      (Ord.compare e f).then (Ord.compare m n) := by
  rw [← compare_cast]
  rfl

/-- Below zero the larger magnitude is the smaller number. -/
theorem compareUnpacked_negative {m n : Nat} {e f : Int} (hm : 0 < m) (hn : 0 < n) :
    compareUnpacked (.finite .negative m e hm) (.finite .negative n f hn) =
      ((Ord.compare e f).then (Ord.compare m n)).swap := by
  rw [Ordering.swap_then, ← compare_cast, ← compare_neg, ← compare_neg]
  rfl

theorem compare_unpacked {x y : UnpackedFloat} (hx : x.isNaN = false) (hy : y.isNaN = false) :
    x.compare y = some (compareUnpacked x y) := by
  obtain ⟨_ | _⟩ | _ | ⟨s⟩ | ⟨_ | _, m, e, hm⟩ := x
  case notANumber => cases hx
  all_goals obtain ⟨_ | _⟩ | _ | ⟨t⟩ | ⟨_ | _, n, f, hn⟩ := y
  case finite.negative.finite.negative => rw [compareUnpacked_negative]; rfl
  case finite.positive.finite.positive => rw [compareUnpacked_positive]; rfl
  case infinity.negative.notANumber | infinity.positive.notANumber | zero.notANumber |
    finite.negative.notANumber | finite.positive.notANumber => cases hy
  all_goals rfl

theorem compare_of_isNaN {x y : UnpackedFloat} (h : (x.isNaN || y.isNaN) = true) :
    x.compare y = none := by
  rcases Bool.or_eq_true_iff.mp h with hx | hy
  · cases x with
    | notANumber => rfl
    | _ => cases hx
  · cases y with
    | notANumber => cases x <;> rfl
    | _ => cases hy

/-! ## Numbers -/

/-- The order of two numbers, neither of which is NaN. -/
def compare (x y : Float) : Ordering :=
  compareUnpacked x.toModel.unpack y.toModel.unpack

instance : Std.TransCmp compare where
  eq_swap {x y} := by
    rw [compare, compare]
    exact Std.OrientedCmp.eq_swap
  isLE_trans {x y z} hxy hyz := by
    rw [compare] at hxy hyz ⊢
    exact Std.TransCmp.isLE_trans hxy hyz

theorem lt_iff (x y : Float) :
    x < y ↔ x.toModel.unpack.compare y.toModel.unpack = some .lt := by
  change decide (x.toModel < y.toModel) = true ↔ _
  rw [decide_eq_true_iff]
  exact beq_iff_eq

theorem beq_eq (x y : Float) :
    (x == y) = (x.toModel.unpack.compare y.toModel.unpack == some .eq) := rfl

section Defined

variable {x y : Float} (hx : x.isNaN = false) (hy : y.isNaN = false)

include hx hy

/-- Numbers that are not NaN are equal if neither comes before the other. -/
theorem beq_eq_compare : (x == y) = (compare x y == .eq) := by
  rw [beq_eq, compare_unpacked hx hy, compare]
  rfl

theorem lt_iff_compare : x < y ↔ compare x y = .lt := by
  rw [lt_iff, compare_unpacked hx hy, Option.some.injEq, compare]

theorem gt_iff_compare : y < x ↔ compare x y = .gt := by
  rw [lt_iff, compare_unpacked hy hx, Option.some.injEq, Std.OrientedCmp.gt_iff_lt, compare]

/-- They are in the order that `compare` finds. -/
theorem order?_eq_some : order? x y = some (compare x y) := by
  rw [order?]
  simp only [lt_iff_compare hx hy, gt_iff_compare hx hy, beq_eq_compare hx hy]
  cases compare x y <;> rfl

end Defined

section Undefined

variable {x y : Float} (h : x.isNaN = true ∨ y.isNaN = true)

include h

theorem beq_eq_false : (x == y) = false := by
  rw [beq_eq, compare_of_isNaN (Bool.or_eq_true_iff.mpr h)]
  rfl

theorem not_lt : ¬ x < y := by
  rw [lt_iff, compare_of_isNaN (Bool.or_eq_true_iff.mpr h)]
  exact nofun

/-- NaN is in no order with any number. -/
theorem order?_eq_none : order? x y = none := by
  have heq : ¬ (x == y) = true := by
    rw [beq_eq_false h]
    exact Bool.false_ne_true
  rw [order?, if_neg (not_lt h), if_neg (not_lt h.symm), if_neg heq]

end Undefined

/-- The order of two numbers, NaN among them, tells at most one of `<`, `>` and `==`. -/
theorem order?_eq_some_iff (x y : Float) :
    (order? x y = some .lt ↔ x < y) ∧ (order? x y = some .gt ↔ y < x) ∧
      (order? x y = some .eq ↔ (x == y) = true) := by
  by_cases h : x.isNaN = true ∨ y.isNaN = true
  · rw [order?_eq_none h, beq_eq_false h]
    exact ⟨iff_of_false nofun (not_lt h), iff_of_false nofun (not_lt h.symm),
      iff_of_false nofun Bool.false_ne_true⟩
  · rw [not_or, Bool.not_eq_true, Bool.not_eq_true] at h
    obtain ⟨hx, hy⟩ := h
    rw [order?_eq_some hx hy, lt_iff_compare hx hy, gt_iff_compare hx hy, beq_eq_compare hx hy,
      beq_iff_eq]
    exact ⟨Option.some_inj, Option.some_inj, Option.some_inj⟩

end Lox.Number

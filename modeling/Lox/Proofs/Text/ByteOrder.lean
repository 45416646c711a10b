import Lox.Text.Utf8

/-!
# The byte order

Texts are compared byte by byte, and a proper initial part comes first.  This is the lexicographic
order on lists of bytes (`orderBytes_eq_compare`), so any two texts can be compared and the order
is transitive.
-/

namespace Lox.Text.Utf8

theorem orderBytes_eq_compare (as bs : List UInt8) : orderBytes as bs = compare as bs := by
  induction as generalizing bs with
  | nil => cases bs <;> rfl
  | cons a as ih =>
    cases bs with
    | nil => rfl
    | cons b bs =>
      rw [orderBytes, List.compare_cons_cons, ih]
      by_cases hlt : a < b
      · rw [if_pos hlt, Std.compare_eq_lt.mpr hlt, Ordering.lt_then]
      · rw [if_neg hlt]
        by_cases hgt : b < a
        · rw [if_pos hgt, Std.compare_eq_gt.mpr hgt, Ordering.gt_then]
        · have heq : a = b := UInt8.le_antisymm (UInt8.not_lt.mp hgt) (UInt8.not_lt.mp hlt)
          rw [if_neg hgt, heq, Std.ReflOrd.compare_self, Ordering.eq_then]

theorem le_eq_isLE (s t : String) : le s t = (compare (bytes s) (bytes t)).isLE := by
  rw [le, order, orderBytes_eq_compare]
  cases compare (bytes s) (bytes t) <;> rfl

theorem le_trans {s t u : String} (hst : le s t = true) (htu : le t u = true) : le s u = true := by
  rw [le_eq_isLE] at hst htu ⊢
  exact Std.TransOrd.isLE_trans hst htu

theorem le_total (s t : String) : (le s t || le t s) = true := by
  rw [le_eq_isLE, le_eq_isLE, Std.OrientedOrd.eq_swap (a := bytes t)]
  cases compare (bytes s) (bytes t) <;> rfl

end Lox.Text.Utf8

import Lox.Proofs.Text.ByteOrder
import Mathlib.Algebra.Group.Nat.Defs

/-!
# Code points and bytes

Texts are compared by the bytes of their encodings, and this is the lexicographic order of their
code points (`Text.Utf8.order_eq_compare`).  A smaller code point has the smaller encoding, and the
two differ before either of them ends: the first byte tells how many follow, and what is left of the
code point follows digit by digit.
-/

namespace Lox.Text

/-- The code points of a text. -/
def codePoints (s : String) : List Nat := s.toList.map Char.toNat

namespace Utf8

/-! ## Bytes that decide the order -/

/-- The bytes come before the others, whatever stands behind the ones and the others. -/
def Before (as bs : List UInt8) : Prop :=
  ∀ xs ys, orderBytes (as ++ xs) (bs ++ ys) = .lt

theorem before_of_toNat_lt {a b : UInt8} (h : a.toNat < b.toNat) (as bs : List UInt8) :
    Before (a :: as) (b :: bs) := by
  intro xs ys
  rw [List.cons_append, List.cons_append, orderBytes, if_pos (UInt8.lt_iff_toNat_lt.mpr h)]

theorem orderBytes_cons (a : UInt8) (as bs : List UInt8) :
    orderBytes (a :: as) (a :: bs) = orderBytes as bs := by
  rw [orderBytes, if_neg (UInt8.lt_irrefl a), if_neg (UInt8.lt_irrefl a)]

theorem Before.cons {as bs : List UInt8} (h : Before as bs) (a : UInt8) :
    Before (a :: as) (a :: bs) := by
  intro xs ys
  rw [List.cons_append, List.cons_append, orderBytes_cons, h]

theorem orderBytes_append_left (as xs ys : List UInt8) :
    orderBytes (as ++ xs) (as ++ ys) = orderBytes xs ys := by
  induction as with
  | nil => rfl
  | cons a as ih => rw [List.cons_append, List.cons_append, orderBytes_cons, ih]

theorem orderBytes_swap (as bs : List UInt8) : orderBytes as bs = (orderBytes bs as).swap := by
  rw [orderBytes_eq_compare, orderBytes_eq_compare, Std.OrientedOrd.eq_swap]

/-! ## The encoding of a code point -/

/-- The last `n` digits of a number to the base of 64, one in each byte. -/
def digits (v : Nat) : Nat → List UInt8
  | 0 => []
  | n + 1 => UInt8.ofNat (v / 64 ^ n % 64 + 0x80) :: digits v n

/-- The number of bytes behind the first one. -/
def extra (v : Nat) : Nat :=
  if v ≤ 0x7f then 0 else if v ≤ 0x7ff then 1 else if v ≤ 0xffff then 2 else 3

/-- The mark on the first byte when so many follow. -/
def mark : Nat → Nat
  | 0 => 0
  | 1 => 0xc0
  | 2 => 0xe0
  | _ => 0xf0

/-- The first byte: the mark, and what the digits in the other bytes leave of the code point. -/
def lead (v : Nat) : Nat := v / 64 ^ extra v + mark (extra v)

theorem toNat_lt_max (c : Char) : c.toNat < 0x110000 :=
  c.valid.elim (fun h => Nat.lt_trans h (by decide)) And.right

theorem utf8EncodeChar_eq (c : Char) :
    String.utf8EncodeChar c = UInt8.ofNat (lead c.toNat) :: digits c.toNat (extra c.toNat) := by
  have hmax := toNat_lt_max c
  have hval : c.val.toNat = c.toNat := rfl
  simp only [String.utf8EncodeChar, lead, extra, hval]
  split
  · simp [digits, mark]
  · split
    · have hlead : c.toNat / 64 % 0x20 = c.toNat / 64 := Nat.mod_eq_of_lt (by omega)
      simp [digits, mark, hlead]
    · split
      · have hlead : c.toNat / 4096 % 0x10 = c.toNat / 4096 := Nat.mod_eq_of_lt (by omega)
        simp [digits, mark, hlead]
      · have hlead : c.toNat / 262144 % 8 = c.toNat / 262144 := Nat.mod_eq_of_lt (by omega)
        simp [digits, mark, hlead]

theorem before_digits {v w n : Nat} (h : v % 64 ^ n < w % 64 ^ n) :
    Before (digits v n) (digits w n) := by
  induction n with
  | zero => simp [Nat.mod_one] at h
  | succ n ih =>
    rw [Nat.mod_pow_succ, Nat.mod_pow_succ] at h
    have hv : v / 64 ^ n % 64 < 64 := Nat.mod_lt _ (by decide)
    have hw : w / 64 ^ n % 64 < 64 := Nat.mod_lt _ (by decide)
    have hlast : w % 64 ^ n < 64 ^ n := Nat.mod_lt _ (Nat.pow_pos (by decide))
    rcases Nat.lt_trichotomy (v / 64 ^ n % 64) (w / 64 ^ n % 64) with hlt | heq | hgt
    · refine before_of_toNat_lt ?_ _ _
      simp only [UInt8.toNat_ofNat']
      omega
    · rw [digits, digits, heq]
      rw [heq] at h
      exact (ih (Nat.lt_of_add_lt_add_right h)).cons _
    · -- The digit in front weighs more than all digits behind it.
      have hmore := Nat.mul_le_mul_left (64 ^ n) hgt
      rw [Nat.mul_succ] at hmore
      omega

/-- A first byte with its mark lies in a range of its own. -/
theorem lead_cases {v : Nat} (hv : v < 0x110000) :
    (v ≤ 0x7f ∧ extra v = 0 ∧ lead v ≤ 0x7f) ∨
    (0x7f < v ∧ v ≤ 0x7ff ∧ extra v = 1 ∧ 0xc0 ≤ lead v ∧ lead v < 0xe0) ∨
    (0x7ff < v ∧ v ≤ 0xffff ∧ extra v = 2 ∧ 0xe0 ≤ lead v ∧ lead v < 0xf0) ∨
    (0xffff < v ∧ extra v = 3 ∧ 0xf0 ≤ lead v ∧ lead v < 0xf8) := by
  simp only [lead, extra]
  repeat' split
  all_goals simp only [mark, Nat.reducePow, true_and]; omega

theorem lead_lt {v : Nat} (hv : v < 0x110000) : lead v < 256 := by
  have hcases := lead_cases hv
  omega

/-- The longer of two encodings has the larger mark. -/
theorem lead_lt_lead {v w : Nat} (hw : w < 0x110000) (h : v < w) (hne : extra v ≠ extra w) :
    lead v < lead w := by
  have hv := lead_cases (Nat.lt_trans h hw)
  have hw := lead_cases hw
  omega

/-- A smaller code point has the smaller encoding. -/
theorem before_utf8EncodeChar {c d : Char} (h : c.toNat < d.toNat) :
    Before (String.utf8EncodeChar c) (String.utf8EncodeChar d) := by
  have hfirst : lead c.toNat < lead d.toNat → Before (String.utf8EncodeChar c)
      (String.utf8EncodeChar d) := by
    intro hlt
    have hc := lead_lt (toNat_lt_max c)
    have hd := lead_lt (toNat_lt_max d)
    rw [utf8EncodeChar_eq, utf8EncodeChar_eq]
    refine before_of_toNat_lt ?_ _ _
    rwa [UInt8.toNat_ofNat_of_lt' hc, UInt8.toNat_ofNat_of_lt' hd]
  by_cases hextra : extra c.toNat = extra d.toNat
  · rcases Nat.lt_or_eq_of_le (Nat.div_le_div_right (c := 64 ^ extra d.toNat) (Nat.le_of_lt h)) with
      hlt | heq
    · refine hfirst ?_
      rw [lead, lead, hextra]
      exact Nat.add_lt_add_right hlt _
    · -- The first bytes agree, so the digits do not.
      rw [utf8EncodeChar_eq, utf8EncodeChar_eq, lead, lead, hextra, heq]
      refine (before_digits ?_).cons _
      have hc := Nat.div_add_mod c.toNat (64 ^ extra d.toNat)
      have hd := Nat.div_add_mod d.toNat (64 ^ extra d.toNat)
      rw [heq] at hc
      omega
  · exact hfirst (lead_lt_lead (toNat_lt_max d) h hextra)

/-! ## Texts -/

/-- The byte order on texts is the lexicographic order of their code points. -/
theorem order_eq_compare (s t : String) : order s t = compare (codePoints s) (codePoints t) := by
  rw [order, bytes, bytes, codePoints, codePoints]
  generalize s.toList = cs
  generalize t.toList = ds
  induction cs generalizing ds with
  | nil =>
    cases ds with
    | nil => rfl
    | cons d ds =>
      obtain ⟨b, bs, hbytes⟩ := List.exists_cons_of_ne_nil (String.utf8EncodeChar_ne_nil (c := d))
      rw [List.flatMap_cons, hbytes]
      rfl
  | cons c cs ih =>
    cases ds with
    | nil =>
      obtain ⟨b, bs, hbytes⟩ := List.exists_cons_of_ne_nil (String.utf8EncodeChar_ne_nil (c := c))
      rw [List.flatMap_cons, hbytes]
      rfl
    | cons d ds =>
      rw [List.flatMap_cons, List.flatMap_cons, List.map_cons, List.map_cons,
        List.compare_cons_cons]
      rcases Nat.lt_trichotomy c.toNat d.toNat with hlt | heq | hgt
      · rw [before_utf8EncodeChar hlt, Nat.compare_eq_lt.mpr hlt, Ordering.lt_then]
      · rw [Char.toNat_inj.mp heq, orderBytes_append_left, ih, Std.ReflOrd.compare_self,
          Ordering.eq_then]
      · rw [orderBytes_swap, before_utf8EncodeChar hgt, Nat.compare_eq_gt.mpr hgt,
          Ordering.gt_then]
        rfl

theorem compare_eq_lt_iff (xs ys : List Nat) : compare xs ys = .lt ↔ xs < ys := by
  induction xs generalizing ys with
  | nil => cases ys <;> simp
  | cons x xs ih =>
    cases ys with
    | nil => simp
    | cons y ys =>
      rw [List.compare_cons_cons, List.cons_lt_cons_iff, Ordering.then_eq_lt, ih,
        Nat.compare_eq_lt, Nat.compare_eq_eq]

theorem codePoints_injective : Function.Injective codePoints := by
  intro s t h
  have hchars := (List.map_inj_right fun _ _ => Char.toNat_inj.mp).mp h
  exact String.toList_inj.mp hchars

end Utf8

end Lox.Text

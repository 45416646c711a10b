import Lox.Number.Double
import Mathlib.Data.Int.Log
import Mathlib.Data.Rat.Floor

/-!
# The double nearest to a fraction

A fraction that is a double is nearest to itself: rounding gives back the bit pattern that the
magnitude was read off (`nearestBits_ofBits`).  Fractions are compared with powers of two as
rational numbers, where `floorLog2` is the logarithm.
-/

namespace Lox.Number

/-! ## Powers of two -/

/-- A power of two as a fraction of natural numbers. -/
theorem zpow_eq_div {b : ℚ} (hb : b ≠ 0) (e : ℤ) :
    b ^ e = b ^ e.toNat / b ^ (-e).toNat := by
  rw [← zpow_natCast, ← zpow_natCast, ← zpow_sub₀ hb]
  congr 1
  omega

/-- A fraction is at least a power of two exactly if it is so with the denominators cleared. -/
theorem zpow_le_div_iff {num den : ℕ} (hden : 0 < den) (k : ℤ) :
    (2 : ℚ) ^ k ≤ num / den ↔ den * 2 ^ k.toNat ≤ num * 2 ^ (-k).toNat := by
  have hd : (0 : ℚ) < den := Nat.cast_pos.mpr hden
  have hp : (0 : ℚ) < 2 ^ (-k).toNat := pow_pos two_pos _
  rw [zpow_eq_div two_ne_zero, div_le_div_iff₀ hp hd, mul_comm, ← Nat.cast_le (α := ℚ)]
  push_cast
  rfl

/-- The logarithms of the numerator and the denominator give that of the fraction but for one. -/
theorem log2_div_bounds {num den : ℕ} (hnum : num ≠ 0) (hden : den ≠ 0) :
    (2 : ℚ) ^ ((num.log2 : ℤ) - den.log2 - 1) ≤ num / den ∧
      (num : ℚ) / den < 2 ^ ((num.log2 : ℤ) - den.log2 + 1) := by
  have hnum_le : (2 : ℚ) ^ num.log2 ≤ num := mod_cast Nat.log2_self_le hnum
  have hnum_lt : (num : ℚ) < 2 ^ (num.log2 + 1) := mod_cast Nat.lt_log2_self
  have hden_le : (2 : ℚ) ^ den.log2 ≤ den := mod_cast Nat.log2_self_le hden
  have hden_lt : (den : ℚ) < 2 ^ (den.log2 + 1) := mod_cast Nat.lt_log2_self
  have hpos : (0 : ℚ) < den := mod_cast Nat.pos_of_ne_zero hden
  have hlow : (num.log2 : ℤ) - den.log2 - 1 = (num.log2 : ℤ) - (den.log2 + 1 : ℕ) := by omega
  have hhigh : (num.log2 : ℤ) - den.log2 + 1 = (num.log2 + 1 : ℕ) - (den.log2 : ℤ) := by omega
  rw [hlow, hhigh, zpow_sub₀ two_ne_zero, zpow_sub₀ two_ne_zero]
  simp only [zpow_natCast]
  exact ⟨div_le_div₀ num.cast_nonneg hnum_le hpos hden_lt.le,
    div_lt_div₀ hnum_lt hden_le (pow_pos two_pos _).le (pow_pos two_pos _)⟩

theorem floorLog2_eq_log {num den : ℕ} (hnum : num ≠ 0) (hden : den ≠ 0) :
    floorLog2 num den = Int.log 2 ((num : ℚ) / den) := by
  have hr : (0 : ℚ) < num / den :=
    div_pos (mod_cast Nat.pos_of_ne_zero hnum) (mod_cast Nat.pos_of_ne_zero hden)
  have hzpow {k : ℤ} : (2 : ℚ) ^ k ≤ num / den ↔ k ≤ Int.log 2 ((num : ℚ) / den) := by
    exact_mod_cast Int.zpow_le_iff_le_log (b := 2) one_lt_two hr
  obtain ⟨hlow, hhigh⟩ := log2_div_bounds hnum hden
  rw [hzpow] at hlow
  rw [← not_le, hzpow] at hhigh
  show (if den * 2 ^ _ ≤ num * 2 ^ _ then _ else _) = _
  split
  · rename_i hle
    rw [← zpow_le_div_iff (Nat.pos_of_ne_zero hden), hzpow] at hle
    omega
  · rename_i hle
    rw [← zpow_le_div_iff (Nat.pos_of_ne_zero hden), hzpow] at hle
    omega

/-! ## Rounding -/

theorem roundHalfEven_mul (m : ℕ) {den : ℕ} (hden : den ≠ 0) : roundHalfEven (m * den) den = m := by
  have hpos := Nat.pos_of_ne_zero hden
  rw [roundHalfEven, Nat.mul_div_cancel m hpos, Nat.mul_mod_left, Nat.mul_zero, if_pos hpos]

/-- The magnitude is the way in which a double is written: the mantissa has as many bits as fit, or
the exponent is the least one. -/
structure Magnitude.Normal (x : Magnitude) : Prop where
  mantissa_lt : x.mantissa < 2 ^ 53
  le_exponent : leastExponent ≤ x.exponent
  full : 2 ^ 52 ≤ x.mantissa ∨ x.exponent = leastExponent

namespace Magnitude

/-- The number that a magnitude stands for. -/
def value (x : Magnitude) : ℚ := x.mantissa * 2 ^ x.exponent

theorem log_value_lt {x : Magnitude} (hm : x.mantissa ≠ 0) (h : x.mantissa < 2 ^ 53) :
    Int.log 2 x.value < x.exponent + 53 := by
  have hpos : 0 < x.value :=
    mul_pos (mod_cast Nat.pos_of_ne_zero hm) (zpow_pos two_pos _)
  refine (Int.lt_zpow_iff_log_lt one_lt_two hpos).mp ?_
  have hlt : (x.mantissa : ℚ) < 2 ^ 53 := mod_cast h
  calc x.value < 2 ^ 53 * 2 ^ x.exponent := mul_lt_mul_of_pos_right hlt (zpow_pos two_pos _)
    _ = ((2 : ℕ) : ℚ) ^ (x.exponent + 53) := by
      rw [Nat.cast_two, zpow_add₀ two_ne_zero, mul_comm]
      rfl

theorem le_log_value {x : Magnitude} (h : 2 ^ 52 ≤ x.mantissa) :
    x.exponent + 52 ≤ Int.log 2 x.value := by
  have hle : (2 : ℚ) ^ 52 ≤ x.mantissa := mod_cast h
  have hpos : 0 < x.value := mul_pos (lt_of_lt_of_le (pow_pos two_pos _) hle) (zpow_pos two_pos _)
  refine (Int.zpow_le_iff_le_log one_lt_two hpos).mp ?_
  calc ((2 : ℕ) : ℚ) ^ (x.exponent + 52) = 2 ^ 52 * 2 ^ x.exponent := by
        rw [Nat.cast_two, zpow_add₀ two_ne_zero, mul_comm]
        rfl
    _ ≤ x.value := mul_le_mul_of_nonneg_right hle (zpow_pos two_pos _).le

end Magnitude

/-- A fraction that is a double has the bit pattern of that double. -/
theorem nearestBits_of_normal {x : Magnitude} (hx : x.Normal) (hm : x.mantissa ≠ 0) {num den : ℕ}
    (hden : den ≠ 0) (hvalue : (num : ℚ) / den = x.value) :
    nearestBits num den = (x.exponent - leastExponent).toNat * 2 ^ 52 + x.mantissa := by
  have hcross : num * 2 ^ (-x.exponent).toNat = x.mantissa * (den * 2 ^ x.exponent.toNat) := by
    have hd : (den : ℚ) ≠ 0 := mod_cast hden
    rw [Magnitude.value, zpow_eq_div two_ne_zero, ← mul_div_assoc,
      div_eq_div_iff hd (pow_ne_zero _ two_ne_zero), mul_assoc, mul_comm _ (den : ℚ)] at hvalue
    exact_mod_cast hvalue
  have hscale : den * 2 ^ x.exponent.toNat ≠ 0 := Nat.mul_ne_zero hden (pow_ne_zero _ two_ne_zero)
  have hnum : num ≠ 0 := by
    rintro rfl
    rw [Nat.zero_mul] at hcross
    exact Nat.mul_ne_zero hm hscale hcross.symm
  have hexponent : max (floorLog2 num den - 52) leastExponent = x.exponent := by
    have hlt := Magnitude.log_value_lt hm hx.mantissa_lt
    have hle := hx.le_exponent
    rw [floorLog2_eq_log hnum hden, hvalue]
    obtain hfull | hleast := hx.full
    · have hlog := Magnitude.le_log_value hfull
      omega
    · omega
  simp only [nearestBits, hnum, hexponent, Nat.pow_eq, hcross, if_false]
  rw [roundHalfEven_mul _ hscale]

/-! ## Reading off and writing down -/

/-- A magnitude read off a bit pattern has no implicit bit, or one in front of the fraction. -/
theorem Magnitude.ofBits_cases {bits : ℕ} (h : bits < 2 ^ 63) :
    (bits < 2 ^ 52 ∧ ofBits bits = ⟨bits, leastExponent⟩) ∨
    ∃ field fraction, 0 < field ∧ fraction < 2 ^ 52 ∧ bits = field * 2 ^ 52 + fraction ∧
      ofBits bits = ⟨2 ^ 52 + fraction, leastExponent + field - 1⟩ := by
  have hfield : bits / 2 ^ 52 % 2 ^ 11 = bits / 2 ^ 52 := Nat.mod_eq_of_lt (by omega)
  have hlt : bits % 2 ^ 52 < 2 ^ 52 := Nat.mod_lt _ (by decide)
  simp only [ofBits, Nat.pow_eq, hfield]
  split
  · rename_i hzero
    have hsmall : bits < 2 ^ 52 := by omega
    exact .inl ⟨hsmall, by rw [Nat.mod_eq_of_lt hsmall]⟩
  · exact .inr ⟨bits / 2 ^ 52, bits % 2 ^ 52, by omega, hlt, by omega, rfl⟩

/-- A finite double has the bit pattern that its magnitude was read off. -/
theorem nearestBits_ofBits {bits : ℕ} (hbits : bits ≠ 0) (hfinite : bits < infinityBits)
    {num den : ℕ} (hden : den ≠ 0) (hvalue : (num : ℚ) / den = (Magnitude.ofBits bits).value) :
    nearestBits num den = bits := by
  have hsize : bits < 2 ^ 63 := Nat.lt_trans hfinite (by decide)
  obtain ⟨hlt, heq⟩ | ⟨field, fraction, hfield, hlt, rfl, heq⟩ := Magnitude.ofBits_cases hsize
  · have hnormal : (⟨bits, leastExponent⟩ : Magnitude).Normal :=
      ⟨Nat.lt_trans hlt (by decide), le_refl _, .inr rfl⟩
    rw [heq] at hvalue
    rw [nearestBits_of_normal hnormal hbits hden hvalue]
    simp
  · have hnormal : (⟨2 ^ 52 + fraction, leastExponent + field - 1⟩ : Magnitude).Normal :=
      ⟨by dsimp only; omega, by dsimp only; omega, .inl (Nat.le_add_right _ _)⟩
    have hm : 2 ^ 52 + fraction ≠ 0 := by omega
    have hfields : (leastExponent + field - 1 - leastExponent).toNat = field - 1 := by omega
    rw [heq] at hvalue
    rw [nearestBits_of_normal hnormal hm hden hvalue, hfields]
    show (field - 1) * 2 ^ 52 + (2 ^ 52 + fraction) = field * 2 ^ 52 + fraction
    omega

end Lox.Number

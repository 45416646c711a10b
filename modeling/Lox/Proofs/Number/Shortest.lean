import Lox.Number.Decimal
import Lox.Proofs.Number.Nearest

/-!
# The shortest decimal of a double

The decimal that is found for a finite double reads back as the same double
(`toBits_shortest`).  What is found on a grid does by construction, and if nothing is found, the
exact expansion is the number itself.
-/

namespace Lox.Number.Decimal

theorem toBits_of_onGrid? {x : Magnitude} {bits : Nat} {grid : Int} {d : Decimal}
    (h : onGrid? x bits grid = some d) : d.toBits = bits := by
  simp only [onGrid?] at h
  split at h
  all_goals rename_i hbelow habove
  · obtain rfl := Option.some.inj h
    split
    · exact beq_iff_eq.mp hbelow
    · exact beq_iff_eq.mp habove
  · obtain rfl := Option.some.inj h
    exact beq_iff_eq.mp hbelow
  · obtain rfl := Option.some.inj h
    exact beq_iff_eq.mp habove
  · cases h

theorem toBits_of_search? {x : Magnitude} {bits count : Nat} {grid : Int} {d : Decimal}
    (h : search? x bits count grid = some d) : d.toBits = bits := by
  fun_induction search? x bits count grid with
  | case1 grid => exact toBits_of_onGrid? h
  | case2 count grid d' hgrid =>
    obtain rfl := Option.some.inj h
    exact toBits_of_onGrid? hgrid
  | case3 count grid hgrid ih => exact ih h

/-- The exact expansion of a magnitude is the number itself. -/
theorem value_exact (x : Magnitude) : ((exact x).num : ℚ) / (exact x).den = x.value := by
  have hmin : (min x.exponent 0).toNat = 0 := by omega
  have hneg : (-min x.exponent 0).toNat = (-x.exponent).toNat := by omega
  have hten : (10 : ℚ) ^ (-x.exponent).toNat =
      2 ^ (-x.exponent).toNat * 5 ^ (-x.exponent).toNat := by
    rw [← mul_pow]
    norm_num
  have hfive : (5 : ℚ) ^ (-x.exponent).toNat ≠ 0 := pow_ne_zero _ (by norm_num)
  simp only [num, den, exact, hmin, hneg, Magnitude.num, Nat.pow_eq, Magnitude.value]
  rw [zpow_eq_div two_ne_zero]
  push_cast
  rw [mul_one, hten, mul_div_mul_right _ _ hfive, mul_div_assoc]

theorem toBits_exact {bits : Nat} (hbits : bits ≠ 0) (hfinite : bits < infinityBits) :
    (exact (.ofBits bits)).toBits = bits := by
  have hden : (exact (.ofBits bits)).den ≠ 0 := pow_ne_zero _ (by decide)
  exact nearestBits_ofBits hbits hfinite hden (value_exact _)

/-- The shortest decimal of a finite double reads back as that double. -/
theorem toBits_shortest {bits : Nat} (hbits : bits ≠ 0) (hfinite : bits < infinityBits) :
    (shortest bits).toBits = bits := by
  rw [shortest]
  generalize hsearch : search? _ _ _ _ = found
  cases found with
  | none => exact toBits_exact hbits hfinite
  | some d => exact toBits_of_search? hsearch

end Lox.Number.Decimal

import Lox.Proofs.Number.Text

/-!
# Signs

The sign of a number is a bit of its own, so a minus sign in front of a finite number changes this
bit and nothing else (`neg_ofSignAndBits`).  Zero has a sign too.  In a text the sign stands in
front of the text of the absolute value (`text_neg`).
-/

namespace Lox.Number

open Float.Model (Format UnpackedFloat)
open Float.Model.UnpackedFloat (unpackExponent unpackMantissa unpackSign unpack)

/-! ## Bit patterns that differ in their signs -/

variable {b c : BitVec 64}

theorem unpackExponent_eq (h : c.toNat = 2 ^ 63 + b.toNat) :
    @unpackExponent Format.binary64 c = @unpackExponent Format.binary64 b := by
  refine BitVec.eq_of_toNat_eq ?_
  simp only [unpackExponent, BitVec.toNat_cast, BitVec.extractLsb_toNat,
    Nat.shiftRight_eq_div_pow, h]
  show (2 ^ 63 + b.toNat) / 2 ^ 52 % 2 ^ 11 = b.toNat / 2 ^ 52 % 2 ^ 11
  omega

theorem unpackMantissa_eq (h : c.toNat = 2 ^ 63 + b.toNat) :
    @unpackMantissa Format.binary64 c = @unpackMantissa Format.binary64 b := by
  refine BitVec.eq_of_toNat_eq ?_
  simp only [unpackMantissa, BitVec.toNat_cast, BitVec.extractLsb_toNat,
    Nat.shiftRight_eq_div_pow, h]
  show (2 ^ 63 + b.toNat) / 2 ^ 0 % 2 ^ 52 = b.toNat / 2 ^ 0 % 2 ^ 52
  omega

theorem unpackSign_eq (h : c.toNat = 2 ^ 63 + b.toNat) :
    @unpackSign Format.binary64 c = 1#1 ∧ @unpackSign Format.binary64 b = 0#1 := by
  have hlt := c.isLt
  constructor
  all_goals
    refine BitVec.eq_of_toNat_eq ?_
    simp only [unpackSign, BitVec.toNat_cast, BitVec.extractLsb_toNat,
      Nat.shiftRight_eq_div_pow, h]
  · show (2 ^ 63 + b.toNat) / 2 ^ 63 % 2 ^ 1 = 1
    omega
  · show b.toNat / 2 ^ 63 % 2 ^ 1 = 0
    omega

/-- With the sign bit set, the bits are those of the negative number. -/
theorem unpack_eq_neg (h : c.toNat = 2 ^ 63 + b.toNat) :
    unpack Format.binary64 c = (unpack Format.binary64 b).neg := by
  obtain ⟨hc, hb⟩ := unpackSign_eq h
  unfold unpack
  simp only [hc, hb, unpackExponent_eq h, unpackMantissa_eq h]
  split
  · split <;> rfl
  · split
    · split <;> rfl
    · rfl

/-! ## Numbers -/

/-- A finite number with a minus sign. -/
theorem neg_ofSignAndBits {bits : Nat} (h : bits < infinityBits) :
    -ofSignAndBits false bits = ofSignAndBits true bits := by
  have hbits : bits < signBit := Nat.lt_trans h (by decide)
  have hlt : signBit + bits < 2 ^ 64 := by
    simp only [signBit, Nat.pow_eq] at hbits ⊢
    omega
  have hpositive : (UInt64.ofNat bits).toBitVec.toNat = bits := by
    rw [UInt64.toNat_toBitVec, UInt64.toNat_ofNat_of_lt' (Nat.lt_trans hbits (by decide))]
  have hnegative : (UInt64.ofNat (signBit + bits)).toBitVec.toNat =
      2 ^ 63 + (UInt64.ofNat bits).toBitVec.toNat := by
    rw [hpositive, UInt64.toNat_toBitVec, UInt64.toNat_ofNat_of_lt' hlt]
    rfl
  have hvalid : Format.binary64.Valid (UInt64.ofNat bits).toBitVec :=
    valid_of_lt (by rwa [hpositive, Nat.mod_eq_of_lt hbits])
  have hunpack : (Float.Model.ofBits (UInt64.ofNat bits)).unpack =
      unpack Format.binary64 (UInt64.ofNat bits).toBitVec :=
    congrArg (unpack Format.binary64) (UnpackedFloat.pack_unpack_of_valid hvalid)
  refine congrArg Float.ofModel ?_
  show Float.Model.pack (Float.Model.ofBits (UInt64.ofNat bits)).unpack.neg =
    Float.Model.pack (unpack Format.binary64 (UInt64.ofNat (signBit + bits)).toBitVec)
  rw [hunpack, unpack_eq_neg hnegative]

/-- A number is made of its sign and the bits of its absolute value. -/
theorem ofSignAndBits_absBits (x : Float) : ofSignAndBits (isNegative x) (absBits x) = x := by
  have hbits : (if isNegative x then signBit + absBits x else absBits x) = bitsOf x := by
    have hlt : bitsOf x < 2 ^ 64 := x.toBits.toNat_lt
    rw [isNegative, absBits, signBit, Nat.pow_eq]
    by_cases h : 2 ^ 63 ≤ bitsOf x
    · rw [decide_eq_true h, if_pos rfl]
      omega
    · rw [decide_eq_false h, if_neg Bool.false_ne_true]
      omega
  rw [ofSignAndBits, hbits, bitsOf, UInt64.ofNat_toNat, Float.ofBits_toBits]

/-- The text of a number below zero has the sign in front. -/
theorem text_neg {x : Float} (h : Written x) : text (-x) = "-" ++ text x := by
  obtain ⟨bits, hfinite, rfl⟩ := h
  rw [neg_ofSignAndBits hfinite]
  simp only [text, absBits_ofSignAndBits _ hfinite, isNegative_ofSignAndBits _ hfinite,
    Nat.not_lt_of_lt hfinite, Nat.ne_of_lt hfinite, if_false, if_true, Bool.false_eq_true,
    List.nil_append, String.ofList_append]
  split <;> rfl

/-- The exponent bits of a finite number are not all set. -/
theorem absBits_lt {x : Float} (h : x.isFinite = true) : absBits x < infinityBits := by
  by_contra hge
  have hexponent : @unpackExponent Format.binary64 x.toBits.toBitVec = -1#11 := by
    refine BitVec.eq_of_toNat_eq ?_
    simp only [unpackExponent, BitVec.toNat_cast, BitVec.extractLsb_toNat,
      Nat.shiftRight_eq_div_pow]
    show bitsOf x / 2 ^ 52 % 2 ^ 11 = 2047
    have hlt : bitsOf x < 2 ^ 64 := x.toBits.toNat_lt
    simp only [absBits, signBit, infinityBits, Nat.pow_eq] at hge
    omega
  have hinfinite : (unpack Format.binary64 x.toBits.toBitVec).isFinite = false := by
    unfold unpack
    dsimp only
    rw [if_pos hexponent]
    split <;> rfl
  exact Bool.false_ne_true (hinfinite.symm.trans h)
/-- A finite number can be written down, with a sign in front if it is below zero. -/
theorem written_or_neg {x : Float} (hfinite : x.isFinite = true) :
    Written x ∨ ∃ y, Written y ∧ x = -y := by
  have hx := ofSignAndBits_absBits x
  have h := absBits_lt hfinite
  cases hsign : isNegative x with
  | false =>
    rw [hsign] at hx
    exact .inl ⟨_, h, hx.symm⟩
  | true =>
    rw [hsign] at hx
    exact .inr ⟨_, ⟨_, h, rfl⟩, by rw [neg_ofSignAndBits h, hx]⟩

end Lox.Number

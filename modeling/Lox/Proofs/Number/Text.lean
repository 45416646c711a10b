import Lox.Proofs.Number.Plain
import Lox.Proofs.Number.Shortest
import Mathlib

/-!
# The text of a number reads back

The text of a number as a program can write it, finite and without a sign, is a plain numeral that
stands for that very number (`Written.plain`).  So different numbers have different texts
(`Written.text_injective`).
-/

namespace Lox.Number

/-! ## Bit patterns -/

open Float.Model (Format) in
/-- The exponent bits of a finite double are not all set, so it is no undefined number. -/
theorem valid_of_lt {b : BitVec 64} (h : b.toNat % signBit < infinityBits) :
    Format.binary64.Valid b := by
  refine ⟨fun hexponent _ => ?_⟩
  have hones : b.toNat / 2 ^ 52 % 2 ^ 11 = 2047 := by
    have hnat := congrArg BitVec.toNat hexponent
    simp only [Float.Model.UnpackedFloat.unpackExponent, BitVec.toNat_cast,
      BitVec.extractLsb_toNat, Nat.shiftRight_eq_div_pow] at hnat
    exact hnat
  simp only [signBit, infinityBits, Nat.pow_eq] at h
  omega

/-- The bit pattern of a finite double is the one it was made of. -/
theorem bitsOf_ofSignAndBits (negative : Bool) {bits : Nat} (h : bits < infinityBits) :
    bitsOf (ofSignAndBits negative bits) = if negative then signBit + bits else bits := by
  have hbits : bits < signBit := Nat.lt_trans h (by decide)
  have hlt : (if negative then signBit + bits else bits) < 2 ^ 64 := by
    simp only [signBit, Nat.pow_eq] at hbits ⊢
    split <;> omega
  have hmod : (if negative then signBit + bits else bits) % signBit = bits := by
    split
    · rw [Nat.add_mod_left, Nat.mod_eq_of_lt hbits]
    · exact Nat.mod_eq_of_lt hbits
  have hnat := UInt64.toNat_ofNat_of_lt' hlt
  have hfinite : (UInt64.ofNat (if negative then signBit + bits else bits)).toBitVec.toNat %
      signBit < infinityBits := by
    rwa [UInt64.toNat_toBitVec, hnat, hmod]
  have hpack := Float.Model.UnpackedFloat.pack_unpack_of_valid (valid_of_lt hfinite)
  exact (congrArg BitVec.toNat hpack).trans hnat

theorem absBits_ofSignAndBits (negative : Bool) {bits : Nat} (h : bits < infinityBits) :
    absBits (ofSignAndBits negative bits) = bits := by
  have hlt : bits < signBit := Nat.lt_trans h (by decide)
  rw [absBits, bitsOf_ofSignAndBits negative h]
  split
  · rw [Nat.add_mod_left, Nat.mod_eq_of_lt hlt]
  · exact Nat.mod_eq_of_lt hlt

theorem isNegative_ofSignAndBits (negative : Bool) {bits : Nat} (h : bits < infinityBits) :
    isNegative (ofSignAndBits negative bits) = negative := by
  have hlt : bits < signBit := Nat.lt_trans h (by decide)
  rw [isNegative, bitsOf_ofSignAndBits negative h]
  cases negative with
  | true => exact decide_eq_true (Nat.le_add_right ..)
  | false => exact decide_eq_false (Nat.not_le_of_lt hlt)

/-! ## Decimals in positional notation -/

theorem digitsValue_eq_ofDigitChars {cs : List Char} (h : ∀ c ∈ cs, c.isDigit = true) :
    Numeral.digitsValue 10 cs = Nat.ofDigitChars 10 cs 0 := by
  rw [Numeral.digitsValue, Nat.ofDigitChars_eq_foldl]
  refine List.foldl_ext _ _ _ fun n c hc => ?_
  rw [Numeral.digitValue, if_pos (h c hc), Nat.mul_comm]

namespace Decimal

variable {d : Decimal} {whole fraction : List Char}

/-- The text is a plain numeral that stands for the decimal. -/
structure Spells (whole fraction : List Char) (d : Decimal) : Prop where
  whole_ne_nil : whole ≠ []
  isDigit_whole : ∀ c ∈ whole, c.isDigit = true
  isDigit_fraction : ∀ c ∈ fraction, c.isDigit = true
  num : Nat.ofDigitChars 10 (whole ++ fraction) 0 = d.num
  den : 10 ^ fraction.length = d.den

theorem Spells.ofDigits (h : Spells whole fraction d) :
    Numeral.ofDigits whole fraction = Numeral.ofBits false d.toBits := by
  have hdigits : ∀ c ∈ whole ++ fraction, c.isDigit = true :=
    List.forall_mem_append.mpr ⟨h.isDigit_whole, h.isDigit_fraction⟩
  have hnum : (-(fraction.length : Int)).toNat = 0 := by omega
  have hden : (- -(fraction.length : Int)).toNat = fraction.length := by omega
  rw [Numeral.ofDigits, digitsValue_eq_ofDigitChars hdigits, h.num, toBits, toBits,
    Decimal.num, Decimal.den, hnum, hden, Nat.pow_eq, Nat.pow_eq, Nat.pow_zero, Nat.mul_one, h.den]

theorem isDigit_toDigits (n : Nat) : ∀ c ∈ Nat.toDigits 10 n, c.isDigit = true :=
  fun _ => Nat.isDigit_of_mem_toDigits (by decide) (by decide)

theorem isDigit_zeros (n : Nat) : ∀ c ∈ List.replicate n '0', c.isDigit = true := by
  intro c hc
  rw [List.eq_of_mem_replicate hc]
  rfl

theorem spells_whole (h : d.exponent = d.exponent.toNat) :
    Spells (Nat.toDigits 10 d.digits ++ List.replicate d.exponent.toNat '0') [] d where
  whole_ne_nil hnil := Nat.toDigits_ne_nil (List.append_eq_nil_iff.mp hnil).1
  isDigit_whole := List.forall_mem_append.mpr ⟨isDigit_toDigits _, isDigit_zeros _⟩
  isDigit_fraction := fun _ hc => absurd hc List.not_mem_nil
  num := by
    rw [List.append_nil, Nat.ofDigitChars_append, Nat.ofDigitChars_ten_toDigits,
      Nat.ofDigitChars_replicate_zero, Nat.mul_comm, Decimal.num, Nat.pow_eq]
  den := by
    have hzero : (-d.exponent).toNat = 0 := by omega
    rw [Decimal.den, hzero, List.length_nil, Nat.pow_eq]

theorem spells_fraction {padded : List Char} (hpadded : ∀ c ∈ padded, c.isDigit = true)
    (hvalue : Nat.ofDigitChars 10 padded 0 = d.digits) (hneg : d.exponent ≤ 0)
    (hlength : (-d.exponent).toNat < padded.length) :
    Spells (padded.take (padded.length - (-d.exponent).toNat))
      (padded.drop (padded.length - (-d.exponent).toNat)) d where
  whole_ne_nil := List.ne_nil_of_length_pos (by rw [List.length_take]; omega)
  isDigit_whole := fun c hc => hpadded c (List.mem_of_mem_take hc)
  isDigit_fraction := fun c hc => hpadded c (List.mem_of_mem_drop hc)
  num := by
    have hzero : d.exponent.toNat = 0 := by omega
    rw [List.take_append_drop, hvalue, Decimal.num, hzero, Nat.pow_eq, Nat.pow_zero, Nat.mul_one]
  den := by
    rw [List.length_drop, Nat.sub_sub_self hlength.le, Decimal.den, Nat.pow_eq]

/-- A decimal is written as a plain numeral that stands for it. -/
theorem exists_spells (d : Decimal) :
    ∃ whole fraction, Spells whole fraction d ∧ d.text = Numeral.plain whole fraction := by
  unfold Decimal.text
  dsimp only
  split
  · exact ⟨_, [], spells_whole (by omega), rfl⟩
  · rename_i hplaces
    -- Zeros in front leave a digit for the whole part.
    generalize hpadded : List.replicate _ '0' ++ Nat.toDigits 10 d.digits = padded
    have hlength : (-d.exponent).toNat < padded.length := by
      rw [← hpadded, List.length_append, List.length_replicate]
      omega
    have hdigits : ∀ c ∈ padded, c.isDigit = true := by
      rw [← hpadded]
      exact List.forall_mem_append.mpr ⟨isDigit_zeros _, isDigit_toDigits _⟩
    have hvalue : Nat.ofDigitChars 10 padded 0 = d.digits := by
      rw [← hpadded, Nat.ofDigitChars_append, Nat.ofDigitChars_replicate_zero, Nat.mul_zero,
        Nat.ofDigitChars_ten_toDigits]
    have hne : (padded.drop (padded.length - (-d.exponent).toNat)).isEmpty = false := by
      refine List.isEmpty_eq_false_iff.mpr (List.ne_nil_of_length_pos ?_)
      rw [List.length_drop]
      omega
    refine ⟨_, _, spells_fraction hdigits hvalue (by omega) hlength, ?_⟩
    rw [Numeral.plain, hne, if_neg Bool.false_ne_true]

end Decimal

/-! ## Doubles as a program can write them -/

/-- A number that a numeral stands for: finite and without a sign. -/
def Written (x : Float) : Prop := ∃ bits < infinityBits, x = ofSignAndBits false bits

theorem Numeral.written_of_ofDigits {whole fraction : List Char} {x : Float}
    (h : ofDigits whole fraction = .value x) : Written x := by
  unfold ofDigits ofBits at h
  split at h
  · rename_i hfinite
    exact ⟨_, hfinite, (Numeral.value.inj h).symm⟩
  · cases h

/-- The text of a number is a plain numeral that stands for it. -/
theorem Written.plain {x : Float} (h : Written x) :
    ∃ whole fraction, whole ≠ [] ∧ (∀ c ∈ whole, c.isDigit = true) ∧
      (∀ c ∈ fraction, c.isDigit = true) ∧
      text x = String.ofList (Numeral.plain whole fraction) ∧
      Numeral.ofDigits whole fraction = .value x := by
  obtain ⟨bits, hfinite, rfl⟩ := h
  have hvalue : Numeral.ofBits false bits = .value (ofSignAndBits false bits) := if_pos hfinite
  simp only [text, absBits_ofSignAndBits false hfinite, isNegative_ofSignAndBits false hfinite,
    Nat.not_lt_of_lt hfinite, Nat.ne_of_lt hfinite, if_false]
  split
  · rename_i hzero
    subst hzero
    exact ⟨['0'], [], List.cons_ne_nil _ _, List.forall_mem_singleton.mpr rfl,
      List.forall_mem_nil _, rfl, hvalue⟩
  · rename_i hne
    obtain ⟨whole, fraction, hspells, htext⟩ := (Decimal.shortest bits).exists_spells
    have hread := hspells.ofDigits
    rw [Decimal.toBits_shortest hne hfinite, hvalue] at hread
    refine ⟨whole, fraction, hspells.whole_ne_nil, hspells.isDigit_whole, hspells.isDigit_fraction,
      ?_, hread⟩
    rw [htext]
    rfl

/-- The text of a number reads back as the same number. -/
theorem Written.read_text {x : Float} (h : Written x) : Numeral.read (text x) = .value x := by
  obtain ⟨whole, fraction, hne, hwhole, hfraction, htext, hvalue⟩ := h.plain
  rw [htext, Numeral.read_plain hwhole hne hfraction, hvalue]

/-- Numbers with the same text are the same, bit for bit. -/
theorem Written.text_injective {x y : Float} (hx : Written x) (hy : Written y)
    (h : text x = text y) : x = y := by
  have hread := hx.read_text
  rw [h, hy.read_text] at hread
  exact (Numeral.value.inj hread).symm

end Lox.Number

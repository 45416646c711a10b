import Lox.Number.Numeral
import Mathlib.Data.List.TakeWhile

/-!
# Plain numerals

Digits with an optional fraction are one of the many forms that `Numeral.read` knows.  For them it
says what the digits say (`Numeral.read_plain`).
-/

namespace Lox.Number.Numeral

variable {whole fraction cs : List Char}

/-! ## Digits -/

theorem isDigitOf_ten (c : Char) : isDigitOf 10 c = c.isDigit := by
  rw [isDigitOf]
  exact Bool.or_false c.isDigit

theorem ne_of_isDigit {c d : Char} (hc : c.isDigit = true) (hd : d.isDigit = false) : c ≠ d := by
  rintro rfl
  exact Bool.false_ne_true (hd.symm.trans hc)

/-- A digit is no letter, so it is the same in lower case. -/
theorem toLower_of_isDigit {c : Char} (hc : c.isDigit = true) : c.toLower = c := by
  have hupper : ¬(c.val ≥ 'A'.val ∧ c.val ≤ 'Z'.val) := by
    simp only [Char.isDigit, Bool.and_eq_true, decide_eq_true_eq, ge_iff_le,
      UInt32.le_iff_toNat_le] at hc ⊢
    have h9 : '9'.val.toNat = 57 := rfl
    have hA : 'A'.val.toNat = 65 := rfl
    omega
  exact dif_neg hupper

theorem filter_digits (h : ∀ c ∈ cs, c.isDigit = true) : cs.filter (· != '_') = cs :=
  List.filter_eq_self.mpr fun c hc => bne_iff_ne.mpr (ne_of_isDigit (h c hc) (by decide))

theorem separatesDigits_of_not_mem (h : '_' ∉ cs) (after : Bool) :
    separatesDigits 10 after cs = true := by
  induction cs generalizing after with
  | nil => rfl
  | cons c rest ih =>
    have hc : c ≠ '_' := fun heq => h (heq ▸ List.mem_cons_self ..)
    rw [separatesDigits]
    · exact ih (fun hmem => h (List.mem_cons_of_mem c hmem)) _
    · exact hc

/-! ## The plain form -/

/-- Digits, then a point with further digits if there are any. -/
def plain (whole fraction : List Char) : List Char :=
  if fraction.isEmpty then whole else whole ++ '.' :: fraction

theorem mem_plain {c : Char} (h : c ∈ plain whole fraction) :
    c ∈ whole ∨ c = '.' ∨ c ∈ fraction := by
  unfold plain at h
  split at h
  · exact .inl h
  · simpa only [List.mem_append, List.mem_cons] using h

theorem not_mem_plain (hwhole : ∀ c ∈ whole, c.isDigit = true)
    (hfraction : ∀ c ∈ fraction, c.isDigit = true) {d : Char} (hd : d.isDigit = false)
    (hpoint : d ≠ '.') : d ∉ plain whole fraction := by
  intro hmem
  obtain h | h | h := mem_plain hmem
  · exact ne_of_isDigit (hwhole d h) hd rfl
  · exact hpoint h
  · exact ne_of_isDigit (hfraction d h) hd rfl

/-- The characters of the body of a number. -/
theorem isBody_of_isDigit (h : ∀ c ∈ cs, c.isDigit = true) :
    ∀ c ∈ cs, (isDigitOf 10 c || c == '_') = true := by
  intro c hc
  rw [isDigitOf_ten, h c hc, Bool.true_or]

theorem readUnsigned_plain (hwhole : ∀ c ∈ whole, c.isDigit = true) (hne : whole ≠ [])
    (hfraction : ∀ c ∈ fraction, c.isDigit = true) :
    readUnsigned false 10 (plain whole fraction) = ofDigits whole fraction := by
  have hseparates := separatesDigits_of_not_mem
    (not_mem_plain hwhole hfraction (d := '_') (by decide) (by decide)) false
  have hnonempty : whole.isEmpty = false := List.isEmpty_eq_false_iff.mpr hne
  have hw := isBody_of_isDigit hwhole
  have hf := isBody_of_isDigit hfraction
  unfold readUnsigned
  cases fraction with
  | nil =>
    have htake := List.takeWhile_eq_self_iff.mpr hw
    have hdrop := List.dropWhile_eq_nil_iff.mpr hw
    simp only [plain, List.isEmpty_nil, if_true] at hseparates ⊢
    simp [htake, hdrop, hseparates, filter_digits hwhole, hnonempty, bitsOfParts, ofDigits]
  | cons d ds =>
    have hpoint : (isDigitOf 10 '.' || '.' == '_') = false := by decide
    have htake : (whole ++ '.' :: d :: ds).takeWhile (fun c => isDigitOf 10 c || c == '_') =
        whole := by
      rw [List.takeWhile_append_of_pos hw, List.takeWhile_cons_of_neg (by rw [hpoint]; decide),
        List.append_nil]
    have hdrop : (whole ++ '.' :: d :: ds).dropWhile (fun c => isDigitOf 10 c || c == '_') =
        '.' :: d :: ds := by
      rw [List.dropWhile_append_of_pos hw, List.dropWhile_cons_of_neg (by rw [hpoint]; decide)]
    have htake' := List.takeWhile_eq_self_iff.mpr hf
    have hdrop' := List.dropWhile_eq_nil_iff.mpr hf
    have hplain : plain whole (d :: ds) = whole ++ '.' :: d :: ds := rfl
    rw [hplain] at hseparates ⊢
    simp only [htake, hdrop, htake', hdrop', filter_digits hwhole, filter_digits hfraction]
    simp [hseparates, hnonempty, bitsOfParts, ofDigits]

/-- No character of a plain numeral is a letter. -/
theorem toLower_of_mem_plain (hwhole : ∀ c ∈ whole, c.isDigit = true)
    (hfraction : ∀ c ∈ fraction, c.isDigit = true) {c : Char} (h : c ∈ plain whole fraction) :
    c.toLower = c := by
  obtain h | rfl | h := mem_plain h
  · exact toLower_of_isDigit (hwhole c h)
  · rfl
  · exact toLower_of_isDigit (hfraction c h)

theorem map_toLower_plain (hwhole : ∀ c ∈ whole, c.isDigit = true)
    (hfraction : ∀ c ∈ fraction, c.isDigit = true) :
    (plain whole fraction).map Char.toLower = plain whole fraction := by
  have hsame := List.map_congr_left fun c => toLower_of_mem_plain hwhole hfraction (c := c)
  rw [hsame, List.map_id']

/-- A plain numeral is not in base sixteen and is no name of infinity. -/
theorem readMagnitude_plain (hwhole : ∀ c ∈ whole, c.isDigit = true) (hne : whole ≠ [])
    (hfraction : ∀ c ∈ fraction, c.isDigit = true) :
    readMagnitude false (plain whole fraction) = ofDigits whole fraction := by
  rw [← readUnsigned_plain hwhole hne hfraction]
  unfold readMagnitude
  rw [map_toLower_plain hwhole hfraction]
  have hletter : ∀ d : Char, d.isDigit = false → d ≠ '.' → d ∉ plain whole fraction :=
    fun _ => not_mem_plain hwhole hfraction
  have hlower : ∀ d ∈ plain whole fraction, d.toLower = d := fun _ =>
    toLower_of_mem_plain hwhole hfraction
  generalize plain whole fraction = cs at *
  have hinfinity : infinityNames.contains cs = false := by
    refine Bool.eq_false_iff.mpr fun h => hletter 'i' (by decide) (by decide) ?_
    have hmem := List.contains_iff_mem.mp h
    simp only [infinityNames, List.mem_cons, List.not_mem_nil, or_false] at hmem
    obtain rfl | rfl := hmem <;> decide
  rw [hinfinity, if_neg Bool.false_ne_true]
  split
  · rename_i x c rest
    have hx := hlower x (by simp)
    have hne : x ≠ 'x' := fun heq => hletter 'x' (by decide) (by decide) (by simp [heq])
    rw [hx, if_neg (by simpa using hne)]
  · rfl

/-- A plain numeral stands for what its digits say. -/
theorem read_plain (hwhole : ∀ c ∈ whole, c.isDigit = true) (hne : whole ≠ [])
    (hfraction : ∀ c ∈ fraction, c.isDigit = true) :
    read (String.ofList (plain whole fraction)) = ofDigits whole fraction := by
  rw [← readMagnitude_plain hwhole hne hfraction]
  have hletter : ∀ d : Char, d.isDigit = false → d ≠ '.' → d ∉ plain whole fraction :=
    fun _ => not_mem_plain hwhole hfraction
  have hlower := map_toLower_plain hwhole hfraction
  rw [read, String.toList_ofList]
  generalize plain whole fraction = cs at *
  split
  · exact absurd (List.mem_cons_self ..) (hletter '-' (by decide) (by decide))
  · exact absurd (List.mem_cons_self ..) (hletter '+' (by decide) (by decide))
  · have hnan : (cs == "nan".toList) = false := by
      refine beq_eq_false_iff_ne.mpr fun heq => hletter 'n' (by decide) (by decide) ?_
      rw [heq]
      decide
    rw [hlower, hnan, if_neg Bool.false_ne_true]

end Lox.Number.Numeral

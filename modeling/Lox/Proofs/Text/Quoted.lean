import Lox.Number.Numeral
import Lox.Text.Quoted
import Mathlib.Algebra.Group.Nat.Defs

/-!
# Quoted texts

Between quotation marks every character is written in a way that tells where its own text ends, so a
quoted text says exactly one text (`text_injective`).  No quotation mark stands inside without a
backslash in front of it (`Escape`).
-/

namespace Lox.Text.Quoted

open Number (Numeral)

/-! ## Hexadecimal digits -/

theorem digitValue_digitChar : ∀ n < 16, Numeral.digitValue (Nat.digitChar n) = n := by
  decide

theorem length_hexDigits (width n : Nat) : (hexDigits width n).length = width := by
  induction width generalizing n with
  | zero => rfl
  | succ width ih => rw [hexDigits, List.length_append, ih, List.length_singleton]

/-- The digits of a number that is small enough spell it. -/
theorem digitsValue_hexDigits {width n : Nat} (h : n < 16 ^ width) :
    Numeral.digitsValue 16 (hexDigits width n) = n := by
  induction width generalizing n with
  | zero => exact (Nat.lt_one_iff.mp h).symm
  | succ width ih =>
    have hdiv : n / 16 < 16 ^ width := by rw [Nat.pow_succ] at h; omega
    have hlast := digitValue_digitChar (n % 16) (Nat.mod_lt n (by decide))
    have hfront := ih hdiv
    rw [Numeral.digitsValue] at hfront ⊢
    rw [hexDigits, List.foldl_append, hfront, List.foldl_cons, List.foldl_nil, hlast]
    omega

theorem mem_hexDigits {width n : Nat} {c : Char} (h : c ∈ hexDigits width n) :
    ∃ d < 16, c = Nat.digitChar d := by
  induction width generalizing n with
  | zero => exact absurd h List.not_mem_nil
  | succ width ih =>
    obtain h | h := List.mem_append.mp h
    · exact ih h
    · exact ⟨n % 16, Nat.mod_lt n (by decide), List.mem_singleton.mp h⟩

/-! ## One character -/

/-- The marks of the hexadecimal escapes with their numbers of digits. -/
def hexMarks : List (Char × Nat) := [('x', 2), ('u', 4), ('U', 8)]

/-- The ways to write a character between quotation marks. -/
inductive Escape : Char → List Char → Prop
  | itself {c : Char} (hquote : c ≠ quotationMark) (hslash : c ≠ '\\') : Escape c [c]
  | mark {c : Char} (h : c = quotationMark ∨ c = '\\') : Escape c ['\\', c]
  | letter {c l : Char} (h : letter? c = some l) : Escape c ['\\', l]
  | hex {c m : Char} {width : Nat} (hmark : (m, width) ∈ hexMarks) (hlt : c.toNat < 16 ^ width) :
      Escape c ('\\' :: m :: hexDigits width c.toNat)

theorem toNat_lt (c : Char) : c.toNat < 0x110000 := by
  have hvalid : c.val.toNat.isValidChar := c.valid
  have hnat : c.val.toNat = c.toNat := rfl
  rw [Nat.isValidChar] at hvalid
  omega

theorem escape_ways (c : Char) : Escape c (escape quotationMark c) := by
  have hmax := toNat_lt c
  unfold escape
  split
  · exact .mark ‹_›
  · rename_i hplain
    obtain ⟨hquote, hslash⟩ := not_or.mp hplain
    split
    · exact .itself hquote hslash
    · split
      · exact .letter ‹_›
      · split
        · exact .hex (by decide) (by omega)
        · split
          · exact .hex (by decide) (by omega)
          · exact .hex (by decide) (by omega)

/-- The control character with a letter. -/
def control? (l : Char) : Option Char :=
  match l with
  | 'a' => some '\x07'
  | 'b' => some '\x08'
  | 't' => some '\t'
  | 'n' => some '\n'
  | 'v' => some '\x0b'
  | 'f' => some '\x0c'
  | 'r' => some '\r'
  | _ => none

/-- A letter after a backslash stands for its control character and is no mark. -/
theorem control?_of_letter? {c l : Char} (h : letter? c = some l) :
    control? l = some c ∧ hexMarks.lookup l = none := by
  have hc : Char.ofNat c.toNat = c := Char.ofNat_toNat c
  unfold letter? at h
  generalize c.toNat = n at h hc
  subst hc
  split at h
  all_goals cases h
  all_goals exact ⟨rfl, rfl⟩

/-- The first character of a text between quotation marks, and the text behind it. -/
def unescape : List Char → Option (Char × List Char)
  | '\\' :: m :: rest =>
    match hexMarks.lookup m with
    | some width =>
      some (.ofNat (Numeral.digitsValue 16 (rest.take width)), rest.drop width)
    | none => some ((control? m).getD m, rest)
  | c :: rest => some (c, rest)
  | [] => none

theorem unescape_escape {c : Char} {w : List Char} (h : Escape c w) (rest : List Char) :
    unescape (w ++ rest) = some (c, rest) := by
  cases h with
  | itself _ hslash =>
    unfold unescape
    split
    · exact absurd (List.cons.inj ‹_›).1 hslash
    · rename_i heq
      obtain ⟨rfl, rfl⟩ := List.cons.inj heq
      rfl
    · exact absurd ‹_› (List.cons_ne_nil _ _)
  | mark h => obtain rfl | rfl := h <;> rfl
  | letter h =>
    obtain ⟨hcontrol, hmark⟩ := control?_of_letter? h
    simp only [List.cons_append, List.nil_append, unescape, hmark, hcontrol, Option.getD_some]
  | @hex m width hmark hlt =>
    have hlookup : ∀ p ∈ hexMarks, hexMarks.lookup p.1 = some p.2 := by decide
    have hlength := length_hexDigits width c.toNat
    simp only [List.cons_append, unescape, hlookup _ hmark, List.take_left' hlength,
      List.drop_left' hlength, digitsValue_hexDigits hlt, Char.ofNat_toNat]

/-! ## Texts -/

theorem flatMap_escape_injective {cs ds : List Char}
    (h : cs.flatMap (escape quotationMark) = ds.flatMap (escape quotationMark)) : cs = ds := by
  induction cs generalizing ds with
  | nil =>
    cases ds with
    | nil => rfl
    | cons d ds =>
      have hread := unescape_escape (escape_ways d) (ds.flatMap (escape quotationMark))
      rw [← List.flatMap_cons, ← h] at hread
      cases hread
  | cons c cs ih =>
    have hread := unescape_escape (escape_ways c) (cs.flatMap (escape quotationMark))
    rw [← List.flatMap_cons, h] at hread
    cases ds with
    | nil => cases hread
    | cons d ds =>
      rw [List.flatMap_cons, unescape_escape (escape_ways d), Option.some.injEq,
        Prod.mk.injEq] at hread
      obtain ⟨rfl, htail⟩ := hread
      rw [ih htail.symm]

theorem toList_text (s : String) : (text s).toList =
    quotationMark :: s.toList.flatMap (escape quotationMark) ++ [quotationMark] :=
  String.toList_ofList

/-- Texts that look the same between quotation marks are the same. -/
theorem text_injective {s t : String} (h : text s = text t) : s = t := by
  have hlist := congrArg String.toList h
  rw [toList_text, toList_text] at hlist
  have hbody := (List.cons.inj (List.append_cancel_right hlist)).2
  exact String.toList_inj.mp (flatMap_escape_injective hbody)

end Lox.Text.Quoted

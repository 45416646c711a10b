import Lox.Proofs.Number.Text
import Lox.Proofs.Outline.Symbol

/-!
# Nested lists of words

What the parenthesised form of a tree says, spaces apart, is a nested list of words.  Equal symbols
come from equal nested lists (`Form.symbols_injective`): numbers, quoted texts and other words begin
with different characters, and parentheses match.
-/

namespace Lox.Outline

open Text.Quoted (quotationMark)

/-! ## Words -/

/-- A word of the parenthesised form: a number, a quoted text or any other word. -/
inductive Atom where
  | number (x : Float)
  | text (s : String)
  | word (w : String)

/-- A word that is neither a number nor quoted. -/
def Plain : List Char → Prop
  | [] => False
  | c :: u => c.isDigit = false ∧ c ≠ quotationMark ∧ ∀ d ∈ c :: u, delimiter? d = none

instance : DecidablePred Plain
  | [] => inferInstanceAs (Decidable False)
  | c :: u =>
    -- The characters of the word are tried, not all characters that there are.
    have : Decidable (∀ d ∈ c :: u, delimiter? d = none) := List.decidableBAll _ _
    inferInstanceAs (Decidable (c.isDigit = false ∧ c ≠ quotationMark ∧
      ∀ d ∈ c :: u, delimiter? d = none))

theorem exists_cons_of_plain {w : List Char} (h : Plain w) : ∃ c u, w = c :: u ∧
    c.isDigit = false ∧ c ≠ quotationMark ∧ ∀ d ∈ c :: u, delimiter? d = none := by
  cases w with
  | nil => exact h.elim
  | cons c u => exact ⟨c, u, rfl, h⟩

namespace Atom

/-- How a word is spelled. -/
def spelling : Atom → String
  | number x => Number.text x
  | text s => Text.Quoted.text s
  | word w => w

/-- The characters of a word. -/
def chars (a : Atom) : List Char := a.spelling.toList

/-- The word is what it seems to be. -/
def Spelled : Atom → Prop
  | number x => Number.Written x
  | text _ => True
  | word w => Plain w.toList

/-- The text of a number has digits and at most a point. -/
theorem chars_number {x : Float} (h : Number.Written x) :
    ∃ c u, (number x).chars = c :: u ∧ c.isDigit = true ∧ ∀ d ∈ c :: u, delimiter? d = none := by
  obtain ⟨whole, fraction, hne, hwhole, hfraction, htext, -⟩ := h.plain
  obtain ⟨c, digits, rfl⟩ := List.exists_cons_of_ne_nil hne
  obtain ⟨u, hu⟩ : ∃ u, Number.Numeral.plain (c :: digits) fraction = c :: u := by
    unfold Number.Numeral.plain
    split <;> exact ⟨_, rfl⟩
  have hdigit : ∀ d : Char, d.isDigit = true → delimiter? d = none := by
    intro d hd
    unfold delimiter?
    split
    all_goals first
      | exact absurd hd (by decide)
      | rfl
  refine ⟨c, u, ?_, hwhole c (List.mem_cons_self ..), fun d hd => ?_⟩
  · rw [chars, spelling, htext, String.toList_ofList, hu]
  · obtain h | rfl | h := Number.Numeral.mem_plain (hu ▸ hd)
    · exact hdigit d (hwhole d h)
    · rfl
    · exact hdigit d (hfraction d h)

/-- The word is a number. -/
def isNumber : Atom → Bool
  | number _ => true
  | _ => false

/-- The word is quoted. -/
def isText : Atom → Bool
  | text _ => true
  | _ => false

/-- The first character tells what a word is. -/
theorem Spelled.head {a : Atom} (h : a.Spelled) : ∃ c u, a.chars = c :: u ∧
    c.isDigit = a.isNumber ∧ (c == quotationMark) = a.isText := by
  cases a with
  | number x =>
    obtain ⟨c, u, hchars, hdigit, -⟩ := chars_number h
    have hquote := Number.Numeral.ne_of_isDigit hdigit (d := quotationMark) (by decide)
    exact ⟨c, u, hchars, hdigit, beq_eq_false_iff_ne.mpr hquote⟩
  | text s => exact ⟨quotationMark, _, Text.Quoted.toList_text s, rfl, rfl⟩
  | word w =>
    obtain ⟨c, u, hw, hdigit, hquote, -⟩ := exists_cons_of_plain h
    exact ⟨c, u, hw, hdigit, beq_eq_false_iff_ne.mpr hquote⟩

theorem chars_injective {a b : Atom} (ha : a.Spelled) (hb : b.Spelled) (h : a.chars = b.chars) :
    a = b := by
  obtain ⟨c, u, hchars, hnumber, htext⟩ := ha.head
  obtain ⟨d, v, hchars', hnumber', htext'⟩ := hb.head
  obtain ⟨rfl, rfl⟩ := List.cons.inj (hchars.symm.trans (h.trans hchars'))
  have hnumbers : a.isNumber = b.isNumber := hnumber.symm.trans hnumber'
  have htexts : a.isText = b.isText := htext.symm.trans htext'
  have hspelling : a.spelling = b.spelling := String.toList_inj.mp h
  cases a with
  | number x =>
    cases b with
    | number y => rw [Number.Written.text_injective ha hb hspelling]
    | text | word => cases hnumbers
  | text s =>
    cases b with
    | text t => rw [Text.Quoted.text_injective hspelling]
    | number | word => cases htexts
  | word w =>
    cases b with
    | word w' => exact congrArg word hspelling
    | number => cases hnumbers
    | text => cases htexts

/-- A word is cut out of a text as a whole. -/
theorem Spelled.reads {a : Atom} (h : a.Spelled) : Reads a.chars [.word a.chars] := by
  cases a with
  | number x =>
    obtain ⟨c, u, hchars, hdigit, hu⟩ := chars_number h
    rw [hchars]
    exact reads_word (Number.Numeral.ne_of_isDigit hdigit (by decide)) hu
  | text s => exact reads_quoted s
  | word w =>
    obtain ⟨c, u, hw, -, hquote, hu⟩ := exists_cons_of_plain h
    rw [chars, spelling, hw]
    exact reads_word hquote hu

end Atom

/-! ## Nested lists -/

/-- A word or a list of words and lists. -/
inductive Form where
  | atom (a : Atom)
  | list (parts : List Form)

namespace Form

mutual

/-- A nested list as words and parentheses. -/
def symbols : Form → List Symbol
  | atom a => [.word a.chars]
  | list parts => .opening :: symbolsAll parts ++ [.closing]

/-- The words and parentheses of nested lists, one after the other. -/
def symbolsAll : List Form → List Symbol
  | [] => []
  | f :: fs => symbols f ++ symbolsAll fs

end

mutual

/-- The words of a nested list are what they seem to be. -/
def Spelled : Form → Prop
  | atom a => a.Spelled
  | list parts => AllSpelled parts

/-- The words of all these nested lists are what they seem to be. -/
def AllSpelled : List Form → Prop
  | [] => True
  | f :: fs => Spelled f ∧ AllSpelled fs

end

theorem symbolsAll_append (fs gs : List Form) :
    symbolsAll (fs ++ gs) = symbolsAll fs ++ symbolsAll gs := by
  induction fs with
  | nil => rfl
  | cons f fs ih => rw [List.cons_append, symbolsAll, symbolsAll, ih, List.append_assoc]

theorem allSpelled_iff {fs : List Form} : AllSpelled fs ↔ ∀ f ∈ fs, f.Spelled := by
  induction fs with
  | nil => exact ⟨fun _ _ h => absurd h List.not_mem_nil, fun _ => trivial⟩
  | cons f fs ih => rw [AllSpelled, ih, List.forall_mem_cons]

theorem symbols_head (f : Form) : ∃ s rest, f.symbols = s :: rest ∧ s ≠ .closing := by
  cases f with
  | atom a => exact ⟨_, [], rfl, Symbol.noConfusion⟩
  | list parts => exact ⟨_, _, rfl, Symbol.noConfusion⟩

mutual

/-- The first nested list of a text is determined by the symbols, and so is what follows it. -/
theorem symbols_cancel : {f g : Form} → f.Spelled → g.Spelled → {ss ts : List Symbol} →
    f.symbols ++ ss = g.symbols ++ ts → f = g ∧ ss = ts
  | .atom _, .atom _, hf, hg, _, _, h => by
    obtain ⟨hword, hrest⟩ := List.cons.inj h
    exact ⟨congrArg atom (Atom.chars_injective hf hg (Symbol.word.inj hword)), hrest⟩
  | .atom _, .list _, _, _, _, _, h => Symbol.noConfusion (List.cons.inj h).1
  | .list _, .atom _, _, _, _, _, h => Symbol.noConfusion (List.cons.inj h).1
  | .list _, .list _, hf, hg, _, _, h => by
    rw [symbols, symbols, List.append_assoc, List.append_assoc] at h
    obtain ⟨hparts, hrest⟩ := symbolsAll_cancel hf hg (List.cons.inj h).2
    exact ⟨congrArg list hparts, hrest⟩

theorem symbolsAll_cancel : {fs gs : List Form} → AllSpelled fs → AllSpelled gs →
    {ss ts : List Symbol} → symbolsAll fs ++ .closing :: ss = symbolsAll gs ++ .closing :: ts →
    fs = gs ∧ ss = ts
  | [], [], _, _, _, _, h => ⟨rfl, (List.cons.inj h).2⟩
  | [], g :: _, _, _, _, _, h => by
    obtain ⟨s, rest, hg, hne⟩ := g.symbols_head
    rw [symbolsAll, symbolsAll, hg] at h
    exact absurd (List.cons.inj h).1.symm hne
  | f :: _, [], _, _, _, _, h => by
    obtain ⟨s, rest, hf, hne⟩ := f.symbols_head
    rw [symbolsAll, symbolsAll, hf] at h
    exact absurd (List.cons.inj h).1 hne
  | _ :: _, _ :: _, ⟨hf, hfs⟩, ⟨hg, hgs⟩, _, _, h => by
    rw [symbolsAll, symbolsAll, List.append_assoc, List.append_assoc] at h
    obtain ⟨rfl, hparts⟩ := symbols_cancel hf hg h
    obtain ⟨rfl, hrest⟩ := symbolsAll_cancel hfs hgs hparts
    exact ⟨rfl, hrest⟩

end

/-- Nested lists with the same symbols are the same. -/
theorem symbols_injective {f g : Form} (hf : f.Spelled) (hg : g.Spelled)
    (h : f.symbols = g.symbols) : f = g :=
  (@symbols_cancel f g hf hg [] [] (congrArg (· ++ []) h)).1

end Form

end Lox.Outline

import Lox.Proofs.Text.Quoted

/-!
# Words and parentheses

The parenthesised form of a tree consists of words and parentheses.  A word ends at a space or at a
parenthesis unless it is quoted; then it ends with the quotation mark that has no backslash in front
of it.  `symbolsOf` cuts a text in this way, and `Reads text symbols` says that a text is cut into
these symbols whatever comes after it.
-/

namespace Lox.Outline

open Text.Quoted (quotationMark escape Escape)

/-- A parenthesis or a word. -/
inductive Symbol where
  | opening
  | closing
  | word (chars : List Char)
  deriving DecidableEq

/-- What a character says that ends words, `none` if it is part of one. -/
def delimiter? : Char → Option (List Symbol)
  | ' ' => some []
  | '(' => some [.opening]
  | ')' => some [.closing]
  | _ => none

/-- Where in a text the reader is, with the characters of the word read so far. -/
inductive Mode where
  | between
  | word (chars : List Char)
  | quoted (chars : List Char)
  | escaped (chars : List Char)

/-- The symbols of a text. -/
def symbolsOf : Mode → List Char → List Symbol
  | .between, [] => []
  | .word w, [] | .quoted w, [] | .escaped w, [] => [.word w]
  | .between, c :: rest =>
    match delimiter? c with
    | some symbols => symbols ++ symbolsOf .between rest
    | none => symbolsOf (if c = quotationMark then .quoted [c] else .word [c]) rest
  | .word w, c :: rest =>
    match delimiter? c with
    | some symbols => .word w :: (symbols ++ symbolsOf .between rest)
    | none => symbolsOf (.word (w ++ [c])) rest
  | .quoted w, c :: rest =>
    if c = quotationMark then .word (w ++ [c]) :: symbolsOf .between rest
    else symbolsOf (if c = '\\' then .escaped (w ++ [c]) else .quoted (w ++ [c])) rest
  | .escaped w, c :: rest => symbolsOf (.quoted (w ++ [c])) rest

/-- Words end where the text begins. -/
def Delimited (rest : List Char) : Prop := ∀ c ∈ rest.head?, delimiter? c ≠ none

theorem delimited_nil : Delimited [] := fun _ hc => absurd hc (by simp)

theorem delimited_cons {c : Char} {rest : List Char} (h : delimiter? c ≠ none) :
    Delimited (c :: rest) := by
  rintro _ ⟨⟩
  exact h

/-- The text is cut into these symbols, whatever comes after it. -/
def Reads (text : List Char) (symbols : List Symbol) : Prop :=
  ∀ rest, Delimited rest →
    symbolsOf .between (text ++ rest) = symbols ++ symbolsOf .between rest

/-! ## Words -/

theorem symbolsOf_word {rest : List Char} (hrest : Delimited rest) {u : List Char}
    (hu : ∀ c ∈ u, delimiter? c = none) (w : List Char) :
    symbolsOf (.word w) (u ++ rest) = .word (w ++ u) :: symbolsOf .between rest := by
  induction u generalizing w with
  | nil =>
    rw [List.nil_append, List.append_nil]
    cases rest with
    | nil => rfl
    | cons c rest =>
      obtain ⟨symbols, hc⟩ := Option.ne_none_iff_exists'.mp (hrest c rfl)
      rw [symbolsOf, symbolsOf, hc]
  | cons c u ih =>
    obtain ⟨hc, hu⟩ := List.forall_mem_cons.mp hu
    rw [List.cons_append, symbolsOf, hc]
    rw [ih hu, List.append_assoc]
    rfl

/-- A text without spaces, parentheses and a quotation mark at the front is a word. -/
theorem reads_word {c : Char} {u : List Char} (hquote : c ≠ quotationMark)
    (hu : ∀ d ∈ c :: u, delimiter? d = none) : Reads (c :: u) [.word (c :: u)] := by
  intro rest hrest
  obtain ⟨hc, hu⟩ := List.forall_mem_cons.mp hu
  rw [List.cons_append, symbolsOf, hc]
  simp only [if_neg hquote]
  exact symbolsOf_word hrest hu [c]

/-! ## Quoted words -/

theorem symbolsOf_unmarked {u : List Char} (hu : ∀ c ∈ u, c ≠ quotationMark ∧ c ≠ '\\')
    (w rest : List Char) :
    symbolsOf (.quoted w) (u ++ rest) = symbolsOf (.quoted (w ++ u)) rest := by
  induction u generalizing w with
  | nil => rw [List.nil_append, List.append_nil]
  | cons c u ih =>
    obtain ⟨⟨hquote, hslash⟩, hu⟩ := List.forall_mem_cons.mp hu
    rw [List.cons_append, symbolsOf, if_neg hquote, if_neg hslash, ih hu, List.append_assoc]
    rfl

theorem symbolsOf_marked (c : Char) {u : List Char} (hu : ∀ c ∈ u, c ≠ quotationMark ∧ c ≠ '\\')
    (w rest : List Char) :
    symbolsOf (.quoted w) ('\\' :: c :: u ++ rest) =
      symbolsOf (.quoted (w ++ '\\' :: c :: u)) rest := by
  rw [List.cons_append, List.cons_append, symbolsOf, if_neg (by decide), if_pos rfl, symbolsOf,
    symbolsOf_unmarked hu, List.append_assoc, List.append_assoc]
  rfl

/-- A character between quotation marks does not end the word. -/
theorem symbolsOf_escape {c : Char} {u : List Char} (h : Escape c u) (w rest : List Char) :
    symbolsOf (.quoted w) (u ++ rest) = symbolsOf (.quoted (w ++ u)) rest := by
  have hnone : ∀ d ∈ ([] : List Char), d ≠ quotationMark ∧ d ≠ '\\' :=
    fun _ hd => absurd hd List.not_mem_nil
  cases h with
  | itself hquote hslash =>
    exact symbolsOf_unmarked (List.forall_mem_singleton.mpr ⟨hquote, hslash⟩) w rest
  | mark | letter => exact symbolsOf_marked _ hnone w rest
  | hex hmark =>
    have hdigits : ∀ d < 16, Nat.digitChar d ≠ quotationMark ∧ Nat.digitChar d ≠ '\\' := by decide
    refine symbolsOf_marked _ (fun d hd => ?_) w rest
    obtain ⟨n, hn, rfl⟩ := Text.Quoted.mem_hexDigits hd
    exact hdigits n hn

theorem symbolsOf_body (cs w rest : List Char) :
    symbolsOf (.quoted w) (cs.flatMap (escape quotationMark) ++ quotationMark :: rest) =
      .word (w ++ cs.flatMap (escape quotationMark) ++ [quotationMark]) ::
        symbolsOf .between rest := by
  induction cs generalizing w with
  | nil => rw [List.flatMap_nil, List.nil_append, symbolsOf, if_pos rfl, List.append_nil]
  | cons c cs ih =>
    rw [List.flatMap_cons, List.append_assoc, symbolsOf_escape (Text.Quoted.escape_ways c), ih]
    simp only [List.append_assoc]

/-- A quoted text is a word. -/
theorem reads_quoted (s : String) :
    Reads (Text.Quoted.text s).toList [.word (Text.Quoted.text s).toList] := by
  intro rest _
  rw [Text.Quoted.toList_text, List.cons_append, List.cons_append, symbolsOf]
  have hquote : delimiter? quotationMark = none := by decide
  simp only [hquote, if_true, List.append_assoc, List.singleton_append]
  exact symbolsOf_body s.toList [quotationMark] rest

/-! ## Words one after the other -/

section Sequence

variable {a b : List Char} {s t : List Symbol}

theorem reads_nil : Reads [] [] := fun _ _ => rfl

/-- A space between two texts separates them and is lost. -/
theorem Reads.space (ha : Reads a s) (hb : Reads b t) : Reads (a ++ ' ' :: b) (s ++ t) := by
  intro rest hrest
  rw [List.append_assoc, List.cons_append, ha _ (delimited_cons (by decide)), List.append_assoc,
    ← hb rest hrest]
  rfl

/-- A parenthesis needs no space in front of it. -/
theorem Reads.before_parenthesis (ha : Reads a s) (hb : Reads ('(' :: b) t) :
    Reads (a ++ '(' :: b) (s ++ t) := by
  intro rest hrest
  rw [List.append_assoc, List.cons_append, ha _ (delimited_cons (by decide)), List.append_assoc,
    ← hb rest hrest]
  rfl

/-- A text in parentheses. -/
theorem Reads.parentheses (ha : Reads a s) :
    Reads ('(' :: a ++ [')']) (.opening :: s ++ [.closing]) := by
  intro rest _
  have hclosing : symbolsOf .between (a ++ ')' :: rest) =
      s ++ .closing :: symbolsOf .between rest := ha _ (delimited_cons (by decide))
  rw [List.append_assoc, List.append_assoc]
  exact congrArg (.opening :: ·) hclosing

end Sequence

end Lox.Outline

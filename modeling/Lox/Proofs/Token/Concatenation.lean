import Lox.Proofs.Token.Lines

/-!
# Texts one behind the other

A text that does not end inside a string is scanned as if it stood alone, whatever is behind a line
end after it.  What is behind is scanned as if it stood alone too, only further on: offsets and
lines grow by what the first text and the line end take (`scan_newline`).
-/

namespace Lox

/-- A token further on in a source. -/
def Token.moved (offset line : Nat) (t : Token) : Token :=
  { t with offset := t.offset + offset, line := t.line + line }

/-- A scan error further on in a source. -/
def ScanError.moved (offset line : Nat) (e : ScanError) : ScanError :=
  { e with offset := e.offset + offset, line := e.line + line }

namespace Token

/-! ## Pieces further on -/

/-- A placed piece further on in a source. -/
def Placed.moved (offset line : Nat) (p : Placed) : Placed :=
  ⟨p.piece, p.offset + offset, p.line + line⟩

theorem Placed.token?_moved (offset line : Nat) (p : Placed) :
    (p.moved offset line).token? = p.token?.map (Token.moved offset line) := by
  obtain ⟨⟨chars, content⟩, o, l⟩ := p
  cases content <;> rfl

theorem Placed.error?_moved (offset line : Nat) (p : Placed) :
    (p.moved offset line).error? = p.error?.map (ScanError.moved offset line) := by
  obtain ⟨⟨chars, content⟩, o, l⟩ := p
  cases content <;> rfl

/-- Where the first piece stands moves all of them alike. -/
theorem place_moved (offset line o l : Nat) (ps : List Piece) :
    place (o + offset) (l + line) ps = (place o l ps).map (Placed.moved offset line) := by
  induction ps generalizing o l with
  | nil => rfl
  | cons p ps ih =>
    have ho : o + offset + p.chars.length = o + p.chars.length + offset := Nat.add_right_comm ..
    have hl : l + line + p.lineEnds = l + p.lineEnds + line := Nat.add_right_comm ..
    rw [place, place, List.map_cons, ho, hl, ih]
    rfl

theorem place_append (o l : Nat) (ps qs : List Piece) :
    place o l (ps ++ qs) = place o l ps ++ place (o + (ps.flatMap Piece.chars).length)
      (l + (ps.flatMap Piece.chars).count '\n') qs := by
  induction ps generalizing o l with
  | nil => rfl
  | cons p ps ih =>
    rw [List.cons_append, place, place, ih, List.cons_append, List.flatMap_cons,
      List.length_append, List.count_append, Piece.lineEnds, Nat.add_assoc, Nat.add_assoc]

/-- The pieces of two texts with a line end between them, at their places. -/
theorem place_newline (a b : List Char) (h : StringsClosed a) :
    ∃ lineEnd : Placed, lineEnd.piece = .lineEnd ∧
      place 0 1 (pieces (a ++ '\n' :: b)) = place 0 1 (pieces a) ++ lineEnd ::
        (place 0 1 (pieces b)).map (Placed.moved (a.length + 1) (a.count '\n' + 1)) := by
  refine ⟨⟨.lineEnd, 0 + a.length, 1 + a.count '\n'⟩, rfl, ?_⟩
  have hoffset : 0 + a.length + Piece.lineEnd.chars.length = 0 + (a.length + 1) :=
    Nat.add_assoc ..
  have hline : 1 + a.count '\n' + Piece.lineEnd.lineEnds = 1 + (a.count '\n' + 1) :=
    Nat.add_assoc ..
  rw [pieces_newline a b h, place_append, flatten_pieces, place, hoffset, hline, place_moved]

theorem filterMap_moved {α : Type} {find : Placed → Option α} {move : α → α}
    {offset line : Nat} (h : ∀ p : Placed, find (p.moved offset line) = (find p).map move)
    (ps : List Placed) :
    (ps.map (Placed.moved offset line)).filterMap find = (ps.filterMap find).map move := by
  rw [List.filterMap_map, List.map_filterMap]
  exact congrArg (List.filterMap · ps) (funext h)

/-! ## Scans -/

/-- Behind a text and a line end the tokens of another text stand further on. -/
theorem innerTokens_newline (a b : List Char) (h : StringsClosed a) :
    innerTokens (a ++ '\n' :: b) =
      innerTokens a ++ (innerTokens b).map (Token.moved (a.length + 1) (a.count '\n' + 1)) := by
  obtain ⟨lineEnd, hpiece, hplace⟩ := place_newline a b h
  have hnone : lineEnd.token? = none := by rw [Placed.token?, hpiece]; rfl
  rw [innerTokens, hplace, List.filterMap_append, List.filterMap_cons_none hnone,
    filterMap_moved (Placed.token?_moved _ _)]
  rfl

theorem endOf_newline (a b : List Char) :
    endOf (a ++ '\n' :: b) = (endOf b).moved (a.length + 1) (a.count '\n' + 1) := by
  simp only [endOf, moved, List.length_append, List.length_cons, List.count_append,
    List.count_cons_self, Token.mk.injEq, true_and]
  omega

theorem toList_newline (a b : String) :
    (a ++ "\n" ++ b).toList = a.toList ++ '\n' :: b.toList := by
  rw [String.toList_append, String.toList_append, List.append_assoc]
  rfl

/-- Two texts with a line end between them are scanned one after the other, if the first one does
not end inside a string. -/
theorem scan_newline (a b : String) (h : ∀ e ∈ (scan a).errors, e.flaw ≠ .unterminatedString) :
    let offset := a.length + 1
    let line := a.toList.count '\n' + 1
    (scan (a ++ "\n" ++ b)).tokens =
      (scan a).tokens.dropLast ++ (scan b).tokens.map (Token.moved offset line) ∧
    (scan (a ++ "\n" ++ b)).errors =
      (scan a).errors ++ (scan b).errors.map (ScanError.moved offset line) := by
  intro offset line
  have hclosed : StringsClosed a.toList := by
    intro p hp hflaw
    obtain ⟨e, he, heq⟩ := exists_error_of_flaw hp hflaw
    exact h e he heq
  have hlength : a.toList.length = a.length := String.length_toList
  constructor
  · rw [scan_tokens, scan_tokens, scan_tokens, toList_newline, List.dropLast_concat,
      innerTokens_newline _ _ hclosed, endOf_newline, hlength, List.map_append, List.append_assoc]
    rfl
  · obtain ⟨lineEnd, hpiece, hplace⟩ := place_newline a.toList b.toList hclosed
    have hnone : lineEnd.error? = none := by rw [Placed.error?, hpiece]; rfl
    rw [scan_errors, scan_errors, scan_errors, toList_newline, hplace, List.filterMap_append,
      List.filterMap_cons_none hnone, filterMap_moved (Placed.error?_moved _ _), hlength]

/-- A number and a point in front of the line end do not become a fraction behind it, and an error
in the first text is found there. -/
theorem scan_newline_fraction :
    let a := "x @ <\n1."
    let b := "5 // no fraction"
    (scan a).errors.map ScanError.message = ["unexpected character '@'"] ∧
    (scan (a ++ "\n" ++ b)).tokens =
      (scan a).tokens.dropLast ++ (scan b).tokens.map (Token.moved 9 2) ∧
    (scan (a ++ "\n" ++ b)).errors =
      (scan a).errors ++ (scan b).errors.map (ScanError.moved 9 2) := by
  intro a b
  have hmessage : ∀ e ∈ (scan a).errors, e.message ≠ Flaw.unterminatedString.message := by
    decide +kernel
  obtain ⟨htokens, herrors⟩ :=
    scan_newline a b fun e he heq => hmessage e he (congrArg Flaw.message heq)
  have hoffset : a.length + 1 = 9 := by decide +kernel
  have hline : a.toList.count '\n' + 1 = 2 := by decide +kernel
  rw [hoffset, hline] at htokens herrors
  exact ⟨by decide +kernel, htokens, herrors⟩

end Token

end Lox

import Lox.Proofs.Lines.Tree
import Lox.Proofs.Token.Lexeme
import Lox.Text.Blank

/-!
# Scanning line by line

No lexeme but a string goes past the end of a line.  So a text is cut in the same way whether or not
a line end and more text follow it, unless it ends inside a string (`pieces_newline`).
-/

namespace Lox.Token

/-! ## One piece in front of a blank -/

theorem takeWhile_stop {p : Char → Bool} {b : Char} (hp : p b = false) (a rest : List Char) :
    (a ++ b :: rest).takeWhile p = a.takeWhile p := by
  induction a with
  | nil => rw [List.nil_append, List.takeWhile_cons_of_neg (by rw [hp]; decide), List.takeWhile_nil]
  | cons c a ih => rw [List.cons_append, List.takeWhile_cons, List.takeWhile_cons, ih]

theorem dropWhile_stop {p : Char → Bool} {b : Char} (hp : p b = false) (a rest : List Char) :
    (a ++ b :: rest).dropWhile p = a.dropWhile p ++ b :: rest := by
  induction a with
  | nil => rw [List.nil_append, List.dropWhile_cons_of_neg (by rw [hp]; decide), List.dropWhile_nil,
      List.nil_append]
  | cons c a ih =>
    rw [List.cons_append, List.dropWhile_cons, List.dropWhile_cons, ih]
    split <;> rfl

/-- A first part that ends before the list does is not changed by what follows the list. -/
theorem takeWhile_append_of_lt {p : Char → Bool} {a : List Char} (b : List Char)
    (h : (a.takeWhile p).length < a.length) : (a ++ b).takeWhile p = a.takeWhile p := by
  rw [List.takeWhile_append, if_neg (Nat.ne_of_lt h)]

namespace Piece

variable {b : Char}

theorem withEqual_of_ne {d : Char} (hd : d ≠ '=') (c : Char) (rest : List Char)
    (short long : Kind) : withEqual c (d :: rest) short long = plain [c] short := by
  unfold withEqual
  split
  · exact absurd (List.cons.inj ‹_›).1 hd
  · rfl

theorem withEqual_stop (hb : b ≠ '=') (c : Char) (a rest : List Char) (short long : Kind) :
    withEqual c (a ++ b :: rest) short long = withEqual c a short long := by
  cases a with
  | nil => exact withEqual_of_ne hb c rest short long
  | cons d a =>
    by_cases hd : d = '='
    · subst hd
      rfl
    · rw [List.cons_append, withEqual_of_ne hd, withEqual_of_ne hd]

theorem slash_of_ne {d : Char} (hd : d ≠ '/') (rest : List Char) :
    slash (d :: rest) = plain ['/'] .slash := by
  unfold slash
  split
  · exact absurd (List.cons.inj ‹_›).1 hd
  · rfl

/-- Only a line end stops a comment. -/
theorem slash_stop (hb : b ≠ '/') (a rest : List Char)
    (h : b = '\n' ∨ (slash a).content ≠ .comment) : slash (a ++ b :: rest) = slash a := by
  cases a with
  | nil => exact slash_of_ne hb rest
  | cons d a =>
    by_cases hd : d = '/'
    · subst hd
      obtain rfl | h := h
      · have hcomment := takeWhile_stop (p := (· != '\n')) (b := '\n') (by decide) ('/' :: a) rest
        show (⟨'/' :: (('/' :: a) ++ '\n' :: rest).takeWhile _, .comment⟩ : Piece) = _
        rw [hcomment]
        rfl
      · exact absurd rfl h
    · rw [List.cons_append, slash_of_ne hd, slash_of_ne hd]

theorem string_append {a : List Char} (b : List Char)
    (h : (string a).content ≠ .flaw .unterminatedString) : string (a ++ b) = string a := by
  unfold string at h ⊢
  by_cases hlt : (a.takeWhile (· != Text.Quoted.quotationMark)).length < a.length
  · have hbody := takeWhile_append_of_lt b hlt
    have hlt' : (a.takeWhile (· != Text.Quoted.quotationMark)).length < (a ++ b).length := by
      rw [List.length_append]
      omega
    simp only [hbody, if_pos hlt, if_pos hlt']
  · simp only [if_neg hlt, ne_eq, not_true_eq_false] at h

theorem fractionOf_of_ne {d : Char} (hd : d ≠ '.') (rest : List Char) :
    fractionOf (d :: rest) = [] := by
  unfold fractionOf
  split
  · exact absurd (List.cons.inj ‹_›).1 hd
  · rfl

theorem fractionOf_stop (hpoint : b ≠ '.') (hdigit : b.isDigit = false) (a rest : List Char) :
    fractionOf (a ++ b :: rest) = fractionOf a := by
  cases a with
  | nil => exact fractionOf_of_ne hpoint rest
  | cons d a =>
    by_cases hd : d = '.'
    · subst hd
      exact takeWhile_stop hdigit a rest
    · rw [List.cons_append, fractionOf_of_ne hd, fractionOf_of_ne hd]

theorem number_stop (hpoint : b ≠ '.') (hdigit : b.isDigit = false) (c : Char)
    (a rest : List Char) : number c (a ++ b :: rest) = number c a := by
  have hwhole := takeWhile_stop (p := Char.isDigit) hdigit a rest
  have hrest := dropWhile_stop (p := Char.isDigit) hdigit a rest
  simp only [number, hwhole, hrest, fractionOf_stop hpoint hdigit]

theorem name_stop (hb : continuesName b = false) (c : Char) (a rest : List Char) :
    name c (a ++ b :: rest) = name c a := by
  have hchars := takeWhile_stop (p := continuesName) hb a rest
  simp only [name, hchars]

/-- No lexeme but a string goes on with the character, and no comment begins with it. -/
def Stops (b : Char) : Prop :=
  b ≠ '=' ∧ b ≠ '/' ∧ b ≠ '.' ∧ b.isDigit = false ∧ continuesName b = false

instance (b : Char) : Decidable (Stops b) :=
  inferInstanceAs (Decidable (_ ∧ _ ∧ _ ∧ _ ∧ _))

theorem stops_of_mem_blanks (hb : b ∈ blanks) : Stops b := by
  simp only [blanks, List.mem_cons, List.not_mem_nil, or_false] at hb
  obtain rfl | rfl | rfl | rfl := hb <;> decide

/-- What follows such a character does not change the piece in front of it, unless that is the
beginning of a string, or of a comment that the character does not end. -/
theorem first_stop (hb : Stops b) (c : Char) (a rest : List Char)
    (hstring : (first c a).content ≠ .flaw .unterminatedString)
    (hcomment : b = '\n' ∨ (first c a).content ≠ .comment) :
    first c (a ++ b :: rest) = first c a := by
  obtain ⟨hequal, hslash, hpoint, hdigit, hname⟩ := hb
  unfold first at hstring hcomment ⊢
  split
  -- Numbers and names come last, because what begins them is not a fixed character.
  all_goals first
    | rfl
    | exact withEqual_stop hequal _ a rest _ _
    | exact slash_stop hslash a rest hcomment
    | exact string_append _ hstring
    | skip
  rw [number_stop hpoint hdigit, name_stop hname]

/-- What follows a blank does not change the piece in front of it, unless that is the beginning of
a string, or of a comment that the blank does not end. -/
theorem first_blank (hb : b ∈ blanks) (c : Char) (a rest : List Char)
    (hstring : (first c a).content ≠ .flaw .unterminatedString)
    (hcomment : b = '\n' ∨ (first c a).content ≠ .comment) :
    first c (a ++ b :: rest) = first c a :=
  first_stop (stops_of_mem_blanks hb) c a rest hstring hcomment

/-- What follows a line end does not change the piece at the front of a line, unless that is the
beginning of a string. -/
theorem first_newline (c : Char) (a b : List Char)
    (h : (first c a).content ≠ .flaw .unterminatedString) :
    first c (a ++ '\n' :: b) = first c a :=
  first_blank (by decide) c a b h (.inl rfl)

theorem more_le_length (c : Char) (a : List Char) : (first c a).more ≤ a.length := by
  obtain ⟨tail, htail, hprefix⟩ := fits_first c a
  have hmore : (first c a).more = tail.length := by simp [more, htail]
  rw [hmore]
  exact hprefix.length_le

/-- A piece that is a line end. -/
def lineEnd : Piece := ⟨['\n'], .blank⟩

end Piece

/-! ## All pieces of a text -/

/-- The text does not end inside a string. -/
def StringsClosed (source : List Char) : Prop :=
  ∀ p ∈ pieces source, p.content ≠ .flaw .unterminatedString

/-- The pieces of a text in front of a line end and more text. -/
theorem pieces_newline (a b : List Char) (h : StringsClosed a) :
    pieces (a ++ '\n' :: b) = pieces a ++ Piece.lineEnd :: pieces b := by
  fun_induction pieces a with
  | case1 => rw [List.nil_append, pieces]; rfl
  | case2 c rest ih =>
    rw [StringsClosed, pieces, List.forall_mem_cons] at h
    obtain ⟨hfirst, hrest⟩ := h
    rw [List.cons_append, pieces, Piece.first_newline c rest b hfirst,
      List.drop_append_of_le_length (Piece.more_le_length c rest), ih hrest]
    rfl

/-! ## Tokens without their places -/

/-- The token that a piece is, if it is one, without its place. -/
def Piece.bareToken? (p : Piece) : Option Token :=
  match p.content with
  | .token kind literal => some ⟨kind, String.ofList p.chars, literal, 0, 0⟩
  | _ => none

/-- The tokens of a text without their places. -/
def bareTokens (source : List Char) : List Token := (pieces source).filterMap Piece.bareToken?

theorem bare_placed (p : Placed) : p.token?.map Token.bare = p.piece.bareToken? := by
  obtain ⟨⟨chars, content⟩, offset, line⟩ := p
  cases content <;> rfl

theorem bare_tokens_place (offset line : Nat) (ps : List Piece) :
    ((place offset line ps).filterMap Placed.token?).map Token.bare =
      ps.filterMap Piece.bareToken? := by
  induction ps generalizing offset line with
  | nil => rfl
  | cons p ps ih =>
    have hp := bare_placed ⟨p, offset, line⟩
    rw [place, List.filterMap_cons, List.filterMap_cons, ← hp]
    cases Placed.token? ⟨p, offset, line⟩ with
    | none => exact ih _ _
    | some t => exact congrArg (t.bare :: ·) (ih _ _)

/-- A text in front of a line end and more text contributes its tokens and nothing else. -/
theorem bareTokens_newline (a b : List Char) (h : StringsClosed a) :
    bareTokens (a ++ '\n' :: b) = bareTokens a ++ bareTokens b := by
  rw [bareTokens, pieces_newline a b h, List.filterMap_append]
  rfl

/-! ## The end of the input -/

namespace Piece

/-- The piece is not a token for the end of the input. -/
def NotEnd (p : Piece) : Prop := ∀ literal, p.content ≠ .token .endOfInput literal

theorem notEnd_plain (chars : List Char) {kind : Kind} (h : kind ≠ .endOfInput) :
    NotEnd (plain chars kind) := by
  intro literal hcontent
  exact h (Content.token.inj hcontent).1

theorem notEnd_withEqual (c : Char) (rest : List Char) {short long : Kind}
    (hshort : short ≠ .endOfInput) (hlong : long ≠ .endOfInput) :
    NotEnd (withEqual c rest short long) := by
  unfold withEqual
  split
  · exact notEnd_plain _ hlong
  · exact notEnd_plain _ hshort

theorem notEnd_slash (rest : List Char) : NotEnd (slash rest) := by
  unfold slash
  split
  · exact fun _ => Content.noConfusion
  · exact notEnd_plain _ (by decide)

theorem notEnd_string (rest : List Char) : NotEnd (string rest) := by
  simp only [string]
  split
  · exact fun _ h => absurd (Content.token.inj h).1 (by decide)
  · exact fun _ => Content.noConfusion

theorem notEnd_number (c : Char) (rest : List Char) : NotEnd (number c rest) := by
  simp only [number]
  split
  · exact fun _ h => absurd (Content.token.inj h).1 (by decide)
  · exact fun _ => Content.noConfusion

theorem notEnd_name (c : Char) (rest : List Char) : NotEnd (name c rest) := by
  simp only [name]
  split
  · rename_i kind hword
    refine notEnd_plain _ ?_
    rintro rfl
    exact absurd (List.mem_of_find?_eq_some hword) (by decide)
  · exact fun _ h => absurd (Content.token.inj h).1 (by decide)

theorem notEnd_first (c : Char) (rest : List Char) : NotEnd (first c rest) := by
  unfold first
  split
  all_goals first
    | exact notEnd_plain _ (by decide)
    | exact notEnd_withEqual _ rest (by decide) (by decide)
    | exact notEnd_slash rest
    | exact notEnd_string rest
    | exact fun _ => Content.noConfusion
    | skip
  split
  · exact notEnd_number c rest
  · split
    · exact notEnd_name c rest
    · exact fun _ => Content.noConfusion

end Piece

theorem notEnd_of_mem_pieces {source : List Char} {p : Piece} (h : p ∈ pieces source) :
    p.NotEnd := by
  fun_induction pieces source with
  | case1 => exact absurd h List.not_mem_nil
  | case2 c rest ih =>
    obtain rfl | h := List.mem_cons.mp h
    · exact Piece.notEnd_first c rest
    · exact ih h

theorem piece_mem_of_mem_place {offset line : Nat} {ps : List Piece} {p : Placed}
    (h : p ∈ place offset line ps) : p.piece ∈ ps := by
  induction ps generalizing offset line with
  | nil => exact absurd h List.not_mem_nil
  | cons q ps ih =>
    obtain rfl | h := List.mem_cons.mp h
    · exact List.mem_cons_self ..
    · exact List.mem_cons_of_mem q (ih h)

theorem exists_mem_place {offset line : Nat} {ps : List Piece} {p : Piece} (h : p ∈ ps) :
    ∃ q ∈ place offset line ps, q.piece = p := by
  induction ps generalizing offset line with
  | nil => exact absurd h List.not_mem_nil
  | cons q ps ih =>
    obtain rfl | h := List.mem_cons.mp h
    · exact ⟨_, List.mem_cons_self .., rfl⟩
    · obtain ⟨r, hr, hpiece⟩ := ih h
      exact ⟨r, List.mem_cons_of_mem _ hr, hpiece⟩

/-! ## What a scan finds -/

/-- The tokens of a text, without the one for its end. -/
def innerTokens (source : List Char) : List Token :=
  (place 0 1 (pieces source)).filterMap Placed.token?

theorem scan_tokens (source : String) :
    (scan source).tokens = innerTokens source.toList ++ [endOf source.toList] := rfl

theorem scan_errors (source : String) :
    (scan source).errors = (place 0 1 (pieces source.toList)).filterMap Placed.error? := rfl

theorem bare_innerTokens (source : List Char) :
    (innerTokens source).map Token.bare = bareTokens source :=
  bare_tokens_place 0 1 (pieces source)

theorem kind_innerTokens (source : List Char) :
    ∀ t ∈ innerTokens source, t.kind ≠ .endOfInput := by
  intro t ht hkind
  obtain ⟨p, hp, hpt⟩ := List.mem_filterMap.mp ht
  have hend := notEnd_of_mem_pieces (piece_mem_of_mem_place hp)
  unfold Placed.token? at hpt
  split at hpt
  · rename_i kind literal hcontent
    obtain rfl := Option.some.inj hpt
    subst hkind
    exact hend literal hcontent
  · exact absurd hpt (by simp)

/-- A flawed piece is an error. -/
theorem exists_error_of_flaw {source : String} {p : Piece} {flaw : Flaw}
    (hp : p ∈ pieces source.toList) (hflaw : p.content = .flaw flaw) :
    ∃ e ∈ (scan source).errors, e.flaw = flaw := by
  obtain ⟨q, hq, rfl⟩ := exists_mem_place hp
  have herror : q.error? = some ⟨flaw, q.offset, q.line⟩ := by rw [Placed.error?, hflaw]
  exact ⟨_, List.mem_filterMap.mpr ⟨q, hq, herror⟩, rfl⟩

/-- A text without scan errors has no flawed piece. -/
theorem not_flawed_of_errors {source : String} (h : (scan source).errors = []) {p : Piece}
    (hp : p ∈ pieces source.toList) (flaw : Flaw) : p.content ≠ .flaw flaw := by
  intro hflaw
  obtain ⟨e, he, -⟩ := exists_error_of_flaw hp hflaw
  rw [h] at he
  exact absurd he List.not_mem_nil

/-- No piece of the text is flawed. -/
def Unflawed (source : List Char) : Prop :=
  ∀ p ∈ pieces source, ∀ flaw, p.content ≠ .flaw flaw

theorem Unflawed.stringsClosed {source : List Char} (h : Unflawed source) :
    StringsClosed source :=
  fun p hp => h p hp _

theorem errors_eq_nil_iff (source : String) :
    (scan source).errors = [] ↔ Unflawed source.toList := by
  refine ⟨fun h p hp => not_flawed_of_errors h hp, fun h => ?_⟩
  refine List.filterMap_eq_nil_iff.mpr fun q hq => ?_
  have hflaw := h q.piece (piece_mem_of_mem_place hq)
  unfold Placed.error?
  split
  · exact absurd ‹_› (hflaw _)
  · rfl

theorem unflawed_newline {a : List Char} (b : List Char) (h : StringsClosed a) :
    Unflawed (a ++ '\n' :: b) ↔ Unflawed a ∧ Unflawed b := by
  have hend : ∀ flaw, Piece.lineEnd.content ≠ .flaw flaw := fun _ => Content.noConfusion
  rw [Unflawed, pieces_newline a b h, List.forall_mem_append, List.forall_mem_cons]
  exact and_congr_right fun _ => and_iff_right hend

/-! ## Blank texts -/

theorem isBlank_toNat {c : Char} (h : Text.isBlank c = true) :
    c.toNat ≤ 0x20 ∨ 0x85 ≤ c.toNat := by
  simp only [Text.isBlank, Bool.or_eq_true, Bool.and_eq_true, decide_eq_true_eq, beq_iff_eq] at h
  omega

theorem not_between_of_isBlank {c : Char} (h : Text.isBlank c = true) {lo hi : Char}
    (hlo : 0x20 < lo.val.toNat) (hhi : hi.val.toNat < 0x85) :
    (decide (c.val ≥ lo.val) && decide (c.val ≤ hi.val)) = false := by
  have hnat := isBlank_toNat h
  have hval : c.val.toNat = c.toNat := rfl
  simp only [Bool.and_eq_false_iff, decide_eq_false_iff_not, UInt32.le_iff_toNat_le, ge_iff_le]
  omega

theorem startsName_of_isBlank {c : Char} (h : Text.isBlank c = true) : startsName c = false := by
  have hupper : c.isUpper = false := by
    have hrange : c.isUpper = decide (c.val ≥ 'A'.val ∧ c.val ≤ 'Z'.val) := rfl
    rw [hrange, Bool.decide_and]
    exact not_between_of_isBlank h (by decide) (by decide)
  have hlower : c.isLower = false := not_between_of_isBlank h (by decide) (by decide)
  have hline : c ≠ '_' := by
    rintro rfl
    exact absurd h (by decide)
  have halpha : c.isAlpha = (c.isUpper || c.isLower) := rfl
  rw [startsName, halpha, hupper, hlower, beq_eq_false_iff_ne.mpr hline]
  rfl

/-- A blank character is a piece of its own and not a token. -/
theorem first_of_isBlank {c : Char} (h : Text.isBlank c = true) (rest : List Char) :
    Piece.first c rest = ⟨[c], .blank⟩ ∨
      Piece.first c rest = ⟨[c], .flaw (.unexpectedCharacter c)⟩ := by
  unfold Piece.first
  split
  all_goals first
    | exact absurd h (by decide)
    | exact .inl rfl
    | skip
  have hdigit : c.isDigit = false := not_between_of_isBlank h (by decide) (by decide)
  rw [hdigit, startsName_of_isBlank h]
  exact .inr rfl

theorem pieces_of_isBlank {source : List Char} (h : ∀ c ∈ source, Text.isBlank c = true) {p : Piece}
    (hp : p ∈ pieces source) :
    p.content = .blank ∨ ∃ c, p.content = .flaw (.unexpectedCharacter c) := by
  fun_induction pieces source with
  | case1 => exact absurd hp List.not_mem_nil
  | case2 c rest ih =>
    have hfirst := first_of_isBlank (h c (List.mem_cons_self ..)) rest
    obtain rfl | hp := List.mem_cons.mp hp
    · obtain heq | heq := hfirst
      · exact .inl (by rw [heq])
      · exact .inr ⟨c, by rw [heq]⟩
    · exact ih (fun d hd => h d (List.mem_cons_of_mem c (List.mem_of_mem_drop hd))) hp

theorem stringsClosed_of_isBlank {source : List Char}
    (h : ∀ c ∈ source, Text.isBlank c = true) : StringsClosed source := by
  intro p hp hflaw
  obtain hblank | ⟨c, hc⟩ := pieces_of_isBlank h hp
  · rw [hblank] at hflaw
    cases hflaw
  · rw [hc] at hflaw
    cases hflaw

theorem bareTokens_of_isBlank {source : List Char} (h : ∀ c ∈ source, Text.isBlank c = true) :
    bareTokens source = [] := by
  refine List.filterMap_eq_nil_iff.mpr fun p hp => ?_
  obtain hblank | ⟨c, hflaw⟩ := pieces_of_isBlank h hp
  · rw [Piece.bareToken?, hblank]
  · rw [Piece.bareToken?, hflaw]

end Lox.Token

import Lox.Proofs.Number.Plain
import Lox.Token.Scan

/-!
# The lexical grammar

`Lexeme w content` says that the text `w` as a whole is a lexeme, and of which token.  The grammar
knows nothing of what stands around a text.  `Cut source p` says what the piece at the front of a
source is: a blank, a comment up to the end of its line, the longest lexeme that stands there, or a
flaw.  There is always exactly one such piece, and it is the one that `Piece.first` finds
(`cut_iff`).

The marks, the reserved words and the characters of names are spelled out here.  That the scanner
has the same ones is shown below (`reservedWords_eq`, `startsName_iff`).
-/

namespace Lox.Token

open Number (Numeral)
open Text.Quoted (quotationMark)

/-! ## Lexemes -/

/-- Operators and other marks, with the kinds of their tokens. -/
def marks : List (String × Kind) :=
  [("(", .leftParen), (")", .rightParen), ("\x7b", .leftBrace), ("\x7d", .rightBrace),
    (",", .comma), (".", .dot), ("-", .minus), ("+", .plus), (";", .semicolon), ("/", .slash),
    ("*", .star), ("!", .bang), ("!=", .bangEqual), ("=", .equal), ("==", .equalEqual),
    (">", .greater), (">=", .greaterEqual), ("<", .less), ("<=", .lessEqual)]

/-- The reserved words, with the kinds of their tokens. -/
def reservedWords : List (String × Kind) :=
  [("and", .andWord), ("class", .classWord), ("else", .elseWord), ("false", .falseWord),
    ("fun", .funWord), ("for", .forWord), ("if", .ifWord), ("nil", .nilWord), ("or", .orWord),
    ("print", .printWord), ("return", .returnWord), ("super", .superWord), ("this", .thisWord),
    ("true", .trueWord), ("var", .varWord), ("while", .whileWord)]

/-- The characters that names begin with. -/
def NameStart (c : Char) : Prop := 'a' ≤ c ∧ c ≤ 'z' ∨ 'A' ≤ c ∧ c ≤ 'Z' ∨ c = '_'

/-- The characters that marks begin with. -/
def markStarts : List Char :=
  ['(', ')', '\x7b', '\x7d', ',', '.', '-', '+', ';', '/', '*', '!', '=', '>', '<']

/-- A text that is a lexeme as a whole, with what it is.  A numeral too large for a double is a
lexeme too, but no token. -/
inductive Lexeme : List Char → Content → Prop
  | mark {s : String} {k : Kind} (h : (s, k) ∈ marks) : Lexeme s.toList (.token k none)
  | word {s : String} {k : Kind} (h : (s, k) ∈ reservedWords) : Lexeme s.toList (.token k none)
  | name {c : Char} {w : List Char} (hc : NameStart c)
      (hw : ∀ d ∈ w, NameStart d ∨ d.isDigit = true)
      (hword : ∀ k, (String.ofList (c :: w), k) ∉ reservedWords) :
      Lexeme (c :: w) (.token .identifier (some (.text (String.ofList (c :: w)))))
  | string {body : List Char} (h : quotationMark ∉ body) :
      Lexeme (quotationMark :: body ++ [quotationMark])
        (.token .string (some (.text (String.ofList body))))
  | number {whole fraction : List Char} {x : Float} (hne : whole ≠ [])
      (hwhole : ∀ c ∈ whole, c.isDigit = true) (hfraction : ∀ c ∈ fraction, c.isDigit = true)
      (hvalue : Numeral.read (String.ofList (Numeral.plain whole fraction)) = .value x) :
      Lexeme (Numeral.plain whole fraction) (.token .number (some (.number x)))
  | invalidNumber {whole fraction : List Char} (hne : whole ≠ [])
      (hwhole : ∀ c ∈ whole, c.isDigit = true) (hfraction : ∀ c ∈ fraction, c.isDigit = true)
      (hvalue : ∀ x, Numeral.read (String.ofList (Numeral.plain whole fraction)) ≠ .value x) :
      Lexeme (Numeral.plain whole fraction)
        (.flaw (.invalidNumber (String.ofList (Numeral.plain whole fraction))))

/-- The lexeme `w` stands at the front of a source, and no longer one does. -/
structure Longest (source w : List Char) (content : Content) : Prop where
  lexeme : Lexeme w content
  isPrefix : w <+: source
  length_le : ∀ v content', Lexeme v content' → v <+: source → v.length ≤ w.length

/-- The characters that are pieces of their own and mean nothing. -/
def blanks : List Char := [' ', '\t', '\r', '\n']

/-- What the piece at the front of a source is. -/
inductive Cut : List Char → Piece → Prop
  | blank {c : Char} {rest : List Char} (h : c ∈ blanks) : Cut (c :: rest) ⟨[c], .blank⟩
  | comment {body rest : List Char} (hbody : '\n' ∉ body)
      (hrest : ∀ c ∈ rest.head?, c = '\n') :
      Cut ('/' :: '/' :: body ++ rest) ⟨'/' :: '/' :: body, .comment⟩
  | lexeme {source w : List Char} {content : Content} (hcomment : ¬['/', '/'] <+: source)
      (h : Longest source w content) : Cut source ⟨w, content⟩
  | unterminated {body : List Char} (h : quotationMark ∉ body) :
      Cut (quotationMark :: body) ⟨quotationMark :: body, .flaw .unterminatedString⟩
  | unexpected {c : Char} {rest : List Char} (hblank : c ∉ blanks) (hquote : c ≠ quotationMark)
      (h : ∀ v content, Lexeme v content → ¬v <+: c :: rest) :
      Cut (c :: rest) ⟨[c], .flaw (.unexpectedCharacter c)⟩

/-! ## Words and names of the scanner -/

/-- The scanner has the same reserved words. -/
theorem reservedWords_eq : reservedWords = Kind.words.map fun k => (k.name, k) := rfl

theorem mem_reservedWords_iff {s : String} {k : Kind} :
    (s, k) ∈ reservedWords ↔ k ∈ Kind.words ∧ k.name = s := by
  rw [reservedWords_eq, List.mem_map]
  constructor
  · rintro ⟨k', hk, heq⟩
    obtain ⟨rfl, rfl⟩ := Prod.mk.inj heq
    exact ⟨hk, rfl⟩
  · rintro ⟨hk, rfl⟩
    exact ⟨k, hk, rfl⟩

theorem ofWord?_eq_some_iff {s : String} {k : Kind} :
    Kind.ofWord? s = some k ↔ (s, k) ∈ reservedWords := by
  have hall : ∀ k ∈ Kind.words, Kind.ofWord? k.name = some k := by decide
  rw [mem_reservedWords_iff]
  constructor
  · intro h
    have hname : (k.name == s) = true := List.find?_some (p := fun k : Kind => k.name == s) h
    exact ⟨List.mem_of_find?_eq_some h, eq_of_beq hname⟩
  · rintro ⟨hk, rfl⟩
    exact hall k hk

/-- Names begin with the same characters for the scanner. -/
theorem startsName_iff {c : Char} : startsName c = true ↔ NameStart c := by
  have hstarts : startsName c = (decide (c.val ≥ 'A'.val ∧ c.val ≤ 'Z'.val) ||
      (decide (c.val ≥ 'a'.val) && decide (c.val ≤ 'z'.val)) || c == '_') := rfl
  simp only [hstarts, Bool.or_eq_true, Bool.and_eq_true, decide_eq_true_eq, beq_iff_eq, ge_iff_le,
    NameStart, Char.le_def]
  exact or_assoc.trans or_left_comm

theorem continuesName_iff {c : Char} :
    continuesName c = true ↔ NameStart c ∨ c.isDigit = true := by
  rw [continuesName, Bool.or_eq_true, startsName_iff]

/-! ## The piece at the front -/

theorem isDigit_of_startsName {c : Char} (h : startsName c = true) : c.isDigit = false := by
  refine Bool.eq_false_iff.mpr fun hdigit => ?_
  have hstart := startsName_iff.mp h
  simp only [NameStart, Char.le_def, Char.isDigit, Bool.and_eq_true, decide_eq_true_eq,
    UInt32.le_iff_toNat_le, ge_iff_le] at hstart hdigit
  have h9 : '9'.val.toNat = 57 := rfl
  have hA : 'A'.val.toNat = 65 := rfl
  have ha : 'a'.val.toNat = 97 := rfl
  obtain ⟨hlow, -⟩ | ⟨hlow, -⟩ | rfl := hstart
  · omega
  · omega
  · exact absurd hdigit (by decide)

namespace Piece

theorem first_of_isDigit {c : Char} (h : c.isDigit = true) (rest : List Char) :
    first c rest = number c rest := by
  unfold first
  split
  all_goals first
    | exact absurd h (by decide)
    | rw [if_pos h]

theorem first_of_startsName {c : Char} (h : startsName c = true) (rest : List Char) :
    first c rest = name c rest := by
  unfold first
  split
  all_goals first
    | exact absurd h (by decide)
    | rw [if_neg (Bool.eq_false_iff.mp (isDigit_of_startsName h)), if_pos h]

theorem length_pos (c : Char) (rest : List Char) : 0 < (first c rest).chars.length := by
  obtain ⟨tail, htail, -⟩ := fits_first c rest
  rw [htail]
  exact Nat.succ_pos _

theorem first_prefix (c : Char) (rest : List Char) : (first c rest).chars <+: c :: rest := by
  obtain ⟨tail, htail, hprefix⟩ := fits_first c rest
  rw [htail]
  exact List.cons_prefix_cons.mpr ⟨rfl, hprefix⟩

end Piece

/-- Characters of one class at the front of a text are part of the longest such run. -/
theorem prefix_takeWhile {p : Char → Bool} {v l : List Char} (hv : ∀ c ∈ v, p c = true)
    (h : v <+: l) : v <+: l.takeWhile p := by
  obtain ⟨t, rfl⟩ := h
  rw [List.takeWhile_append_of_pos hv]
  exact List.prefix_append v _

section UpTo

/- A text up to the first place where a character stands. -/
variable {c : Char} {w : List Char}

theorem all_bne_of_not_mem (h : c ∉ w) : ∀ d ∈ w, (d != c) = true :=
  fun _ hd => bne_iff_ne.mpr fun heq => h (heq ▸ hd)

theorem not_mem_takeWhile_bne (c : Char) (w : List Char) : c ∉ w.takeWhile (· != c) := by
  intro hmem
  have hne : (c != c) = true := List.mem_takeWhile_imp (p := (· != c)) hmem
  exact bne_iff_ne.mp hne rfl

theorem takeWhile_bne_append (h : c ∉ w) (rest : List Char) :
    (w ++ c :: rest).takeWhile (· != c) = w := by
  rw [List.takeWhile_append_of_pos (all_bne_of_not_mem h), List.takeWhile_cons_of_neg (by simp),
    List.append_nil]

end UpTo

namespace Lexeme

variable {w : List Char} {content : Content}

/-- Reserved words are spelled like names. -/
theorem name_of_word {s : String} {k : Kind} (h : (s, k) ∈ reservedWords) :
    ∃ c w, s.toList = c :: w ∧ startsName c = true ∧ ∀ d ∈ w, continuesName d = true := by
  have hall : ∀ p ∈ reservedWords, (p.1.toList.head?.map startsName).getD false = true ∧
      p.1.toList.all continuesName = true := by decide
  obtain ⟨hhead, hmem⟩ := hall _ h
  dsimp only at hhead hmem
  cases hname : s.toList with
  | nil => simp [hname] at hhead
  | cons c w =>
    rw [hname] at hhead hmem
    exact ⟨c, w, rfl, hhead, fun d hd => List.all_eq_true.mp hmem d (List.mem_cons_of_mem c hd)⟩

/-- A mark has one character, or a second one that is an equals sign. -/
theorem length_mark_le {s : String} {k : Kind} (hk : (s, k) ∈ marks) {c : Char}
    {rest : List Char} (h : s.toList <+: c :: rest) :
    s.toList.length ≤ (Piece.first c rest).chars.length := by
  have hforms : ∀ p ∈ marks, p.1.toList.length = 1 ∨
      p.1.toList ∈ ['!', '=', '<', '>'].map fun a => [a, '='] := by decide
  obtain hone | htwo := hforms _ hk
  · rw [hone]
    exact Piece.length_pos c rest
  · obtain ⟨a, ha, htwo⟩ := List.mem_map.mp htwo
    rw [← htwo] at h ⊢
    obtain ⟨rfl, hrest⟩ := List.cons_prefix_cons.mp h
    obtain ⟨tail, rfl⟩ := hrest
    simp only [List.mem_cons, List.not_mem_nil, or_false] at ha
    obtain rfl | rfl | rfl | rfl := ha <;> exact Nat.le_refl 2

theorem length_name_le {c : Char} {w rest : List Char} (hc : startsName c = true)
    (hw : ∀ d ∈ w, continuesName d = true) (h : w <+: rest) :
    (c :: w).length ≤ (Piece.first c rest).chars.length := by
  have hchars : (Piece.name c rest).chars = c :: rest.takeWhile continuesName := by
    simp only [Piece.name]
    split <;> rfl
  rw [Piece.first_of_startsName hc, hchars]
  exact Nat.succ_le_succ (prefix_takeWhile hw h).length_le

/-- A string ends at the first quotation mark behind the one that begins it. -/
theorem length_string_le {body rest : List Char} (hbody : quotationMark ∉ body)
    (h : body ++ [quotationMark] <+: rest) :
    (quotationMark :: body ++ [quotationMark]).length ≤
      (Piece.first quotationMark rest).chars.length := by
  obtain ⟨t, rfl⟩ := h
  have hlong : body ++ [quotationMark] <+: body ++ [quotationMark] ++ t := List.prefix_append _ t
  have htake : (body ++ [quotationMark] ++ t).takeWhile (· != quotationMark) = body := by
    rw [List.append_assoc, List.singleton_append, takeWhile_bne_append hbody]
  have hstring : Piece.first quotationMark (body ++ [quotationMark] ++ t) =
      Piece.string (body ++ [quotationMark] ++ t) := rfl
  rw [hstring, Piece.string]
  simp only [htake]
  split
  · exact Nat.le_refl _
  · exact Nat.succ_le_succ hlong.length_le

theorem chars_number (c : Char) (rest : List Char) :
    (Piece.number c rest).chars = Numeral.plain (c :: rest.takeWhile Char.isDigit)
      (Piece.fractionOf (rest.dropWhile Char.isDigit)) := by
  simp only [Piece.number, Numeral.plain]
  split <;> rfl

theorem length_plain_le {whole whole' fraction : List Char} (h : whole.length ≤ whole'.length) :
    whole.length ≤ (Numeral.plain whole' fraction).length := by
  unfold Numeral.plain
  split
  · exact h
  · rw [List.length_append]
    exact Nat.le_trans h (Nat.le_add_right _ _)

/-- A number takes all digits, and a point only with the digits behind it. -/
theorem length_number_le {c : Char} {rest whole fraction : List Char} (hne : whole ≠ [])
    (hwhole : ∀ c ∈ whole, c.isDigit = true) (hfraction : ∀ c ∈ fraction, c.isDigit = true)
    (h : Numeral.plain whole fraction <+: c :: rest) :
    (Numeral.plain whole fraction).length ≤ (Piece.first c rest).chars.length := by
  obtain ⟨d, digits, rfl⟩ := List.exists_cons_of_ne_nil hne
  obtain ⟨hd, hdigits⟩ := List.forall_mem_cons.mp hwhole
  cases fraction with
  | nil =>
    have hplain : Numeral.plain (d :: digits) [] = d :: digits := rfl
    rw [hplain] at h ⊢
    obtain ⟨rfl, hrest⟩ := List.cons_prefix_cons.mp h
    rw [Piece.first_of_isDigit hd, chars_number]
    exact length_plain_le (Nat.succ_le_succ (prefix_takeWhile hdigits hrest).length_le)
  | cons f fs =>
    have hplain : Numeral.plain (d :: digits) (f :: fs) = d :: (digits ++ '.' :: f :: fs) := rfl
    rw [hplain] at h ⊢
    obtain ⟨rfl, t, rfl⟩ := List.cons_prefix_cons.mp h
    have hpoint : ¬ '.'.isDigit = true := by decide
    -- The digits in front of the point are all there are, and so the point is looked at.
    have htake : (digits ++ '.' :: f :: fs ++ t).takeWhile Char.isDigit = digits := by
      rw [List.append_assoc, List.takeWhile_append_of_pos hdigits, List.cons_append,
        List.takeWhile_cons_of_neg hpoint, List.append_nil]
    have hdrop : (digits ++ '.' :: f :: fs ++ t).dropWhile Char.isDigit =
        '.' :: f :: (fs ++ t) := by
      rw [List.append_assoc, List.dropWhile_append_of_pos hdigits, List.cons_append,
        List.dropWhile_cons_of_neg hpoint]
      rfl
    have hmore : f :: fs <+: (f :: (fs ++ t)).takeWhile Char.isDigit :=
      prefix_takeWhile hfraction (List.prefix_append (f :: fs) t)
    have hfractionOf : Piece.fractionOf ('.' :: f :: (fs ++ t)) =
        (f :: (fs ++ t)).takeWhile Char.isDigit := rfl
    rw [Piece.first_of_isDigit hd, chars_number, htake, hdrop, hfractionOf]
    obtain ⟨u, hu⟩ := hmore
    rw [← hu]
    simp only [Numeral.plain, List.cons_append, List.isEmpty_cons, Bool.false_eq_true, if_false,
      List.length_cons, List.length_append]
    omega

/-- No lexeme at the front of a source is longer than the piece there. -/
theorem length_le_first {c : Char} {rest : List Char} (hw : Lexeme w content)
    (h : w <+: c :: rest) : w.length ≤ (Piece.first c rest).chars.length := by
  cases hw with
  | mark hk => exact length_mark_le hk h
  | word hk =>
    obtain ⟨d, v, hname, hd, hv⟩ := name_of_word hk
    rw [hname] at h ⊢
    obtain ⟨rfl, hrest⟩ := List.cons_prefix_cons.mp h
    exact length_name_le hd hv hrest
  | name hd hv _ =>
    obtain ⟨rfl, hrest⟩ := List.cons_prefix_cons.mp h
    exact length_name_le (startsName_iff.mpr hd) (fun e he => continuesName_iff.mpr (hv e he))
      hrest
  | string hbody =>
    obtain ⟨rfl, hrest⟩ := List.cons_prefix_cons.mp h
    exact length_string_le hbody hrest
  | number hne hwhole hfraction _ => exact length_number_le hne hwhole hfraction h
  | invalidNumber hne hwhole hfraction _ => exact length_number_le hne hwhole hfraction h

/-- A lexeme begins with a digit, the beginning of a name, a quotation mark or that of a mark. -/
theorem head_cases (h : Lexeme w content) : ∃ c v, w = c :: v ∧
    (c.isDigit = true ∨ startsName c = true ∨ c = quotationMark ∨ c ∈ markStarts) := by
  cases h with
  | @mark s k hk =>
    have hstarts : ∀ p ∈ marks,
        (p.1.toList.head?.map markStarts.contains).getD false = true := by decide
    have hhead := hstarts _ hk
    dsimp only at hhead
    cases hname : s.toList with
    | nil => simp [hname] at hhead
    | cons c v =>
      rw [hname] at hhead
      exact ⟨c, v, rfl, .inr (.inr (.inr (List.contains_iff_mem.mp hhead)))⟩
  | word hk =>
    obtain ⟨c, v, hname, hc, -⟩ := name_of_word hk
    exact ⟨c, v, hname, .inr (.inl hc)⟩
  | name hc _ _ => exact ⟨_, _, rfl, .inr (.inl (startsName_iff.mpr hc))⟩
  | string _ => exact ⟨_, _, rfl, .inr (.inr (.inl rfl))⟩
  | @number whole fraction _ hne hwhole _ _ | @invalidNumber whole fraction hne hwhole _ _ =>
    obtain ⟨c, digits, rfl⟩ := List.exists_cons_of_ne_nil hne
    obtain ⟨v, hv⟩ : ∃ v, Numeral.plain (c :: digits) fraction = c :: v := by
      unfold Numeral.plain
      split <;> exact ⟨_, rfl⟩
    exact ⟨c, v, hv, .inl (hwhole c (List.mem_cons_self ..))⟩

end Lexeme

/-! ## Cutting -/

namespace Piece

theorem lexeme_plain {chars : List Char} {k : Kind} (hk : (String.ofList chars, k) ∈ marks) :
    Lexeme (plain chars k).chars (plain chars k).content := by
  have hmark := Lexeme.mark hk
  rwa [String.toList_ofList] at hmark

theorem lexeme_withEqual {c : Char} {short long : Kind}
    (hshort : (String.ofList [c], short) ∈ marks)
    (hlong : (String.ofList [c, '='], long) ∈ marks) (rest : List Char) :
    Lexeme (withEqual c rest short long).chars (withEqual c rest short long).content := by
  unfold withEqual
  split
  · exact lexeme_plain hlong
  · exact lexeme_plain hshort

theorem lexeme_number {c : Char} (h : c.isDigit = true) (rest : List Char) :
    Lexeme (number c rest).chars (number c rest).content := by
  have hwhole : ∀ d ∈ c :: rest.takeWhile Char.isDigit, d.isDigit = true :=
    List.forall_mem_cons.mpr ⟨h, fun _ hd => List.mem_takeWhile_imp hd⟩
  have hfraction : ∀ d ∈ fractionOf (rest.dropWhile Char.isDigit), d.isDigit = true := by
    unfold fractionOf
    split
    · exact fun _ hd => List.mem_takeWhile_imp hd
    · exact fun _ hd => absurd hd List.not_mem_nil
  have hne := List.cons_ne_nil c (rest.takeWhile Char.isDigit)
  have hread := Numeral.read_plain hwhole hne hfraction
  rw [Lexeme.chars_number]
  simp only [number]
  split
  · rename_i x hx
    exact .number hne hwhole hfraction (hread.trans hx)
  · rename_i hx
    exact .invalidNumber hne hwhole hfraction fun x hvalue => hx x (hread.symm.trans hvalue)

theorem lexeme_name {c : Char} (h : startsName c = true) (rest : List Char) :
    Lexeme (name c rest).chars (name c rest).content := by
  simp only [name]
  split
  · rename_i k hk
    have hword := Lexeme.word (ofWord?_eq_some_iff.mp hk)
    rwa [String.toList_ofList] at hword
  · rename_i hnone
    refine .name (startsName_iff.mp h)
      (fun _ hd => continuesName_iff.mp (List.mem_takeWhile_imp hd)) fun k hk => ?_
    rw [ofWord?_eq_some_iff.mpr hk] at hnone
    cases hnone

/-- A lexeme that is the piece at the front of a source is the longest one there. -/
theorem cut_of_lexeme {c : Char} {rest : List Char} (hcomment : ¬['/', '/'] <+: c :: rest)
    (h : Lexeme (first c rest).chars (first c rest).content) : Cut (c :: rest) (first c rest) :=
  .lexeme hcomment ⟨h, first_prefix c rest, fun _ _ hv hprefix => hv.length_le_first hprefix⟩

theorem cut_slash (rest : List Char) : Cut ('/' :: rest) (slash rest) := by
  unfold slash
  split
  · rename_i r
    have hrest : ∀ c ∈ (r.dropWhile (· != '\n')).head?, c = '\n' := by
      intro c hc
      have hnot := List.head?_dropWhile_not (· != '\n') r
      rw [hc] at hnot
      simpa using hnot
    have hcut := Cut.comment (not_mem_takeWhile_bne '\n' r) hrest
    rwa [List.cons_append, List.cons_append, List.takeWhile_append_dropWhile] at hcut
  · rename_i hother
    have hslash : first '/' rest = plain ['/'] .slash := by
      show slash rest = _
      unfold slash
      split
      · exact absurd rfl (hother _)
      · rfl
    have hcomment : ¬['/', '/'] <+: '/' :: rest := by
      intro h
      obtain ⟨-, t, ht⟩ := List.cons_prefix_cons.mp h
      exact hother t ht.symm
    rw [← hslash]
    refine cut_of_lexeme hcomment ?_
    rw [hslash]
    exact lexeme_plain (by decide)

theorem not_prefix_slashes {c : Char} (h : c ≠ '/') (rest : List Char) :
    ¬['/', '/'] <+: c :: rest :=
  fun hprefix => h (List.cons_prefix_cons.mp hprefix).1.symm

theorem cut_string (rest : List Char) : Cut (quotationMark :: rest) (string rest) := by
  by_cases hlt : (rest.takeWhile (· != quotationMark)).length < rest.length
  · refine cut_of_lexeme (not_prefix_slashes (by decide) rest) ?_
    show Lexeme (string rest).chars (string rest).content
    simp only [string, if_pos hlt]
    exact .string (not_mem_takeWhile_bne quotationMark rest)
  · have htake : rest.takeWhile (· != quotationMark) = rest :=
      (List.takeWhile_prefix _).eq_of_length_le (Nat.le_of_not_lt hlt)
    have hrest : quotationMark ∉ rest := htake ▸ not_mem_takeWhile_bne quotationMark rest
    simp only [string, if_neg hlt]
    exact .unterminated hrest

/-- What is found at the front of a source is the piece there. -/
theorem cut_first (c : Char) (rest : List Char) : Cut (c :: rest) (first c rest) := by
  by_cases hslash : c = '/'
  · subst hslash
    exact cut_slash rest
  by_cases hquote : c = quotationMark
  · subst hquote
    exact cut_string rest
  by_cases hblank : c ∈ blanks
  · have hfirst : first c rest = ⟨[c], .blank⟩ := by
      simp only [blanks, List.mem_cons, List.not_mem_nil, or_false] at hblank
      obtain rfl | rfl | rfl | rfl := hblank <;> rfl
    rw [hfirst]
    exact .blank hblank
  have hcomment := not_prefix_slashes hslash rest
  by_cases hdigit : c.isDigit = true
  · refine cut_of_lexeme hcomment ?_
    rw [first_of_isDigit hdigit]
    exact lexeme_number hdigit rest
  by_cases hname : startsName c = true
  · refine cut_of_lexeme hcomment ?_
    rw [first_of_startsName hname]
    exact lexeme_name hname rest
  by_cases hmark : c ∈ markStarts
  · refine cut_of_lexeme hcomment ?_
    simp only [markStarts, List.mem_cons, List.not_mem_nil, or_false] at hmark
    obtain rfl | rfl | rfl | rfl | rfl | rfl | rfl | rfl | rfl | rfl | rfl | rfl | rfl | rfl |
      rfl := hmark
    all_goals first
      | exact absurd rfl hslash
      | exact lexeme_plain (by decide)
      | exact lexeme_withEqual (by decide) (by decide) rest
  · have hfirst : first c rest = ⟨[c], .flaw (.unexpectedCharacter c)⟩ := by
      unfold first
      split
      all_goals first
        | exact absurd (by decide) hmark
        | exact absurd (by decide) hblank
        | exact absurd rfl hquote
        | rw [if_neg hdigit, if_neg hname]
    rw [hfirst]
    refine .unexpected hblank hquote fun v content hv hprefix => ?_
    obtain ⟨d, tail, rfl, hhead⟩ := hv.head_cases
    obtain ⟨rfl, -⟩ := List.cons_prefix_cons.mp hprefix
    obtain h | h | h | h := hhead
    · exact hdigit h
    · exact hname h
    · exact hquote h
    · exact hmark h

end Piece

/-! ## Every cut is the one that is found -/

namespace Lexeme

variable {c : Char} {w : List Char} {content : Content}

theorem not_blank (h : Lexeme (c :: w) content) : c ∉ blanks := by
  obtain ⟨d, v, hcons, hhead⟩ := h.head_cases
  obtain ⟨rfl, rfl⟩ := List.cons.inj hcons
  intro hblank
  simp only [blanks, List.mem_cons, List.not_mem_nil, or_false] at hblank
  obtain rfl | rfl | rfl | rfl := hblank <;> exact absurd hhead (by decide)

theorem ne_unterminated (h : Lexeme w content) : content ≠ .flaw .unterminatedString := by
  cases h <;> nofun

theorem first_mark {s : String} {k : Kind} (hk : (s, k) ∈ marks) :
    ∃ c w, s.toList = c :: w ∧ Piece.first c w = ⟨c :: w, .token k none⟩ := by
  simp only [marks, List.mem_cons, List.not_mem_nil, or_false, Prod.mk.injEq] at hk
  obtain h | h | h | h | h | h | h | h | h | h | h | h | h | h | h | h | h | h | h := hk
  all_goals
    obtain ⟨rfl, rfl⟩ := h
    exact ⟨_, _, rfl, rfl⟩

theorem first_name (hc : startsName c = true) (hw : ∀ d ∈ w, continuesName d = true) :
    Piece.first c w = match Kind.ofWord? (String.ofList (c :: w)) with
      | some k => ⟨c :: w, .token k none⟩
      | none => ⟨c :: w, .token .identifier (some (.text (String.ofList (c :: w))))⟩ := by
  rw [Piece.first_of_startsName hc, Piece.name, List.takeWhile_eq_self_iff.mpr hw]
  rfl

theorem first_string {body : List Char} (h : quotationMark ∉ body) :
    Piece.first quotationMark (body ++ [quotationMark]) =
      ⟨quotationMark :: body ++ [quotationMark],
        .token .string (some (.text (String.ofList body)))⟩ := by
  have htake : (body ++ [quotationMark]).takeWhile (· != quotationMark) = body :=
    takeWhile_bne_append h []
  have hlt : body.length < (body ++ [quotationMark]).length := by
    rw [List.length_append]
    exact Nat.lt_succ_self _
  show Piece.string (body ++ [quotationMark]) = _
  simp only [Piece.string, htake, if_pos hlt]

/-- A plain numeral falls into its digits in front of the point and behind it. -/
theorem parts_of_plain {digits rest fraction : List Char} (hdigits : ∀ d ∈ digits, d.isDigit = true)
    (hfraction : ∀ d ∈ fraction, d.isDigit = true)
    (h : Numeral.plain (c :: digits) fraction = c :: rest) :
    rest.takeWhile Char.isDigit = digits ∧
      Piece.fractionOf (rest.dropWhile Char.isDigit) = fraction := by
  cases fraction with
  | nil =>
    obtain ⟨-, rfl⟩ := List.cons.inj (h : c :: digits = c :: rest)
    rw [List.takeWhile_eq_self_iff.mpr hdigits, List.dropWhile_eq_nil_iff.mpr hdigits]
    exact ⟨rfl, rfl⟩
  | cons f fs =>
    have hrest : digits ++ '.' :: f :: fs = rest := (List.cons.inj h).2
    have hpoint : ¬ '.'.isDigit = true := by decide
    rw [← hrest, List.takeWhile_append_of_pos hdigits, List.takeWhile_cons_of_neg hpoint,
      List.append_nil, List.dropWhile_append_of_pos hdigits, List.dropWhile_cons_of_neg hpoint]
    exact ⟨rfl, List.takeWhile_eq_self_iff.mpr hfraction⟩

theorem first_number {whole fraction : List Char} (hwhole : ∀ d ∈ whole, d.isDigit = true)
    (hne : whole ≠ []) (hfraction : ∀ d ∈ fraction, d.isDigit = true)
    (h : Numeral.plain whole fraction = c :: w) :
    Piece.first c w = match Numeral.read (String.ofList (c :: w)) with
      | .value x => ⟨c :: w, .token .number (some (.number x))⟩
      | _ => ⟨c :: w, .flaw (.invalidNumber (String.ofList (c :: w)))⟩ := by
  obtain ⟨d, digits, rfl⟩ := List.exists_cons_of_ne_nil hne
  have hhead : d = c := by
    unfold Numeral.plain at h
    split at h <;> exact (List.cons.inj h).1
  subst hhead
  obtain ⟨hd, hdigits⟩ := List.forall_mem_cons.mp hwhole
  obtain ⟨htake, hfractionOf⟩ := parts_of_plain hdigits hfraction h
  rw [← h, Numeral.read_plain hwhole hne hfraction, Piece.first_of_isDigit hd]
  simp only [Piece.number, htake, hfractionOf]
  rfl

/-- A lexeme on its own is read as what it is. -/
theorem first_eq {v : List Char} (h : Lexeme v content) (hv : v = c :: w) :
    Piece.first c w = ⟨v, content⟩ := by
  cases h with
  | mark hk =>
    obtain ⟨d, u, hname, hfirst⟩ := first_mark hk
    obtain ⟨rfl, rfl⟩ := List.cons.inj (hname.symm.trans hv)
    rw [hfirst, hname]
  | word hk =>
    obtain ⟨d, u, hname, hd, hu⟩ := name_of_word hk
    obtain ⟨rfl, rfl⟩ := List.cons.inj (hname.symm.trans hv)
    rw [first_name hd hu, ← hname, String.ofList_toList, ofWord?_eq_some_iff.mpr hk]
  | @name d u hd hu hword =>
    obtain ⟨rfl, rfl⟩ := List.cons.inj hv
    have hnone : Kind.ofWord? (String.ofList (d :: u)) = none :=
      Option.eq_none_iff_forall_ne_some.mpr fun k hk => hword k (ofWord?_eq_some_iff.mp hk)
    rw [first_name (startsName_iff.mpr hd) fun e he => continuesName_iff.mpr (hu e he), hnone]
  | string hbody =>
    obtain ⟨rfl, rfl⟩ := List.cons.inj hv
    exact first_string hbody
  | number hne hwhole hfraction hvalue =>
    rw [hv] at hvalue
    rw [first_number hwhole hne hfraction hv, hvalue, hv]
  | invalidNumber hne hwhole hfraction hvalue =>
    rw [hv] at hvalue
    rw [first_number hwhole hne hfraction hv, hv]
    split
    · rename_i x hx
      exact absurd hx (hvalue x)
    · rfl

end Lexeme

namespace Cut

variable {c : Char} {rest : List Char} {p : Piece}

theorem first_comment {body rest : List Char} (hbody : '\n' ∉ body)
    (hrest : ∀ c ∈ rest.head?, c = '\n') :
    Piece.first '/' ('/' :: body ++ rest) = ⟨'/' :: '/' :: body, .comment⟩ := by
  have hall : ∀ c ∈ '/' :: body, (c != '\n') = true :=
    List.forall_mem_cons.mpr ⟨by decide, all_bne_of_not_mem hbody⟩
  have htake : rest.takeWhile (· != '\n') = [] := by
    cases rest with
    | nil => rfl
    | cons c rest =>
      obtain rfl := hrest c rfl
      rfl
  show (⟨'/' :: ('/' :: body ++ rest).takeWhile _, .comment⟩ : Piece) = _
  rw [List.takeWhile_append_of_pos hall, htake, List.append_nil]

theorem first_unterminated {body : List Char} (h : quotationMark ∉ body) :
    Piece.first quotationMark body = ⟨quotationMark :: body, .flaw .unterminatedString⟩ := by
  show Piece.string body = _
  simp only [Piece.string, List.takeWhile_eq_self_iff.mpr (all_bne_of_not_mem h), Nat.lt_irrefl,
    if_false]

/-- The longest lexeme at the front of a source is the piece there, unless a comment is. -/
theorem eq_first_of_longest {w : List Char} {content : Content}
    (hcomment : ¬['/', '/'] <+: c :: rest) (h : Longest (c :: rest) w content) :
    (⟨w, content⟩ : Piece) = Piece.first c rest := by
  obtain ⟨d, v, rfl, -⟩ := h.lexeme.head_cases
  obtain ⟨rfl, hv⟩ := List.cons_prefix_cons.mp h.isPrefix
  have hcut := Piece.cut_first d rest
  generalize hsource : d :: rest = source at hcut
  generalize Piece.first d rest = p at hcut
  cases hcut with
  | blank hblank =>
    obtain ⟨rfl, -⟩ := List.cons.inj hsource
    exact absurd hblank h.lexeme.not_blank
  | comment => exact absurd (hsource ▸ List.prefix_append ['/', '/'] _) hcomment
  | lexeme _ h' =>
    subst hsource
    have hlength := Nat.le_antisymm (h'.length_le _ _ h.lexeme h.isPrefix)
      (h.length_le _ _ h'.lexeme h'.isPrefix)
    obtain rfl := (List.prefix_of_prefix_length_le h.isPrefix h'.isPrefix
      (Nat.le_of_eq hlength)).eq_of_length hlength
    rw [← h.lexeme.first_eq rfl, ← h'.lexeme.first_eq rfl]
  | unterminated hbody =>
    obtain ⟨rfl, rfl⟩ := List.cons.inj hsource
    have hfirst := (h.lexeme.first_eq rfl).symm.trans
      (first_unterminated fun hq => hbody (hv.mem hq))
    exact absurd (Piece.mk.inj hfirst).2 h.lexeme.ne_unterminated
  | unexpected _ _ hnone => exact absurd (hsource ▸ h.isPrefix) (hnone _ _ h.lexeme)

theorem eq_first_of_unexpected (hblank : c ∉ blanks) (hquote : c ≠ quotationMark)
    (h : ∀ v content, Lexeme v content → ¬v <+: c :: rest) :
    (⟨[c], .flaw (.unexpectedCharacter c)⟩ : Piece) = Piece.first c rest := by
  have hcut := Piece.cut_first c rest
  generalize hsource : c :: rest = source at hcut
  generalize Piece.first c rest = p at hcut
  cases hcut with
  | blank hc =>
    obtain ⟨rfl, -⟩ := List.cons.inj hsource
    exact absurd hc hblank
  | comment =>
    have hslash : ['/'] <+: c :: rest := hsource ▸ List.prefix_append ['/'] _
    exact absurd hslash (h _ _ (.mark (s := "/") (k := .slash) (by decide)))
  | lexeme _ h' => exact absurd (hsource ▸ h'.isPrefix) (h _ _ h'.lexeme)
  | unterminated =>
    obtain ⟨rfl, -⟩ := List.cons.inj hsource
    exact absurd rfl hquote
  | unexpected =>
    obtain ⟨rfl, -⟩ := List.cons.inj hsource
    rfl

theorem eq_first {source : List Char} (h : Cut source p) (hsource : source = c :: rest) :
    p = Piece.first c rest := by
  cases h with
  | @blank d _ hd =>
    obtain ⟨rfl, rfl⟩ := List.cons.inj hsource
    simp only [blanks, List.mem_cons, List.not_mem_nil, or_false] at hd
    obtain rfl | rfl | rfl | rfl := hd <;> rfl
  | comment hbody hrest =>
    obtain ⟨rfl, rfl⟩ := List.cons.inj hsource
    exact (first_comment hbody hrest).symm
  | lexeme hcomment hlongest =>
    subst hsource
    exact eq_first_of_longest hcomment hlongest
  | unterminated hbody =>
    obtain ⟨rfl, rfl⟩ := List.cons.inj hsource
    exact (first_unterminated hbody).symm
  | unexpected hblank hquote hnone =>
    obtain ⟨rfl, rfl⟩ := List.cons.inj hsource
    exact eq_first_of_unexpected hblank hquote hnone

end Cut

theorem not_cut_nil {p : Piece} : ¬Cut [] p := by
  intro h
  generalize hsource : ([] : List Char) = source at h
  cases h with
  | lexeme _ h =>
    obtain ⟨c, v, rfl, -⟩ := h.lexeme.head_cases
    exact absurd (hsource ▸ h.isPrefix) (by simp)
  | blank | comment | unterminated | unexpected => exact absurd hsource (by simp)

/-- There is exactly one piece at the front of a source, and it is found. -/
theorem cut_iff {source : List Char} {p : Piece} :
    Cut source p ↔ ∃ c rest, source = c :: rest ∧ p = Piece.first c rest := by
  constructor
  · intro h
    cases source with
    | nil => exact absurd h not_cut_nil
    | cons c rest => exact ⟨c, rest, rfl, h.eq_first rfl⟩
  · rintro ⟨c, rest, rfl, rfl⟩
    exact Piece.cut_first c rest

namespace Cut

variable {source : List Char} {p : Piece}

theorem chars_ne_nil (h : Cut source p) : p.chars ≠ [] := by
  obtain ⟨c, rest, -, rfl⟩ := cut_iff.mp h
  exact List.ne_nil_of_length_pos (Piece.length_pos c rest)

theorem chars_prefix (h : Cut source p) : p.chars <+: source := by
  obtain ⟨c, rest, rfl, rfl⟩ := cut_iff.mp h
  exact Piece.first_prefix c rest

end Cut

end Lox.Token

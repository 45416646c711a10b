import Lox.Proofs.Token.Lexeme
import Lox.Proofs.Token.Lines

/-!
# Leftmost-longest tokenization

`Scans before rest tokens errors` says what becomes of the text `rest` behind the text `before`:
piece by piece from the left, blanks and comments are skipped, a token is a token at its place and a
flaw is an error at its place.  Scanning does this and nothing else (`scan_leftmost_longest`).
-/

namespace Lox.Token

/-- The line of what stands behind a text. -/
def lineBehind (before : List Char) : Int := 1 + before.count '\n'

/-- The text `rest` behind the text `before` falls into `tokens` and `errors`. -/
inductive Scans : List Char → List Char → List Token → List ScanError → Prop
  | done {before : List Char} :
      Scans before [] [⟨.endOfInput, "", none, before.length, lineBehind before⟩] []
  | skip {before w rest : List Char} {content : Content} {ts : List Token} {es : List ScanError}
      (hcontent : content = .blank ∨ content = .comment) (hcut : Cut (w ++ rest) ⟨w, content⟩)
      (h : Scans (before ++ w) rest ts es) : Scans before (w ++ rest) ts es
  | token {before w rest : List Char} {k : Kind} {literal : Option Literal} {ts : List Token}
      {es : List ScanError} (hcut : Cut (w ++ rest) ⟨w, .token k literal⟩)
      (h : Scans (before ++ w) rest ts es) :
      Scans before (w ++ rest)
        (⟨k, String.ofList w, literal, before.length, lineBehind before⟩ :: ts) es
  | flaw {before w rest : List Char} {cause : Flaw} {ts : List Token} {es : List ScanError}
      (hcut : Cut (w ++ rest) ⟨w, .flaw cause⟩) (h : Scans (before ++ w) rest ts es) :
      Scans before (w ++ rest) ts (⟨cause, before.length, lineBehind before⟩ :: es)

/-! ## Scanning from a place on -/

/-- The piece at the front is the first of the pieces. -/
theorem pieces_of_cut {w rest : List Char} {content : Content}
    (h : Cut (w ++ rest) ⟨w, content⟩) : pieces (w ++ rest) = ⟨w, content⟩ :: pieces rest := by
  obtain ⟨c, source, hsource, hp⟩ := cut_iff.mp h
  obtain ⟨tail, htail, -⟩ := Piece.fits_first c source
  rw [← hp] at htail
  have hw : w = c :: tail := htail
  have hmore : (⟨w, content⟩ : Piece).more = tail.length := by rw [hw]; rfl
  have hrest : source = tail ++ rest := by
    rw [hw, List.cons_append] at hsource
    exact (List.cons.inj hsource).2.symm
  rw [hsource, pieces, ← hp, hmore, hrest, List.drop_left]

/-- No piece of a source is a token for its end. -/
theorem Cut.kind_ne {source w : List Char} {k : Kind} {literal : Option Literal}
    (h : Cut source ⟨w, .token k literal⟩) : k ≠ .endOfInput := by
  rintro rfl
  obtain ⟨c, rest, -, hp⟩ := cut_iff.mp h
  exact Piece.notEnd_first c rest literal (congrArg Piece.content hp).symm

/-- The tokens and the errors of the text `rest` behind the text `before`. -/
def scanBehind (before rest : List Char) : Scan :=
  let placed := place before.length (1 + before.count '\n') (pieces rest)
  { tokens := placed.filterMap Placed.token? ++ [endOf (before ++ rest)]
    errors := placed.filterMap Placed.error? }

theorem scan_eq_scanBehind (source : String) : scan source = scanBehind [] source.toList := rfl

theorem scanBehind_nil (before : List Char) :
    scanBehind before [] =
      ⟨[⟨.endOfInput, "", none, before.length, lineBehind before⟩], []⟩ := by
  rw [scanBehind, pieces, List.append_nil]
  rfl

theorem scanBehind_cut (before : List Char) {w rest : List Char} {content : Content}
    (h : Cut (w ++ rest) ⟨w, content⟩) :
    scanBehind before (w ++ rest) =
      let placed : Placed := ⟨⟨w, content⟩, before.length, 1 + before.count '\n'⟩
      let behind := scanBehind (before ++ w) rest
      ⟨placed.token?.toList ++ behind.tokens, placed.error?.toList ++ behind.errors⟩ := by
  have hlength : before.length + w.length = (before ++ w).length := List.length_append.symm
  have hline : 1 + before.count '\n' + w.count '\n' = 1 + (before ++ w).count '\n' := by
    rw [List.count_append, Nat.add_assoc]
  simp only [scanBehind, pieces_of_cut h, place, Piece.lineEnds, hlength, hline,
    ← List.append_assoc before]
  cases content <;> rfl

/-- Every way to cut a text gives the tokens and the errors that are found. -/
theorem Scans.eq_scanBehind {before rest : List Char} {ts : List Token} {es : List ScanError}
    (h : Scans before rest ts es) : scanBehind before rest = ⟨ts, es⟩ := by
  induction h with
  | done => exact scanBehind_nil _
  | skip hcontent hcut _ ih =>
    rw [scanBehind_cut _ hcut, ih]
    obtain rfl | rfl := hcontent <;> rfl
  | token hcut _ ih =>
    rw [scanBehind_cut _ hcut, ih]
    rfl
  | flaw hcut _ ih =>
    rw [scanBehind_cut _ hcut, ih]
    rfl

theorem scans_scanBehind (before rest : List Char) :
    Scans before rest (scanBehind before rest).tokens (scanBehind before rest).errors := by
  induction hn : rest.length using Nat.strong_induction_on generalizing before rest with
  | _ n ih =>
    cases rest with
    | nil =>
      rw [scanBehind_nil]
      exact .done
    | cons c source =>
      have hcut := Piece.cut_first c source
      have hpos := Piece.length_pos c source
      obtain ⟨rest, hrest⟩ := Piece.first_prefix c source
      generalize Piece.first c source = p at *
      obtain ⟨w, content⟩ := p
      have hlt : rest.length < n := by
        rw [← hn, ← hrest, List.length_append]
        exact Nat.lt_add_of_pos_left hpos
      have hscans := ih rest.length hlt (before ++ w) rest rfl
      rw [← hrest] at hcut ⊢
      rw [scanBehind_cut before hcut]
      cases content with
      | blank => exact .skip (.inl rfl) hcut hscans
      | comment => exact .skip (.inr rfl) hcut hscans
      | token k literal => exact .token hcut hscans
      | flaw cause => exact .flaw hcut hscans

/-! ## Places -/

namespace Scans

variable {before rest : List Char} {ts : List Token} {es : List ScanError}

/-- Every token covers the text that it says, at the place that it says. -/
theorem token_place (h : Scans before rest ts es) :
    ∀ t ∈ ts, ∃ front behind, before ++ rest = front ++ t.lexeme.toList ++ behind ∧
      t.offset = front.length ∧ t.line = lineBehind front := by
  induction h with
  | done =>
    intro t ht
    obtain rfl := List.mem_singleton.mp ht
    exact ⟨_, [], by simp, rfl, rfl⟩
  | skip _ _ _ ih | flaw _ _ ih =>
    rw [← List.append_assoc]
    exact ih
  | @token before _ rest _ _ _ _ _ _ ih =>
    refine List.forall_mem_cons.mpr ⟨⟨before, rest, ?_, rfl, rfl⟩, ?_⟩
    · rw [String.toList_ofList, List.append_assoc]
    · rw [← List.append_assoc]
      exact ih

/-- Every error is about text at the place that it says. -/
theorem error_place (h : Scans before rest ts es) :
    ∀ e ∈ es, ∃ front behind, before ++ rest = front ++ behind ∧ behind ≠ [] ∧
      e.offset = front.length ∧ e.line = lineBehind front := by
  induction h with
  | done => exact fun _ he => absurd he List.not_mem_nil
  | skip _ _ _ ih | token _ _ ih =>
    rw [← List.append_assoc]
    exact ih
  | @flaw before w rest _ _ _ hcut _ ih =>
    refine List.forall_mem_cons.mpr ⟨⟨before, w ++ rest, rfl, ?_, rfl, rfl⟩, ?_⟩
    · exact fun hnil => hcut.chars_ne_nil (List.append_eq_nil_iff.mp hnil).1
    · rw [← List.append_assoc]
      exact ih

/-- The last token stands at the end, and no other is of its kind. -/
theorem last_token (h : Scans before rest ts es) :
    ∃ inner, ts = inner ++ [⟨.endOfInput, "", none, (before ++ rest).length,
      lineBehind (before ++ rest)⟩] ∧ ∀ t ∈ inner, t.kind ≠ .endOfInput := by
  induction h with
  | done => exact ⟨[], by simp, fun _ ht => absurd ht List.not_mem_nil⟩
  | skip _ _ _ ih | flaw _ _ ih =>
    rw [← List.append_assoc]
    exact ih
  | token hcut _ ih =>
    obtain ⟨inner, rfl, hinner⟩ := ih
    rw [← List.append_assoc]
    exact ⟨_ :: inner, rfl, List.forall_mem_cons.mpr ⟨hcut.kind_ne, hinner⟩⟩

end Scans

/-! ## The scan of a source -/

/-- A scan of a source is its leftmost-longest tokenization. -/
structure Tokenization (source : List Char) (s : Scan) : Prop where
  scans_iff : ∀ ts es, Scans [] source ts es ↔ ts = s.tokens ∧ es = s.errors
  cut_nonempty : ∀ rest p, Cut rest p → p.chars ≠ [] ∧ p.chars <+: rest
  token_place : ∀ t ∈ s.tokens, ∃ before behind,
    source = before ++ t.lexeme.toList ++ behind ∧ t.offset = before.length ∧
      t.line = 1 + before.count '\n'
  error_place : ∀ e ∈ s.errors, ∃ before behind, source = before ++ behind ∧ behind ≠ [] ∧
    e.offset = before.length ∧ e.line = 1 + before.count '\n'
  last_token : ∃ inner, s.tokens = inner ++
    [⟨.endOfInput, "", none, source.length, 1 + source.count '\n'⟩] ∧
      ∀ t ∈ inner, t.kind ≠ .endOfInput

/-- Scanning computes the leftmost-longest tokenization and loses nothing. -/
theorem scan_leftmost_longest (source : String) : Tokenization source.toList (scan source) where
  scans_iff ts es := by
    rw [scan_eq_scanBehind]
    constructor
    · intro h
      rw [h.eq_scanBehind]
      exact ⟨rfl, rfl⟩
    · rintro ⟨rfl, rfl⟩
      exact scans_scanBehind [] source.toList
  cut_nonempty rest p h := ⟨h.chars_ne_nil, h.chars_prefix⟩
  token_place := (scans_scanBehind [] source.toList).token_place
  error_place := (scans_scanBehind [] source.toList).error_place
  last_token := (scans_scanBehind [] source.toList).last_token

end Lox.Token

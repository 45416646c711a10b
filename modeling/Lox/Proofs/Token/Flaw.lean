import Lox.Proofs.Token.Layout
import Mathlib.Data.List.Forall2

/-!
# What scanning does not accept

A flaw leaves no trace in the tokens: with blanks in its place a text has the same tokens at the
same places, and no flaw (`scan_blankFlaws`).  The tokens in front of a flaw are those of the text
in front of it (`Scans.split`).
-/

namespace Lox.Token

/-! ## Pieces in front of other texts -/

/-- The piece at the front of a text is there also if the text ends earlier. -/
theorem Cut.of_append {w u v : List Char} {content : Content}
    (h : Cut (w ++ (u ++ v)) ⟨w, content⟩) : Cut (w ++ u) ⟨w, content⟩ := by
  generalize hsource : w ++ (u ++ v) = source at h
  generalize hpiece : (⟨w, content⟩ : Piece) = p at h
  cases h with
  | blank hc =>
    obtain ⟨rfl, rfl⟩ := Piece.mk.inj hpiece
    exact .blank hc
  | @comment body rest hbody hrest =>
    obtain ⟨rfl, rfl⟩ := Piece.mk.inj hpiece
    obtain rfl : u ++ v = rest := List.append_cancel_left hsource
    refine .comment hbody fun c hc => hrest c ?_
    rw [List.head?_append, hc]
    rfl
  | lexeme hcomment hlongest =>
    obtain ⟨rfl, rfl⟩ := Piece.mk.inj hpiece
    have hprefix : w ++ u <+: source := ⟨v, by rw [List.append_assoc, hsource]⟩
    refine .lexeme (fun h => hcomment (h.trans hprefix))
      ⟨hlongest.lexeme, List.prefix_append w u, fun x content' hx h => ?_⟩
    exact hlongest.length_le x content' hx (h.trans hprefix)
  | @unterminated body hbody =>
    obtain ⟨rfl, rfl⟩ := Piece.mk.inj hpiece
    obtain rfl : u = [] := by
      have hlength := congrArg List.length hsource
      rw [List.length_append, List.length_append] at hlength
      exact List.length_eq_zero_iff.mp (by omega)
    rw [List.append_nil]
    exact .unterminated hbody
  | unexpected hblank hquote hnone =>
    obtain ⟨rfl, rfl⟩ := Piece.mk.inj hpiece
    refine .unexpected hblank hquote fun x content' hx h => hnone x content' hx (h.trans ?_)
    rw [← hsource, ← List.append_assoc]
    exact List.prefix_append _ v

/-! ## Blanks in the place of flaws -/

/-- The blank that takes the place of a character: line ends stay. -/
def blankFor (c : Char) : Char := if c = '\n' then '\n' else ' '

theorem blankFor_mem_blanks (c : Char) : blankFor c ∈ blanks := by
  unfold blankFor
  split <;> decide

/-- The characters of a piece, or blanks in their place if it is a flaw. -/
def Piece.blanked (p : Piece) : List Char :=
  match p.content with
  | .flaw _ => p.chars.map blankFor
  | _ => p.chars

/-- A text with blanks in the place of its flaws. -/
def blankFlaws (text : String) : String :=
  String.ofList ((pieces text.toList).flatMap Piece.blanked)

/-- Some characters of the first text may have become blanks in the second one. -/
def Blanked : List Char → List Char → Prop := List.Forall₂ fun c d => d = c ∨ d = blankFor c

theorem blanked_piece (p : Piece) : Blanked p.chars p.blanked := by
  have hsame : Blanked p.chars p.chars := List.forall₂_same.mpr fun c _ => .inl rfl
  have hblank : Blanked p.chars (p.chars.map blankFor) :=
    List.forall₂_map_right_iff.mpr (List.forall₂_same.mpr fun c _ => .inr rfl)
  unfold Piece.blanked
  split
  · exact hblank
  · exact hsame

theorem blanked_pieces (source : List Char) :
    Blanked source ((pieces source).flatMap Piece.blanked) := by
  have hall (ps : List Piece) : Blanked (ps.flatMap Piece.chars) (ps.flatMap Piece.blanked) := by
    induction ps with
    | nil => exact .nil
    | cons p ps ih => exact List.rel_append (blanked_piece p) ih
  have key := hall (pieces source)
  rwa [flatten_pieces] at key

/-- Two such texts agree up to the first blank that is new. -/
theorem Blanked.cases {rest rest' : List Char} (h : Blanked rest rest') :
    rest' = rest ∨ ∃ u v v' b, rest = u ++ v ∧ rest' = u ++ b :: v' ∧ b ∈ blanks := by
  induction h with
  | nil => exact .inl rfl
  | @cons c d rest rest' hcd _ ih =>
    obtain rfl | rfl := hcd
    · refine ih.imp (congrArg (d :: ·)) ?_
      rintro ⟨u, v, v', b, rfl, rfl, hb⟩
      exact ⟨d :: u, v, v', b, rfl, rfl, hb⟩
    · exact .inr ⟨[], _, _, _, rfl, rfl, blankFor_mem_blanks c⟩

/-- Blanks further on do not change the piece at the front of a text, unless that is a flaw. -/
theorem Cut.blanked {w rest rest' : List Char} {content : Content}
    (h : Cut (w ++ rest) ⟨w, content⟩) (hflaw : ∀ flaw, content ≠ .flaw flaw)
    (hrest : Blanked rest rest') : Cut (w ++ rest') ⟨w, content⟩ := by
  by_cases hcomment : content = .comment
  · -- A comment ends in front of a line end, which stays.
    subst hcomment
    generalize hsource : w ++ rest = source at h
    cases h with
    | @comment body tail hbody htail =>
      obtain rfl : rest = tail := List.append_cancel_left hsource
      refine .comment hbody fun d hd => ?_
      cases hrest with
      | nil => cases hd
      | @cons c _ _ _ hcd _ =>
        obtain rfl := Option.some.inj hd
        obtain rfl : c = '\n' := htail c rfl
        obtain rfl | rfl := hcd <;> rfl
    | lexeme _ hlongest => cases hlongest.lexeme
  obtain rfl | ⟨u, v, v', b, rfl, rfl, hb⟩ := hrest.cases
  · exact h
  obtain ⟨c, source, hsource, hfirst⟩ := cut_iff.mp h.of_append
  refine cut_iff.mpr ⟨c, source ++ b :: v', ?_, ?_⟩
  · rw [← List.append_assoc, hsource, List.cons_append]
  · rw [Piece.first_blank hb, ← hfirst]
    · rw [← hfirst]
      exact hflaw _
    · rw [← hfirst]
      exact .inr hcomment

theorem Blanked.count_lineEnds {w w' : List Char} (h : Blanked w w') :
    w'.count '\n' = w.count '\n' := by
  induction h with
  | nil => rfl
  | @cons c d _ _ hcd _ ih =>
    have hd : d = '\n' ↔ c = '\n' := by
      obtain rfl | rfl := hcd
      · exact Iff.rfl
      · unfold blankFor
        split
        · exact iff_of_true rfl ‹_›
        · exact iff_of_false (by decide) ‹_›
    simp only [List.count_cons, ih, beq_iff_eq, hd]

/-- What stands behind either of two texts has the same place. -/
structure SamePlace (before before' : List Char) : Prop where
  length_eq : before'.length = before.length
  line_eq : lineBehind before' = lineBehind before

theorem SamePlace.append {before before' w w' : List Char} (h : SamePlace before before')
    (hw : Blanked w w') : SamePlace (before ++ w) (before' ++ w') where
  length_eq := by rw [List.length_append, List.length_append, h.length_eq, hw.length_eq]
  line_eq := by
    have hline := h.line_eq
    unfold lineBehind at hline ⊢
    rw [List.count_append, List.count_append, hw.count_lineEnds]
    omega

/-- With blanks in the place of its flaws a text has the same tokens, and no flaw. -/
theorem Scans.blanked {before before' rest : List Char} {ts : List Token} {es : List ScanError}
    (h : Scans before rest ts es) (hplace : SamePlace before before') :
    Scans before' ((pieces rest).flatMap Piece.blanked) ts [] := by
  induction h generalizing before' with
  | done =>
    rw [pieces, List.flatMap_nil, ← hplace.length_eq, ← hplace.line_eq]
    exact .done
  | @skip before w rest content _ _ hcontent hcut _ ih =>
    have hflaw : ∀ flaw, content ≠ .flaw flaw := by
      obtain rfl | rfl := hcontent <;> exact fun _ => Content.noConfusion
    have hblanked : (⟨w, content⟩ : Piece).blanked = w := by
      obtain rfl | rfl := hcontent <;> rfl
    have hnext := hplace.append (blanked_piece ⟨w, content⟩)
    rw [hblanked] at hnext
    rw [pieces_of_cut hcut, List.flatMap_cons, hblanked]
    exact .skip hcontent (hcut.blanked hflaw (blanked_pieces rest)) (ih hnext)
  | @token before w rest k literal _ _ hcut _ ih =>
    have hnext := hplace.append (blanked_piece ⟨w, .token k literal⟩)
    rw [pieces_of_cut hcut, List.flatMap_cons, ← hplace.length_eq, ← hplace.line_eq]
    exact .token (hcut.blanked (fun _ => Content.noConfusion) (blanked_pieces rest)) (ih hnext)
  | @flaw before w rest cause _ _ hcut _ ih =>
    have hnext := hplace.append (blanked_piece ⟨w, .flaw cause⟩)
    rw [pieces_of_cut hcut, List.flatMap_cons]
    refine .gap (fun c hc => ?_) (ih hnext)
    obtain ⟨d, _, rfl⟩ := List.mem_map.mp hc
    exact blankFor_mem_blanks d

/-- Scanning leaves out flaws and nothing else: it finds what it finds with blanks in their
place. -/
theorem scan_blankFlaws (text : String) :
    scan (blankFlaws text) = ⟨(scan text).tokens, []⟩ := by
  rw [scan_eq_scanBehind, blankFlaws, String.toList_ofList]
  exact ((scans_scanBehind [] text.toList).blanked ⟨rfl, rfl⟩).eq_scanBehind

/-! ## The text in front of a flaw -/

/-- Tokens do not stand in front of the text that they are from. -/
theorem Scans.length_le_offset {before rest : List Char} {ts : List Token} {es : List ScanError}
    (h : Scans before rest ts es) : ∀ t ∈ ts, (before.length : Int) ≤ t.offset := by
  have hlength {before w : List Char} {t : Token} (h : ((before ++ w).length : Int) ≤ t.offset) :
      (before.length : Int) ≤ t.offset := by
    rw [List.length_append] at h
    omega
  induction h with
  | done =>
    intro t ht
    obtain rfl := List.mem_singleton.mp ht
    exact Int.le_refl _
  | skip _ _ _ ih | flaw _ _ ih => exact fun t ht => hlength (ih t ht)
  | token _ _ ih =>
    exact List.forall_mem_cons.mpr ⟨Int.le_refl _, fun t ht => hlength (ih t ht)⟩

/-- The text in front of an error is scanned to the tokens in front of it, on its own as well. -/
theorem Scans.split {before rest : List Char} {ts : List Token} {es : List ScanError}
    (h : Scans before rest ts es) {e : ScanError} (he : e ∈ es) :
    ∃ front behind ts₁ ts₂ es₁, rest = front ++ behind ∧ e.offset = (before ++ front).length ∧
      ts = ts₁ ++ ts₂ ∧ (∀ t ∈ ts₁, t.offset < e.offset) ∧ (∀ t ∈ ts₂, e.offset < t.offset) ∧
      Scans before front (ts₁ ++ [⟨.endOfInput, "", none, (before ++ front).length,
        lineBehind (before ++ front)⟩]) es₁ := by
  induction h with
  | done => exact absurd he List.not_mem_nil
  | @skip before w rest content ts es hcontent hcut _ ih =>
    obtain ⟨front, behind, ts₁, ts₂, es₁, rfl, hoffset, rfl, hts₁, hts₂, hscans⟩ := ih he
    rw [List.append_assoc] at hoffset hscans
    exact ⟨w ++ front, behind, ts₁, ts₂, es₁, (List.append_assoc ..).symm, hoffset, rfl, hts₁,
      hts₂, .skip hcontent hcut.of_append hscans⟩
  | @token before w rest k literal ts es hcut _ ih =>
    obtain ⟨front, behind, ts₁, ts₂, es₁, rfl, hoffset, rfl, hts₁, hts₂, hscans⟩ := ih he
    rw [List.append_assoc] at hoffset hscans
    refine ⟨w ++ front, behind, _ :: ts₁, ts₂, es₁, (List.append_assoc ..).symm, hoffset, rfl,
      List.forall_mem_cons.mpr ⟨?_, hts₁⟩, hts₂, .token hcut.of_append hscans⟩
    have hpos := List.length_pos_iff.mpr hcut.chars_ne_nil
    rw [hoffset, List.length_append, List.length_append]
    dsimp only at hpos ⊢
    omega
  | @flaw before w rest cause ts es hcut hscans ih =>
    obtain rfl | he := List.mem_cons.mp he
    · refine ⟨[], w ++ rest, [], ts, [], rfl, by rw [List.append_nil], rfl,
        fun _ ht => absurd ht List.not_mem_nil, fun t ht => ?_, ?_⟩
      · have hle := hscans.length_le_offset t ht
        have hpos := List.length_pos_iff.mpr hcut.chars_ne_nil
        rw [List.length_append] at hle
        dsimp only at hpos ⊢
        omega
      · rw [List.append_nil]
        exact .done
    · obtain ⟨front, behind, ts₁, ts₂, es₁, rfl, hoffset, rfl, hts₁, hts₂, hscans⟩ := ih he
      rw [List.append_assoc] at hoffset hscans
      exact ⟨w ++ front, behind, ts₁, ts₂, _ :: es₁, (List.append_assoc ..).symm, hoffset, rfl,
        hts₁, hts₂, .flaw hcut.of_append hscans⟩

end Lox.Token

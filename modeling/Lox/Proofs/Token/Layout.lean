import Lox.Proofs.Grammar.Acceptance
import Lox.Proofs.Grammar.Locality
import Lox.Proofs.Token.Tokenization

/-!
# Layout

Where the tokens of a source stand means nothing.  Their lexemes with any blanks between them are
scanned to the same tokens, and what is read from these is the same tree with the same errors,
places apart (`scan_spaced`).

The scanner's half rests on lexemes being longest: one that is a token on its own is the longest one
in front of a blank too, because no lexeme but a string goes past a blank.
-/

namespace Lox

namespace Token

/-! ## Blanks between lexemes -/

/-- A run of blanks, which may be empty. -/
def Gap (w : List Char) : Prop := ∀ c ∈ w, c ∈ blanks

instance (w : List Char) : Decidable (Gap w) := List.decidableBAll (· ∈ blanks) w

/-- The text is made of the lexemes with a run of blanks between any two neighbours.  There may be
blanks before and behind them. -/
inductive Spaced : List String → List Char → Prop
  | none (gap : List Char) (h : Gap gap) : Spaced [] gap
  | last (before after : List Char) {w : String} (hbefore : Gap before) (hafter : Gap after) :
      Spaced [w] (before ++ (w.toList ++ after))
  | cons (before gap : List Char) {rest : List Char} {w : String} {ws : List String}
      (hbefore : Gap before) (hgap : Gap gap) (hne : gap ≠ []) (h : Spaced ws rest) :
      Spaced (w :: ws) (before ++ (w.toList ++ (gap ++ rest)))

/-- The token is what its lexeme says on its own. -/
def FromLexeme (t : Token) : Prop := Lexeme t.lexeme.toList (.token t.kind t.literal)

theorem lexeme_of_mem_pieces {source : List Char} {p : Piece} {k : Kind} {literal : Option Literal}
    (hp : p ∈ pieces source) (h : p.content = .token k literal) : Lexeme p.chars p.content := by
  fun_induction pieces source with
  | case1 => exact absurd hp List.not_mem_nil
  | case2 c rest ih =>
    obtain rfl | hp := List.mem_cons.mp hp
    · have hcut := Piece.cut_first c rest
      generalize Piece.first c rest = p at hcut h
      cases hcut with
      | lexeme _ hlongest => exact hlongest.lexeme
      | blank | comment | unterminated | unexpected => cases h
    · exact ih hp

theorem fromLexeme_innerTokens (source : List Char) : ∀ t ∈ innerTokens source, t.FromLexeme := by
  intro t ht
  obtain ⟨p, hp, hpt⟩ := List.mem_filterMap.mp ht
  unfold Placed.token? at hpt
  split at hpt
  · rename_i k literal hcontent
    obtain rfl := Option.some.inj hpt
    have hlexeme := lexeme_of_mem_pieces (piece_mem_of_mem_place hp) hcontent
    rw [hcontent] at hlexeme
    rwa [FromLexeme, String.toList_ofList]
  · exact absurd hpt (by simp)

/-! ## Scanning lexemes in front of blanks -/

/-- A lexeme that is a token is what is found in front of a character that it cannot go on with, and
at the end of a text. -/
theorem Lexeme.cut_of_stops {w rest : List Char} {k : Kind} {literal : Option Literal}
    (h : Lexeme w (.token k literal)) (hrest : ∀ c ∈ rest.head?, Piece.Stops c) :
    Cut (w ++ rest) ⟨w, .token k literal⟩ := by
  obtain ⟨c, v, rfl, -⟩ := h.head_cases
  have hfirst := h.first_eq rfl
  refine cut_iff.mpr ⟨c, v ++ rest, rfl, ?_⟩
  cases rest with
  | nil => rw [List.append_nil, hfirst]
  | cons b rest =>
    rw [Piece.first_stop (hrest b rfl), hfirst]
    · rw [hfirst]
      exact Content.noConfusion
    · rw [hfirst]
      exact .inr Content.noConfusion

/-- A lexeme that is a token is what is found in front of a blank, and at the end of a text. -/
theorem Lexeme.cut {w rest : List Char} {k : Kind} {literal : Option Literal}
    (h : Lexeme w (.token k literal)) (hrest : ∀ c ∈ rest.head?, c ∈ blanks) :
    Cut (w ++ rest) ⟨w, .token k literal⟩ :=
  h.cut_of_stops fun c hc => Piece.stops_of_mem_blanks (hrest c hc)

theorem Scans.gap {before gap rest : List Char} {ts : List Token} {es : List ScanError}
    (hgap : Gap gap) (h : Scans (before ++ gap) rest ts es) : Scans before (gap ++ rest) ts es := by
  induction gap generalizing before with
  | nil => rwa [List.append_nil] at h
  | cons c gap ih =>
    obtain ⟨hc, hgap⟩ := List.forall_mem_cons.mp hgap
    refine .skip (w := [c]) (.inl rfl) (.blank hc) (ih hgap ?_)
    rwa [List.append_assoc]

theorem Gap.scans {gap : List Char} (h : Gap gap) (before : List Char) :
    Scans before gap [⟨.endOfInput, "", Option.none, (before ++ gap).length,
      lineBehind (before ++ gap)⟩] [] := by
  rw [← List.append_nil gap]
  refine Scans.gap h ?_
  rw [List.append_nil]
  exact .done

theorem Gap.head {gap : List Char} (h : Gap gap) (hne : gap ≠ []) (rest : List Char) :
    ∀ c ∈ (gap ++ rest).head?, c ∈ blanks := by
  obtain ⟨b, gap, rfl⟩ := List.exists_cons_of_ne_nil hne
  rintro c ⟨⟩
  exact h b (List.mem_cons_self ..)

/-- The token for the end of a text, without its place. -/
def bareEnd : Token := ⟨.endOfInput, "", Option.none, 0, 0⟩

/-- Lexemes with blanks between them are scanned to the tokens that they are on their own. -/
theorem Spaced.scans {ws : List String} {text : List Char} (h : Spaced ws text) {ts : List Token}
    (hws : ts.map lexeme = ws) (hts : ∀ t ∈ ts, t.FromLexeme) (before : List Char) :
    ∃ found, Scans before text found [] ∧ found.map bare = ts.map bare ++ [bareEnd] := by
  induction h generalizing ts before with
  | none _ hgap =>
    obtain rfl := List.map_eq_nil_iff.mp hws
    exact ⟨_, hgap.scans before, rfl⟩
  | last _ _ hbefore hafter =>
    obtain ⟨t, rfl, rfl⟩ := List.map_eq_singleton_iff.mp hws
    have hcut := Lexeme.cut (hts t (List.mem_singleton_self t)) fun c hc =>
      hafter c (List.mem_of_mem_head? hc)
    refine ⟨_, .gap hbefore (.token hcut (hafter.scans _)), ?_⟩
    rw [String.ofList_toList]
    rfl
  | @cons _ _ rest _ _ hbefore hgap hne _ ih =>
    obtain ⟨t, ts, rfl, rfl, rfl⟩ := List.map_eq_cons_iff.mp hws
    obtain ⟨ht, hts⟩ := List.forall_mem_cons.mp hts
    have hcut := Lexeme.cut ht (hgap.head hne rest)
    obtain ⟨found, hfound, hbare⟩ := ih rfl hts _
    refine ⟨_, .gap hbefore (.token hcut (.gap hgap hfound)), ?_⟩
    rw [List.map_cons, hbare, String.ofList_toList]
    rfl

/-! ## The end of the tokens -/

theorem beforeEnd_bare (ts : List Token) : beforeEnd (ts.map bare) = (beforeEnd ts).map bare :=
  List.takeWhile_map ..

/-- The token that ends a list of tokens is where it is, but what it is does not depend on that. -/
theorem bare_endToken (ts : List Token) : (endToken (ts.map bare)).bare = (endToken ts).bare := by
  have hfind : (ts.map bare).find? (fun t => t.kind == .endOfInput) =
      (ts.find? fun t => t.kind == .endOfInput).map bare := List.find?_map
  rw [endToken, endToken, hfind, List.getLast?_map]
  cases ts.find? fun t => t.kind == .endOfInput with
  | some t => rfl
  | none => cases ts.getLast? <;> rfl

end Token

/-! ## Reading without places -/

/-- A parse error without its place. -/
def ParseError.bare (e : ParseError) : ParseError := ⟨e.objection, e.token.bare⟩

/-- What a parse error says about which lexeme. -/
structure ParseError.Gist where
  kind : ParseErrorKind
  lexeme : String
  expected? : Option Token.Kind
  message : String

/-- What a parse error says, wherever that is. -/
def ParseError.gist (e : ParseError) : Gist :=
  ⟨e.kind, e.token.lexeme, e.objection.expected?, e.message⟩

theorem Complaint.bare_toError (c : Complaint) (stop : Token) :
    (c.toError stop).bare = (c.renumber fun _ => 0).toError stop.bare := by
  obtain ⟨objection, token?⟩ := c
  cases token? <;> rfl

namespace Token

/-- Parsing depends on no place: what it gives, places apart, is given by the tokens without
theirs. -/
theorem parse_bare (ts : List Token) :
    (parse ts).program.bare = ⟨0, (Grammar.statements (beforeEnd (ts.map bare))).1⟩ ∧
    (parse ts).errors.map ParseError.bare =
      (Grammar.statements (beforeEnd (ts.map bare))).2.map
        (·.toError (endToken (ts.map bare)).bare) := by
  have hread := Grammar.statements_renumber (fun _ => 0) (beforeEnd ts)
  rw [beforeEnd_bare, bare_endToken]
  constructor
  · rw [Program.bare, Program.renumber, Stmt.renumberAll_eq_map]
    exact congrArg (Program.mk 0 ·.1) hread.symm
  · have herrors := congrArg (·.2.map (·.toError (endToken ts).bare)) hread
    refine Eq.trans ?_ herrors.symm
    rw [parse, List.map_map, List.map_map]
    exact List.map_congr_left fun c _ => c.bare_toError _

/-- Tokens that differ in their places only are read as the same text, and the errors say the
same. -/
theorem parse_places {ts ts' : List Token} (h : ts.map bare = ts'.map bare) :
    (parse ts).program.render = (parse ts').program.render ∧
    (parse ts).errors.map ParseError.gist = (parse ts').errors.map ParseError.gist := by
  obtain ⟨hprogram, herrors⟩ := parse_bare ts
  obtain ⟨hprogram', herrors'⟩ := parse_bare ts'
  rw [h] at hprogram herrors
  constructor
  · have hrender := congrArg Program.render (hprogram.trans hprogram'.symm)
    rwa [Program.bare, Program.render_renumber, Program.render_renumber] at hrender
  · have hgist := congrArg (List.map ParseError.gist) (herrors.trans herrors'.symm)
    rwa [List.map_map, List.map_map] at hgist

/-! ## Layout -/

/-- The lexemes of a source with any blanks between them are scanned to its tokens and read as its
program, with its errors. -/
theorem scan_spaced (source text : String)
    (h : Spaced ((scan source).tokens.dropLast.map lexeme) text.toList) :
    (scan text).errors = [] ∧
    (scan text).tokens.map bare = (scan source).tokens.map bare ∧
    (parse (scan text).tokens).program.render = (parse (scan source).tokens).program.render ∧
    (parse (scan text).tokens).errors.map ParseError.gist =
      (parse (scan source).tokens).errors.map ParseError.gist := by
  have hinner : (scan source).tokens.dropLast = innerTokens source.toList := List.dropLast_concat
  rw [hinner] at h
  obtain ⟨found, hscans, hbare⟩ := h.scans rfl (fromLexeme_innerTokens source.toList) []
  have hscan : scan text = ⟨found, []⟩ := hscans.eq_scanBehind
  have htokens : (scan text).tokens.map bare = (scan source).tokens.map bare := by
    rw [hscan, hbare, scan_tokens, List.map_append]
    rfl
  obtain ⟨hrender, herrors⟩ := parse_places htokens
  exact ⟨congrArg Scan.errors hscan, htokens, hrender, herrors⟩

/-- A string keeps the line end inside it, two slashes do not become a comment, and two operators
stay two. -/
theorem scan_spaced_operators :
    let source := "! =/ /\"x\n y\"@1.5.c"
    let text := "\t! = / / \"x\n y\" 1.5 . c\r\n"
    (scan text).errors = [] ∧
    (scan text).tokens.map bare = (scan source).tokens.map bare ∧
    (parse (scan text).tokens).program.render = (parse (scan source).tokens).program.render ∧
    (parse (scan text).tokens).errors.map ParseError.gist =
      (parse (scan source).tokens).errors.map ParseError.gist := by
  intro source text
  have hgap : Gap [' '] := by decide
  have next {ws : List String} {rest : List Char} (w : String) (h : Spaced ws rest) :=
    Spaced.cons (w := w) [] [' '] (by decide) hgap (by decide) h
  have hlast := Spaced.last (w := "c") [] ['\r', '\n'] (by decide) (by decide)
  have hspaced := Spaced.cons (w := "!") ['\t'] [' '] (by decide) hgap (by decide)
    (next "=" (next "/" (next "/" (next "\"x\n y\"" (next "1.5" (next "." hlast))))))
  have hlexemes : (scan source).tokens.dropLast.map lexeme =
      ["!", "=", "/", "/", "\"x\n y\"", "1.5", ".", "c"] := by decide +kernel
  refine scan_spaced source text ?_
  rw [hlexemes]
  exact (congrArg (Spaced _) (by decide +kernel)).mpr hspaced

end Token

end Lox

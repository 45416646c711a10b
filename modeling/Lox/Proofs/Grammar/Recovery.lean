import Lox.Proofs.Grammar.Acceptance
import Lox.Proofs.Grammar.Locality

/-!
# Recovery after errors

Tokens that end with a semicolon are read on their own, whatever stands behind them: where a
declaration is stuck in them, it did not look behind the last token, and the search for a boundary
ends there at the latest.  The one exception is a complaint about the end of the input, which would
turn into something else with more tokens.  So programs can be read piece by piece
(`statements_append_of_closed`).
-/

namespace Lox

/-- A complaint about the shape of something names a token. -/
theorem Complaint.At.isSome_token {c : Complaint} {passed rest : List Token}
    (h : c.At passed rest) (hshape : c.objection.isAboutShape = true) : c.token?.isSome := by
  rw [Complaint.At, if_pos hshape] at h
  obtain ⟨_, t, _, _, ht, _⟩ := h
  rw [ht, Option.isSome_some]

namespace Grammar

open Reading

/-! ## Tokens that end with a semicolon -/

/-- The last token, if there is one, is a semicolon. -/
def Closed (ts : List Token) : Prop :=
  ∀ t ∈ ts.getLast?, t.kind = .semicolon

theorem Closed.of_append {w rest : List Token} (h : Closed (w ++ rest)) : Closed rest := by
  intro t ht
  refine h t ?_
  rw [List.getLast?_append, Option.mem_def.mp ht, Option.some_or]
  rfl

theorem Closed.drop {ts : List Token} (h : Closed ts) (n : Nat) : Closed (ts.drop n) := by
  rw [← List.take_append_drop n ts] at h
  exact h.of_append

theorem Closed.tail {t : Token} {rest : List Token} (h : Closed (t :: rest)) : Closed rest :=
  Closed.drop h 1

/-- The search for a boundary stays inside tokens that end with a semicolon. -/
theorem toBoundary_append {ts : List Token} (hclosed : Closed ts) (hne : ts ≠ [])
    (more : List Token) : toBoundary (ts ++ more) = toBoundary ts := by
  induction ts with
  | nil => exact absurd rfl hne
  | cons t rest ih =>
    rw [List.cons_append, toBoundary, toBoundary]
    cases rest with
    | nil =>
      have ht : t.kind = .semicolon := hclosed t rfl
      rw [if_pos ht, if_pos ht]
    | cons u rest => rw [ih hclosed.tail (List.cons_ne_nil u rest)]

theorem toBoundary_le_length (ts : List Token) : toBoundary ts ≤ ts.length := by
  induction ts with
  | nil => exact Nat.le_refl 0
  | cons t rest ih =>
    rw [toBoundary, List.length_cons]
    split
    · omega
    · split <;> omega

/-- A complaint that is not about the end of the tokens leaves one of them, if they end with a
semicolon: a semicolon is not passed on the way to a complaint about a shape. -/
theorem ne_nil_of_at {c : Complaint} {w rest : List Token} (hat : c.At w rest)
    (hclosed : Closed (w ++ rest)) (htoken : c.token?.isSome) : rest ≠ [] := by
  rintro rfl
  by_cases hshape : c.objection.isAboutShape = true
  · rw [Complaint.At, if_pos hshape] at hat
    obtain ⟨v, t, u, rfl, _, hboundary⟩ := hat
    rw [List.append_nil] at hclosed
    -- The last token passed is a semicolon, and no boundary was passed since `t`.
    have hsome : (t :: u).getLast?.isSome := List.getLast?_isSome.mpr (List.cons_ne_nil t u)
    obtain ⟨last, hlast⟩ := Option.isSome_iff_exists.mp hsome
    have hsemicolon : last.kind = .semicolon := hclosed.of_append last hlast
    have hnone := hboundary last (List.mem_of_getLast? hlast)
    rw [hsemicolon] at hnone
    exact absurd hnone (by decide)
  · rw [Complaint.At, if_neg hshape] at hat
    rw [hat] at htoken
    exact absurd htoken (by decide)

/-! ## One step through a program -/

theorem statements_stuck {t : Token} {rest : List Token} {c : Complaint} {passed skipped : Nat}
    (h : declaration (t :: rest) = stuck c passed)
    (hskipped : passed + toBoundary ((t :: rest).drop passed) = skipped) :
    statements (t :: rest) =
      ((statements (rest.drop (skipped - 1))).1,
        c :: (statements (rest.drop (skipped - 1))).2) := by
  subst hskipped
  rw [statements]
  simp only [h]

/-- Nothing in a rest can belong to a declaration in front of it, also with more tokens behind. -/
theorem ends_append {o : Bool} {rest more : List Token} (hrest : Phrase.Ends o rest)
    (hmore : startsWith .elseWord more = false) : Phrase.Ends o (rest ++ more) := by
  intro ho
  cases rest with
  | nil => exact hmore
  | cons t rest => exact hrest ho

/-! ## A program in two pieces -/

/-- Tokens that end with a semicolon and give rise to no complaint about their end are read on
their own. -/
theorem statements_append_of_closed (ts : List Token) {more : List Token} (hclosed : Closed ts)
    (hcomplaints : ∀ c ∈ (statements ts).2, c.token?.isSome)
    (helse : startsWith .elseWord more = false) :
    statements (ts ++ more) =
      ((statements ts).1 ++ (statements more).1, (statements ts).2 ++ (statements more).2) := by
  fun_induction statements ts with
  | case1 => rfl
  | case2 t rest s taken hmade ss cs hss ih =>
    have hfits := declaration_fits (t :: rest)
    rw [hmade] at hfits
    obtain ⟨w, rest', hts, rfl, o, hs, hends⟩ := hfits
    -- A declaration that is read whole is read in the same way with more behind it.
    have hread := hs.read (rest' ++ more) (ends_append hends helse)
    have hdrop : rest.drop (w.length - 1) = rest' := by
      obtain ⟨u, v, rfl⟩ := List.exists_cons_of_ne_nil hs.ne_nil
      rw [List.cons_append] at hts
      obtain ⟨rfl, rfl⟩ := List.cons.inj hts
      simp
    rw [hdrop] at hss ih
    rw [hts] at hclosed ⊢
    rw [hss] at ih
    rw [List.append_assoc, statements_made hs.ne_nil hread, ih hclosed.of_append hcomplaints]
    rfl
  | case3 t rest c passed hstuck skipped ss cs hss ih =>
    have hfits := declaration_fits (t :: rest)
    rw [hstuck] at hfits
    obtain ⟨w, rest', hts, rfl, hat⟩ := hfits
    -- The complaint is not about the end, so a token is left at which the search can stop.
    have htoken : c.token?.isSome := hcomplaints c (List.mem_cons_self ..)
    have hne : rest' ≠ [] := ne_nil_of_at hat (hts ▸ hclosed) htoken
    have hlength : (t :: rest).length = w.length + rest'.length := by rw [hts, List.length_append]
    have hpos : 0 < rest'.length := List.length_pos_iff.mpr hne
    -- The declaration is stuck in front of `rest'`, so nothing behind the tokens matters for it.
    have hlocal : declaration (t :: (rest ++ more)) = stuck c w.length := by
      rw [← hstuck, ← List.cons_append]
      refine declaration_append more ?_
      rw [hstuck, extent]
      omega
    have hclosed' : Closed rest' := Closed.of_append (hts ▸ hclosed)
    have hboundary : toBoundary ((t :: (rest ++ more)).drop w.length) =
        toBoundary ((t :: rest).drop w.length) := by
      rw [← List.cons_append, hts, List.append_assoc, List.drop_left, List.drop_left]
      exact toBoundary_append hclosed' hne more
    have hskipped : skipped ≤ (t :: rest).length := by
      have hle := toBoundary_le_length ((t :: rest).drop w.length)
      rw [List.length_drop] at hle
      omega
    have hdrop : (rest ++ more).drop (skipped - 1) = rest.drop (skipped - 1) ++ more := by
      refine List.drop_append_of_le_length ?_
      rw [List.length_cons] at hskipped
      omega
    have hrest := ih (hclosed.tail.drop _) (by
      rw [hss]
      exact fun c hc => hcomplaints c (List.mem_cons_of_mem _ hc))
    rw [List.cons_append, statements_stuck hlocal (congrArg (w.length + ·) hboundary), hdrop,
      hrest, hss]
    rfl

/-- A complaint about the shape of something always names a token. -/
theorem isSome_token_of_mem (ts : List Token) (c : Complaint) (hc : c ∈ (statements ts).2)
    (hshape : c.objection.isAboutShape = true) : c.token?.isSome := by
  fun_induction statements ts with
  | case1 => exact absurd hc List.not_mem_nil
  | case2 t rest s taken hmade ss cs hss ih => exact ih (by rwa [hss])
  | case3 t rest c' passed hstuck skipped ss cs hss ih =>
    have hfits := declaration_fits (t :: rest)
    rw [hstuck] at hfits
    obtain ⟨w, rest', _, _, hat⟩ := hfits
    obtain rfl | hc := List.mem_cons.mp hc
    · exact hat.isSome_token hshape
    · exact ih (by rwa [hss])

end Grammar

/-- At the end of the input every complaint but one about a shape says that it ended. -/
theorem Complaint.kind_toError {c : Complaint} {stop : Token} (htoken : c.token? = none)
    (hshape : c.objection.isAboutShape = false) (hstop : stop.kind = .endOfInput) :
    (c.toError stop).kind = .unexpectedEnd := by
  rw [ParseError.kind, Complaint.toError, htoken, if_neg (by rw [hshape]; decide)]
  exact if_pos hstop

/-- Where the end of the input stands matters only for complaints about it. -/
theorem Complaint.toError_eq {c : Complaint} (htoken : c.token?.isSome) (stop stop' : Token) :
    c.toError stop = c.toError stop' := by
  obtain ⟨t, ht⟩ := Option.isSome_iff_exists.mp htoken
  rw [Complaint.toError, Complaint.toError, ht]
  rfl

/-- Tokens that are read without errors, or that end with a semicolon and with no error about the
end of the input, are read as if nothing stood behind them. -/
theorem Token.parse_pieces (ts₁ ts₂ : List Token) (stop₁ stop : Token) (h₁ : Token.NoEnd ts₁)
    (h₂ : Token.NoEnd ts₂) (hstop₁ : stop₁.kind = .endOfInput) (hstop : stop.kind = .endOfInput)
    (helse : startsWith .elseWord ts₂ = false)
    (h : (Token.parse (ts₁ ++ [stop₁])).errors = [] ∨
      ts₁.getLast?.map Token.kind = some .semicolon ∧
      ∀ e ∈ (Token.parse (ts₁ ++ [stop₁])).errors, e.kind ≠ .unexpectedEnd) :
    (Token.parse (ts₁ ++ ts₂ ++ [stop])).program.body =
      (Token.parse (ts₁ ++ [stop₁])).program.body ++
        (Token.parse (ts₂ ++ [stop])).program.body ∧
    (Token.parse (ts₁ ++ ts₂ ++ [stop])).errors =
      (Token.parse (ts₁ ++ [stop₁])).errors ++ (Token.parse (ts₂ ++ [stop])).errors := by
  have h₁₂ : Token.NoEnd (ts₁ ++ ts₂) := fun t ht =>
    (List.mem_append.mp ht).elim (h₁ t) (h₂ t)
  obtain ⟨hbody, herrors⟩ := h₁₂.parse_append hstop
  obtain ⟨hbody₁, herrors₁⟩ := h₁.parse_append hstop₁
  obtain ⟨hbody₂, herrors₂⟩ := h₂.parse_append hstop
  rw [herrors₁] at h
  rw [hbody, herrors, hbody₁, herrors₁, hbody₂, herrors₂]
  obtain hclean | ⟨hlast, hends⟩ := h
  · rw [List.map_eq_nil_iff] at hclean
    have hdecl := Grammar.declarations_of_statements ts₁ hclean
    rw [Grammar.statements_append hdecl ts₂ helse, hclean]
    exact ⟨rfl, rfl⟩
  · -- Only complaints about the end name no token, and there are none of these.
    have hclosed : Grammar.Closed ts₁ := by
      intro t ht
      rw [Option.mem_def.mp ht] at hlast
      exact Option.some.inj hlast
    have htokens : ∀ c ∈ (Grammar.statements ts₁).2, c.token?.isSome := by
      intro c hc
      by_cases hshape : c.objection.isAboutShape = true
      · exact Grammar.isSome_token_of_mem ts₁ c hc hshape
      · refine Option.isSome_iff_ne_none.mpr fun hnone => ?_
        refine hends _ (List.mem_map_of_mem hc) ?_
        exact Complaint.kind_toError hnone (Bool.eq_false_iff.mpr hshape) hstop₁
    rw [Grammar.statements_append_of_closed ts₁ hclosed htokens helse, List.map_append]
    refine ⟨rfl, congrArg (· ++ _) (List.map_congr_left fun c hc => ?_)⟩
    exact Complaint.toError_eq (htokens c hc) stop stop₁

/-- After the error in `var = a;` reading goes on with `b;` as if nothing had been there. -/
theorem Token.parse_pieces_unnamed :
    let t (k : Token.Kind) (x : String) : Token := ⟨k, x, none, 0, 1⟩
    let ts₁ := [t .varWord "var", t .equal "=", t .identifier "a", t .semicolon ";"]
    let ts₂ := [t .identifier "b", t .semicolon ";"]
    let stop := t .endOfInput ""
    (Token.parse (ts₁ ++ [stop])).errors = [⟨.missing .identifier .afterVar, t .equal "="⟩] ∧
    (Token.parse (ts₁ ++ ts₂ ++ [stop])).program.body =
      (Token.parse (ts₁ ++ [stop])).program.body ++ (Token.parse (ts₂ ++ [stop])).program.body ∧
    (Token.parse (ts₁ ++ ts₂ ++ [stop])).errors =
      (Token.parse (ts₁ ++ [stop])).errors ++ (Token.parse (ts₂ ++ [stop])).errors := by
  intro t ts₁ ts₂ stop
  have hstuck : Grammar.declaration ts₁ =
      .stuck ⟨.missing .identifier .afterVar, some (t .equal "=")⟩ 1 := by
    simp only [ts₁, t, Grammar.declaration, Grammar.declared]
    rfl
  have hstatements : Grammar.statements ts₁ =
      ([], [⟨.missing .identifier .afterVar, some (t .equal "=")⟩]) := by
    rw [Grammar.statements_stuck hstuck rfl]
    exact congrArg (fun x => (x.1, _ :: x.2)) Grammar.statements.eq_1
  have hts₁ : Token.NoEnd ts₁ := by decide
  have herrors : (Token.parse (ts₁ ++ [stop])).errors =
      [⟨.missing .identifier .afterVar, t .equal "="⟩] := by
    have hstop : stop.kind = .endOfInput := rfl
    rw [(hts₁.parse_append hstop).2, hstatements]
    rfl
  refine ⟨herrors, Token.parse_pieces ts₁ ts₂ stop stop hts₁ (by decide) rfl rfl rfl (.inr ?_)⟩
  rw [herrors]
  exact ⟨rfl, by simp [ParseError.kind, Objection.isAboutShape, t]⟩

end Lox

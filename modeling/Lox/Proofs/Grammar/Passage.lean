import Lox.Proofs.Grammar.Unfinished

/-!
# Passages

Reading a program goes past its tokens in passages, one after the other: a declaration, or tokens
passed over because a declaration got stuck in them.  `passages` cuts the tokens in this way, and
what `statements` finds is what the passages come to (`statements_eq_passages`).

Tokens in front of others are cut in the same way as on their own but for the last passage, which
may go on behind them (`exists_passages_append`).  If a declaration goes on there, the tokens in
front of it end too early on their own, or an `else` follows (`ends_early_of_made`).
-/

namespace Lox

namespace Grammar

open Reading

/-- Tokens that are gone past in one step, with the statement that was made of them or the complaint
because of which they are passed over. -/
structure Passage where
  tokens : List Token
  outcome : Except Complaint Stmt

namespace Passage

/-- The statement that was made. -/
def statement? (p : Passage) : Option Stmt :=
  match p.outcome with
  | .ok s => some s
  | .error _ => none

/-- The complaint that came up. -/
def complaint? (p : Passage) : Option Complaint :=
  match p.outcome with
  | .ok _ => none
  | .error c => some c

/-- A statement was made of tokens that begin in front of a place and end behind it. -/
def Straddles (p : Passage) (inFront : Token → Prop) : Prop :=
  p.statement?.isSome = true ∧ (∃ t ∈ p.tokens.head?, inFront t) ∧
    ∃ t ∈ p.tokens.getLast?, ¬inFront t

instance (p : Passage) (inFront : Token → Prop) [DecidablePred inFront] :
    Decidable (p.Straddles inFront) :=
  inferInstanceAs (Decidable (p.statement?.isSome = true ∧ (∃ t ∈ p.tokens.head?, inFront t) ∧
    ∃ t ∈ p.tokens.getLast?, ¬inFront t))

end Passage

/-- The number of tokens in the first passage. -/
def span (ts : List Token) : Nat :=
  max 1 (match declaration ts with
    | .made _ taken => taken
    | .stuck _ passed => passed + toBoundary (ts.drop passed))

/-- The first passage of some tokens. -/
def firstPassage (ts : List Token) : Passage :=
  ⟨ts.take (span ts),
    match declaration ts with
    | .made s _ => .ok s
    | .stuck c _ => .error c⟩

/-- The passages of a list of tokens, from left to right. -/
def passages : List Token → List Passage
  | [] => []
  | t :: rest => firstPassage (t :: rest) :: passages ((t :: rest).drop (span (t :: rest)))
termination_by ts => ts.length
decreasing_by simp only [List.length_drop, List.length_cons, span]; omega

theorem passages_of_ne_nil {ts : List Token} (hne : ts ≠ []) :
    passages ts = firstPassage ts :: passages (ts.drop (span ts)) := by
  obtain ⟨t, rest, rfl⟩ := List.exists_cons_of_ne_nil hne
  rw [passages]

/-- No token is lost or belongs to two passages. -/
theorem flatMap_passages (ts : List Token) : (passages ts).flatMap Passage.tokens = ts := by
  fun_induction passages ts with
  | case1 => rfl
  | case2 t rest ih => rw [List.flatMap_cons, ih, firstPassage, List.take_append_drop]

theorem span_made {ts : List Token} {s : Stmt} {n : Nat} (h : declaration ts = made s n) :
    span ts = max 1 n := by
  rw [span, h]

theorem span_stuck {ts : List Token} {c : Complaint} {n : Nat} (h : declaration ts = stuck c n) :
    span ts = max 1 (n + toBoundary (ts.drop n)) := by
  rw [span, h]

theorem drop_max_one (t : Token) (rest : List Token) (n : Nat) :
    (t :: rest).drop (max 1 n) = rest.drop (n - 1) := by
  obtain rfl | hpos := Nat.eq_zero_or_pos n
  · rfl
  · rw [Nat.max_eq_right hpos, ← Nat.sub_add_cancel hpos]
    rfl

/-- What is found in a program is what its passages come to. -/
theorem statements_eq_passages (ts : List Token) :
    statements ts = ((passages ts).filterMap Passage.statement?,
      (passages ts).filterMap Passage.complaint?) := by
  fun_induction statements ts with
  | case1 => rw [passages]; rfl
  | case2 t rest s taken hmade ss cs hss ih =>
    rw [passages, span_made hmade, drop_max_one, firstPassage, hmade]
    rw [hss] at ih
    simp only [List.filterMap_cons, Passage.statement?, Passage.complaint?]
    rw [(Prod.mk.inj ih).1, (Prod.mk.inj ih).2]
  | case3 t rest c passed hstuck skipped ss cs hss ih =>
    rw [passages, span_stuck hstuck, drop_max_one, firstPassage, hstuck]
    rw [hss] at ih
    simp only [List.filterMap_cons, Passage.statement?, Passage.complaint?]
    rw [(Prod.mk.inj ih).1, (Prod.mk.inj ih).2]

/-! ## The length of a passage -/

theorem extent_le_length (ts : List Token) : (declaration ts).extent ≤ ts.length := by
  have hfits := declaration_fits ts
  cases hr : declaration ts with
  | made s n | stuck c n =>
    rw [hr] at hfits
    obtain ⟨w, rest, rfl, rfl, _⟩ := hfits
    rw [extent, List.length_append]
    exact Nat.le_add_right _ _

theorem extent_le_span (ts : List Token) : (declaration ts).extent ≤ span ts := by
  cases hr : declaration ts with
  | made s n =>
    rw [span_made hr]
    exact Nat.le_max_right ..
  | stuck c n =>
    rw [span_stuck hr]
    exact Nat.le_trans (Nat.le_add_right ..) (Nat.le_max_right ..)

theorem span_le_length {ts : List Token} (hne : ts ≠ []) : span ts ≤ ts.length := by
  have hpos : 1 ≤ ts.length := List.length_pos_iff.mpr hne
  have hextent := extent_le_length ts
  cases hr : declaration ts with
  | made s n =>
    rw [hr] at hextent
    rw [span_made hr]
    exact Nat.max_le.mpr ⟨hpos, hextent⟩
  | stuck c n =>
    rw [hr, extent] at hextent
    have hboundary := toBoundary_le_length (ts.drop n)
    rw [List.length_drop] at hboundary
    rw [span_stuck hr]
    exact Nat.max_le.mpr ⟨hpos, by omega⟩

/-- A passage with a statement ends where the declaration does. -/
theorem span_of_made {ts : List Token} {s : Stmt} {n : Nat} (h : declaration ts = made s n) :
    span ts = n := by
  have hfits := declaration_fits ts
  rw [h] at hfits
  obtain ⟨w, rest, _, rfl, o, hs, _⟩ := hfits
  rw [span_made h]
  exact Nat.max_eq_right (List.length_pos_iff.mpr hs.ne_nil)

/-! ## More tokens behind -/

/-- The search for a boundary stops where it does without the tokens behind, or goes through to
them. -/
theorem toBoundary_append_cases (ts more : List Token) :
    toBoundary (ts ++ more) = toBoundary ts ∨
      toBoundary ts = ts.length ∧ ts.length ≤ toBoundary (ts ++ more) := by
  induction ts with
  | nil => exact .inr ⟨rfl, Nat.zero_le _⟩
  | cons t rest ih =>
    rw [List.cons_append, toBoundary, toBoundary, List.length_cons]
    split
    · exact .inl rfl
    · split
      · exact .inl rfl
      · exact ih.imp (congrArg (· + 1)) (And.imp (congrArg (· + 1)) Nat.succ_le_succ)

/-- The first passage is what it is without the tokens behind, or goes through to them. -/
theorem span_append_cases {ts : List Token} (hne : ts ≠ []) (more : List Token) :
    (span (ts ++ more) = span ts ∧ declaration (ts ++ more) = declaration ts) ∨
      span ts = ts.length ∧ ts.length ≤ span (ts ++ more) := by
  have hlength := span_le_length hne
  obtain hsame | ⟨hle, hle'⟩ := declaration_append_cases ts more
  · have hextent := extent_le_length ts
    cases hr : declaration ts with
    | made s n =>
      rw [hr] at hsame
      exact .inl ⟨by rw [span_made hsame, span_made hr], hsame⟩
    | stuck c n =>
      rw [hr] at hsame
      rw [hr, extent] at hextent
      rw [span_stuck hsame, span_stuck hr, List.drop_append_of_le_length hextent]
      rw [span_stuck hr] at hlength
      obtain hboundary | ⟨hthrough, hle⟩ := toBoundary_append_cases (ts.drop n) more
      · exact .inl ⟨by rw [hboundary], hsame⟩
      · rw [List.length_drop] at hthrough hle
        exact .inr ⟨by omega, by omega⟩
  · exact .inr ⟨Nat.le_antisymm hlength (Nat.le_trans hle (extent_le_span ts)),
      Nat.le_trans hle' (extent_le_span _)⟩

/-- Only the last passage of some tokens depends on what stands behind them. -/
theorem exists_passages_append {ts : List Token} (hne : ts ≠ []) (more : List Token) :
    ∃ front last, last ≠ [] ∧ passages ts = front ++ [firstPassage last] ∧
      (firstPassage last).tokens = last ∧ last.length ≤ span (last ++ more) ∧
      passages (ts ++ more) = front ++ passages (last ++ more) := by
  induction ts using passages.induct with
  | case1 => exact absurd rfl hne
  | case2 t rest ih =>
    generalize t :: rest = ts at hne ih
    have hlength := span_le_length hne
    have hsplit := passages_of_ne_nil hne
    by_cases hrest : ts.drop (span ts) = []
    · rw [hrest, passages] at hsplit
      have hwhole : ts.length ≤ span ts := List.drop_eq_nil_iff.mp hrest
      refine ⟨[], ts, hne, hsplit, List.take_of_length_le hwhole, ?_, rfl⟩
      obtain ⟨hsame, _⟩ | ⟨_, hle⟩ := span_append_cases hne more
      · rwa [hsame]
      · exact hle
    · obtain ⟨hspan, hsame⟩ | ⟨hwhole, _⟩ := span_append_cases hne more
      · have hfirst : firstPassage (ts ++ more) = firstPassage ts := by
          rw [firstPassage, firstPassage, hspan, hsame, List.take_append_of_le_length hlength]
        obtain ⟨front, last, hlast, hfront, htokens, hle, hmore⟩ := ih hrest
        refine ⟨firstPassage ts :: front, last, hlast, ?_, htokens, hle, ?_⟩
        · rw [hsplit, hfront, List.cons_append]
        · rw [passages_of_ne_nil (List.append_ne_nil_of_left_ne_nil hne more), hspan, hfirst,
            List.drop_append_of_le_length hlength, hmore, List.cons_append]
      · exact absurd (List.drop_of_length_le (Nat.le_of_eq hwhole.symm)) hrest

/-- Where a declaration goes on behind some tokens, these end too early on their own, or what goes
on is an `else`. -/
theorem ends_early_of_made {ts more : List Token} {s : Stmt} {n : Nat}
    (h : declaration (ts ++ more) = made s n) (hlt : ts.length < n) :
    (∃ c ∈ (firstPassage ts).complaint?, c.token? = none) ∨
      startsWith .elseWord more = true := by
  have hfits := declaration_fits ts
  have hchanged : declaration (ts ++ more) ≠ declaration ts := by
    intro heq
    have hle := extent_le_length ts
    rw [← heq, h, extent] at hle
    omega
  have hend : ts.length ≤ (declaration ts).extent :=
    ((declaration_append_cases ts more).resolve_left hchanged).1
  cases hr : declaration ts with
  | made s' n' =>
    refine .inr (Bool.of_not_eq_false fun helse => hchanged ?_)
    rw [hr] at hfits hend
    obtain ⟨w, rest, rfl, rfl, o, hs, _⟩ := hfits
    rw [extent, List.length_append] at hend
    obtain rfl : rest = [] := List.length_eq_zero_iff.mp (by omega)
    rw [List.append_nil] at hr ⊢
    rw [hr]
    exact hs.read more fun _ => helse
  | stuck c n' =>
    refine .inl ⟨c, ?_, ?_⟩
    · rw [firstPassage, hr]
      rfl
    · rw [hr] at hfits hend
      obtain ⟨w, rest, rfl, rfl, hat⟩ := hfits
      rw [extent, List.length_append] at hend
      obtain rfl : rest = [] := List.length_eq_zero_iff.mp (by omega)
      have hshape : c.objection.isAboutShape = false := by
        refine Bool.eq_false_iff.mpr fun hshape => ?_
        have hstays := (declaration_prospect (w ++ [])).stays (by rw [hr]; exact hshape)
        have hmade := hstays.2 more
        rw [h] at hmade
        exact Bool.noConfusion hmade
      rw [Complaint.At, if_neg (Bool.eq_false_iff.mp hshape)] at hat
      exact hat

/-! ## Statements across a place -/

/-- The tokens behind finish a declaration that the tokens in front begin. -/
def Crosses (front behind : List Token) : Prop :=
  ∃ last ∈ (passages front).getLast?, ∃ s n,
    declaration (last.tokens ++ behind) = made s n ∧ last.tokens.length < n

section Crossing

variable {inFront : Token → Prop} {p : Passage} {ts front behind : List Token}

theorem mem_of_mem_passages (hp : p ∈ passages ts) {t : Token} (ht : t ∈ p.tokens) : t ∈ ts := by
  rw [← flatMap_passages ts]
  exact List.mem_flatMap.mpr ⟨p, hp, ht⟩

theorem not_straddles_of_front (h : ∀ t ∈ p.tokens, inFront t) : ¬p.Straddles inFront :=
  fun ⟨_, _, t, ht, hnot⟩ => hnot (h t (List.mem_of_getLast? ht))

theorem not_straddles_of_behind (h : ∀ t ∈ p.tokens, ¬inFront t) : ¬p.Straddles inFront :=
  fun ⟨_, ⟨t, ht, hin⟩, _⟩ => h t (List.mem_of_mem_head? ht) hin

theorem tokens_firstPassage_append (h : front.length ≤ span (front ++ behind)) :
    (firstPassage (front ++ behind)).tokens =
      front ++ behind.take (span (front ++ behind) - front.length) := by
  rw [firstPassage, List.take_append, List.take_of_length_le h]

/-- A passage that goes through to the tokens behind straddles the place in front of them if a
declaration is made that goes further. -/
theorem firstPassage_straddles_iff (hne : front ≠ [])
    (hle : front.length ≤ span (front ++ behind)) (hfront : ∀ t ∈ front, inFront t)
    (hbehind : ∀ t ∈ behind, ¬inFront t) :
    (firstPassage (front ++ behind)).Straddles inFront ↔
      ∃ s n, declaration (front ++ behind) = made s n ∧ front.length < n := by
  have htokens := tokens_firstPassage_append hle
  constructor
  · rintro ⟨hstatement, _, u, hu, hnot⟩
    cases hr : declaration (front ++ behind) with
    | stuck c n =>
      rw [Passage.statement?, firstPassage, hr] at hstatement
      exact absurd hstatement Bool.false_ne_true
    | made s n =>
      rw [span_of_made hr] at hle htokens
      refine ⟨s, n, rfl, Nat.lt_of_le_of_ne hle fun heq => hnot (hfront u ?_)⟩
      rw [htokens, heq, Nat.sub_self, List.take_zero, List.append_nil] at hu
      exact List.mem_of_getLast? hu
  · rintro ⟨s, n, hmade, hlt⟩
    have hlength := extent_le_length (front ++ behind)
    rw [hmade, extent, List.length_append] at hlength
    rw [span_of_made hmade] at htokens
    have hsome : (behind.take (n - front.length)).getLast?.isSome := by
      rw [List.getLast?_isSome, ← List.length_pos_iff, List.length_take]
      omega
    obtain ⟨u, hu⟩ := Option.isSome_iff_exists.mp hsome
    obtain ⟨t, rest, rfl⟩ := List.exists_cons_of_ne_nil hne
    refine ⟨?_, ⟨t, by rw [htokens]; rfl, hfront t (List.mem_cons_self ..)⟩, u, ?_,
      hbehind u (List.mem_of_mem_take (List.mem_of_getLast? hu))⟩
    · rw [Passage.statement?, firstPassage, hmade]
      rfl
    · rw [htokens, List.getLast?_append, hu]
      rfl

/-- A declaration is finished behind a place exactly if some statement straddles it. -/
theorem crosses_iff (hfront : ∀ t ∈ front, inFront t) (hbehind : ∀ t ∈ behind, ¬inFront t) :
    Crosses front behind ↔ ∃ p ∈ passages (front ++ behind), p.Straddles inFront := by
  by_cases hne : front = []
  · subst hne
    constructor
    · rintro ⟨last, hlast, _⟩
      rw [passages] at hlast
      cases hlast
    · rintro ⟨p, hp, hstraddles⟩
      exact absurd hstraddles
        (not_straddles_of_behind fun t ht => hbehind t (mem_of_mem_passages hp ht))
  obtain ⟨before, last, hlast, hpassages, htokens, hle, hmore⟩ := exists_passages_append hne behind
  have hlast? : (passages front).getLast? = some (firstPassage last) := by
    rw [hpassages, List.getLast?_concat]
  have hin : ∀ t ∈ last, inFront t := by
    rw [← htokens]
    exact fun t ht => hfront t (mem_of_mem_passages (List.mem_of_getLast? hlast?) ht)
  have hcrosses : Crosses front behind ↔ (firstPassage (last ++ behind)).Straddles inFront := by
    rw [firstPassage_straddles_iff hlast hle hin hbehind, Crosses, hlast?]
    simp only [Option.mem_some_iff, exists_eq_left', htokens]
  rw [hcrosses, hmore, passages_of_ne_nil (List.append_ne_nil_of_left_ne_nil hlast behind)]
  constructor
  · exact fun h => ⟨_, List.mem_append_right before (List.mem_cons_self ..), h⟩
  · rintro ⟨p, hp, hstraddles⟩
    obtain hp | hp := List.mem_append.mp hp
    · have hmem : p ∈ passages front := hpassages ▸ List.mem_append_left _ hp
      exact absurd hstraddles
        (not_straddles_of_front fun t ht => hfront t (mem_of_mem_passages hmem ht))
    obtain rfl | hp := List.mem_cons.mp hp
    · exact hstraddles
    · rw [List.drop_append, List.drop_of_length_le hle, List.nil_append] at hp
      exact absurd hstraddles (not_straddles_of_behind fun t ht =>
        hbehind t (List.mem_of_mem_drop (mem_of_mem_passages hp ht)))

/-- Tokens that begin a declaration which others finish end too early on their own, or what goes on
behind them is an `else`. -/
theorem ends_early_of_crosses (h : Crosses front behind) :
    (∃ c ∈ (statements front).2, c.token? = none) ∨ startsWith .elseWord behind = true := by
  obtain ⟨last, hmem, s, n, hmade, hlt⟩ := h
  have hne : front ≠ [] := by
    rintro rfl
    rw [passages] at hmem
    cases hmem
  obtain ⟨before, last, hlast, hpassages, htokens, -⟩ := exists_passages_append hne behind
  rw [hpassages, List.getLast?_concat] at hmem
  obtain rfl := Option.some.inj hmem
  rw [htokens] at hmade hlt
  refine (ends_early_of_made hmade hlt).imp_left ?_
  rintro ⟨c, hc, htoken⟩
  refine ⟨c, ?_, htoken⟩
  rw [statements_eq_passages, hpassages]
  exact List.mem_filterMap.mpr ⟨_, List.mem_append_right before (List.mem_singleton_self _), hc⟩

end Crossing

end Grammar

end Lox

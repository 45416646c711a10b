import Lox.Proofs.Grammar.Progress
import Mathlib.Data.List.Forall2
import Mathlib.Data.List.TakeWhile

/-!
# Where errors stand

Errors come in the order of the tokens they name, and so do the statements that are read
(`Token.parse_diagnosed`).  A complaint stands where its declaration is stuck, or further in front
if it is about a shape, and behind it reading goes on at a boundary.  So only a token at which
reading goes on can be named again, by the declaration that begins there, and only `class` begins
none.

An error shows its token, but not which of several equal tokens it is.  Positions are therefore
told by tokens that carry them as their places: what is read does not depend on places.
-/

namespace Lox

/-! ## Positions -/

/-- The token with its position for its place; as a line the position is negative, which keeps the
two numbers apart. -/
def Token.numbered (i : Nat) (t : Token) : Token :=
  { t with offset := .ofNat i, line := .negSucc i }

/-- The position that the token of an error carries. -/
def ParseError.position (e : ParseError) : Nat := e.token.offset.toNat

/-- Tokens side by side: those from the position `start` on that stand in front of `stop`. -/
structure Token.Range where
  start : Nat
  stop : Nat

namespace Token

/-- The positions of the errors in a list of tokens. -/
def errorPositions (tokens : List Token) : List Nat :=
  (parse ((view tokens).mapIdx numbered)).errors.map ParseError.position

/-- The tokens carry their positions, the first one the position `n`. -/
def NumberedFrom (n : Nat) (ts : List Token) : Prop :=
  ∀ (i : Nat) (t : Token), ts[i]? = some t → t.offset = .ofNat (n + i)

theorem NumberedFrom.drop {n : Nat} {ts : List Token} (h : NumberedFrom n ts) (k : Nat) :
    NumberedFrom (n + k) (ts.drop k) := by
  intro i t ht
  rw [List.getElem?_drop] at ht
  rw [Nat.add_assoc]
  exact h (k + i) t ht

theorem numberedFrom_mapIdx (ts : List Token) : NumberedFrom 0 (ts.mapIdx numbered) := by
  intro i t ht
  rw [List.getElem?_mapIdx] at ht
  obtain ⟨u, -, rfl⟩ := Option.map_eq_some_iff.mp ht
  rw [Nat.zero_add]
  rfl

/-- The place that the token at a position has in a list of tokens. -/
def placeIn (ts : List Token) : Int → Int
  | .ofNat i => (ts[i]?.map offset).getD 0
  | .negSucc i => (ts[i]?.map line).getD 0

/-- With their places the tokens are what they were. -/
theorem map_renumber_numbered (ts : List Token) :
    (ts.mapIdx numbered).map (Token.renumber (placeIn ts)) = ts := by
  refine List.ext_getElem? fun i => ?_
  rw [List.getElem?_map, List.getElem?_mapIdx, Option.map_map]
  cases hi : ts[i]? with
  | none => rfl
  | some t => simp only [Option.map_some, Function.comp_apply, numbered, renumber, placeIn, hi,
      Option.getD_some]

end Token

namespace Grammar

open Reading

/-! ## One complaint -/

/-- A declaration gets past a word that it can begin with; `class` alone begins none. -/
theorem kind_of_stuck_zero {t : Token} {rest : List Token} {c : Complaint}
    (h : declaration (t :: rest) = stuck c 0) (ht : t.kind.startsStatement = true) :
    t.kind = .classWord := by
  have hpast : ¬∃ r : Reading Stmt, declaration (t :: rest) = r.shift 1 := by
    rintro ⟨r, hr⟩
    have hextent := congrArg extent (hr.symm.trans h)
    rw [extent_shift, extent] at hextent
    omega
  cases hkind : t.kind with
  | classWord => rfl
  | varWord | funWord => exact absurd ⟨_, by rw [declaration, hkind]⟩ hpast
  | ifWord | forWord | printWord | returnWord | whileWord =>
    have hstatement := declaration_statement (t := t) (by rw [hkind]; decide)
      (by rw [hkind]; decide) rest
    exact absurd ⟨_, by rw [hstatement, statement, hkind]⟩ hpast
  | _ =>
    rw [hkind] at ht
    exact absurd ht Bool.false_ne_true

variable {n : Nat} {ts : List Token} {c : Complaint} {p : Nat}

/-- A complaint names the token in front of which its declaration is stuck, or one further in
front, which is no boundary. -/
theorem exists_index (h : declaration ts = stuck c p) :
    ∃ i ≤ p, i ≤ ts.length ∧ c.token? = ts[i]? ∧
      (i < p → ∀ t, ts[i]? = some t → t.kind.isBoundary = false) := by
  have hfits := declaration_fits ts
  rw [h] at hfits
  obtain ⟨w, rest, rfl, rfl, hat⟩ := hfits
  rw [Complaint.At] at hat
  split at hat
  · obtain ⟨v, t, u, rfl, htoken, hboundary⟩ := hat
    have hget : (v ++ t :: u ++ rest)[v.length]? = some t := by simp
    refine ⟨v.length, by simp, by simp, htoken.trans hget.symm, fun _ u hu => ?_⟩
    obtain rfl := Option.some.inj (hget.symm.trans hu)
    exact hboundary t (List.mem_cons_self ..)
  · have hget : (w ++ rest)[w.length]? = rest.head? := by
      rw [List.getElem?_append_right (Nat.le_refl _), Nat.sub_self, List.head?_eq_getElem?]
    exact ⟨w.length, Nat.le_refl _, by simp, hat.trans hget.symm,
      fun hlt => absurd hlt (Nat.lt_irrefl _)⟩

/-- In tokens that carry their positions, an error has the position of the token it names, or of the
end. -/
theorem position_toError {stop : Token} (hts : Token.NumberedFrom n ts)
    (hstop : stop.offset = .ofNat (n + ts.length)) {i : Nat} (hi : i ≤ ts.length)
    (htoken : c.token? = ts[i]?) : (c.toError stop).position = n + i := by
  rw [ParseError.position, Complaint.toError, htoken]
  cases hget : ts[i]? with
  | some t =>
    rw [Option.getD_some, hts i t hget]
    rfl
  | none =>
    have hend : i = ts.length := Nat.le_antisymm hi (List.getElem?_eq_none_iff.mp hget)
    rw [Option.getD_none, hstop, hend]
    rfl

/-- Where no token is passed over on the way to a boundary, one stands there. -/
theorem startsStatement_of_toBoundary (h : toBoundary ts = 0) :
    ∀ t ∈ ts.head?, t.kind.startsStatement = true := by
  cases ts with
  | nil => exact fun _ ht => nomatch ht
  | cons t rest =>
    rintro _ ⟨⟩
    rw [toBoundary] at h
    split at h
    · omega
    · split at h
      · assumption
      · omega

/-! ## All complaints -/

/-- The ranges of the tokens that statements were made of, where the passages begin at the position
`n`. -/
def statementRanges (n : Nat) : List Passage → List Token.Range
  | [] => []
  | p :: ps =>
    let stop := n + p.tokens.length
    match p.outcome with
    | .ok _ => ⟨n, stop⟩ :: statementRanges stop ps
    | .error _ => statementRanges stop ps

/-- How the positions of errors and the ranges of statements lie in the tokens `ts`, which begin at
the position `n`. -/
structure Laid (n : Nat) (ts : List Token) (positions : List Nat) (ranges : List Token.Range) :
    Prop where
  within : ∀ k ∈ positions, n ≤ k ∧ k ≤ n + ts.length
  ordered : positions.Pairwise (· ≤ ·)
  twice : ∀ k, positions.count k ≤ 2
  shared : ∀ k, 1 < positions.count k → ∃ t, ts[k - n]? = some t ∧ t.kind = .classWord
  /-- At the first position there is at most one error, and none if a statement begins there. -/
  once : positions.count n ≤ 1
  front : n ∈ positions →
    ∃ t, ts.head? = some t ∧ (t.kind.startsStatement = true → t.kind = .classWord)
  inside : ∀ r ∈ ranges, n ≤ r.start ∧ r.start < r.stop ∧ r.stop ≤ n + ts.length
  disjoint : ranges.Pairwise fun r r' => r.stop ≤ r'.start
  clear : ∀ r ∈ ranges, ∀ k ∈ positions, k ≤ r.start ∨ r.stop ≤ k
  last : positions.Pairwise fun k _ => k < n + ts.length

section Laid

variable {m i : Nat} {positions : List Nat} {ranges : List Token.Range}

theorem laid_nil (n : Nat) : Laid n [] [] [] where
  within _ h := nomatch h
  ordered := .nil
  twice _ := Nat.zero_le _
  shared _ h := nomatch h
  once := Nat.zero_le _
  front h := nomatch h
  inside _ h := nomatch h
  disjoint := .nil
  clear _ h := nomatch h
  last := .nil

/-- Errors behind the first passage are not in front of it. -/
theorem Laid.count_eq_zero (h : Laid (n + m) (ts.drop m) positions ranges) {k : Nat}
    (hk : k < n + m) : positions.count k = 0 :=
  List.count_eq_zero.mpr fun hmem => Nat.not_le_of_lt hk (h.within k hmem).1

theorem Laid.last_drop (h : Laid (n + m) (ts.drop m) positions ranges) (hle : m ≤ ts.length) :
    positions.Pairwise fun k _ => k < n + ts.length := by
  have hlast := h.last
  rwa [List.length_drop, Nat.add_assoc, Nat.add_sub_cancel' hle] at hlast

/-- The first passage does not matter for the token at a position behind it. -/
theorem Laid.shared_drop (h : Laid (n + m) (ts.drop m) positions ranges) {k : Nat}
    (hk : 1 < positions.count k) : ∃ t, ts[k - n]? = some t ∧ t.kind = .classWord := by
  obtain ⟨t, ht, hkind⟩ := h.shared k hk
  have hle := (h.within k (List.count_pos_iff.mp (by omega))).1
  refine ⟨t, ?_, hkind⟩
  rwa [List.getElem?_drop, show m + (k - (n + m)) = k - n by omega] at ht

/-- A statement in front. -/
theorem Laid.statement (h : Laid (n + m) (ts.drop m) positions ranges) (hm : 0 < m)
    (hle : m ≤ ts.length) : Laid n ts positions (⟨n, n + m⟩ :: ranges) where
  within k hk := by
    have hwithin := h.within k hk
    rw [List.length_drop] at hwithin
    omega
  ordered := h.ordered
  twice := h.twice
  shared _ := h.shared_drop
  once := by
    rw [h.count_eq_zero (by omega)]
    exact Nat.zero_le 1
  front hn := by
    have hwithin := h.within n hn
    omega
  inside := by
    refine List.forall_mem_cons.mpr ⟨⟨Nat.le_refl n, by simpa using hm, by simpa using hle⟩, ?_⟩
    intro r hr
    have hinside := h.inside r hr
    rw [List.length_drop] at hinside
    omega
  disjoint := List.pairwise_cons.mpr ⟨fun r hr => (h.inside r hr).1, h.disjoint⟩
  clear := List.forall_mem_cons.mpr ⟨fun k hk => .inr (h.within k hk).1, h.clear⟩
  last := h.last_drop hle

/-- A complaint in front, about the token at the position `n + i`, with `m` tokens passed over. -/
theorem Laid.complaint (h : Laid (n + m) (ts.drop m) positions ranges) (hm : 0 < m)
    (hle : m ≤ ts.length) (hi : i ≤ m)
    (hnext : i = m → ∀ t ∈ (ts.drop m).head?, t.kind.startsStatement = true)
    (hfirst : i = 0 → ∀ t ∈ ts.head?, t.kind.startsStatement = true → t.kind = .classWord) :
    Laid n ts ((n + i) :: positions) ranges := by
  have hbehind : ∀ k ∈ positions, n + i ≤ k := fun k hk => by
    have hwithin := (h.within k hk).1
    omega
  -- The position is named again only by a declaration that begins there.
  have hagain : 0 < positions.count (n + i) → i = m := fun hpos => by
    have hwithin := (h.within _ (List.count_pos_iff.mp hpos)).1
    omega
  constructor
  case within =>
    refine List.forall_mem_cons.mpr ⟨by omega, fun k hk => ?_⟩
    have hwithin := h.within k hk
    rw [List.length_drop] at hwithin
    omega
  case ordered => exact List.pairwise_cons.mpr ⟨hbehind, h.ordered⟩
  case twice =>
    intro k
    rw [List.count_cons]
    split
    · rename_i heq
      obtain rfl := beq_iff_eq.mp heq
      by_cases hpos : 0 < positions.count (n + i)
      · have honce := h.once
        rw [← hagain hpos] at honce
        omega
      · omega
    · exact h.twice k
  case shared =>
    intro k hk
    rw [List.count_cons] at hk
    split at hk
    · rename_i heq
      obtain rfl := beq_iff_eq.mp heq
      obtain rfl := hagain (by omega)
      have hmem : n + i ∈ positions := List.count_pos_iff.mp (by omega)
      obtain ⟨t, ht, hclass⟩ := h.front hmem
      refine ⟨t, ?_, hclass (hnext rfl t ht)⟩
      rwa [Nat.add_sub_cancel_left, ← List.head?_drop]
    · exact h.shared_drop hk
  case once =>
    rw [List.count_cons, h.count_eq_zero (by omega)]
    split <;> omega
  case front =>
    intro hn
    obtain ⟨t, rest, rfl⟩ := List.exists_cons_of_length_pos (Nat.lt_of_lt_of_le hm hle)
    refine ⟨t, rfl, ?_⟩
    rcases List.mem_cons.mp hn with heq | hmem
    · exact hfirst (by omega) t rfl
    · have hwithin := (h.within n hmem).1
      omega
  case inside =>
    intro r hr
    have hinside := h.inside r hr
    rw [List.length_drop] at hinside
    omega
  case disjoint => exact h.disjoint
  case clear =>
    intro r hr
    refine List.forall_mem_cons.mpr ⟨.inl ?_, h.clear r hr⟩
    have hstart := (h.inside r hr).1
    omega
  case last =>
    refine List.pairwise_cons.mpr ⟨fun k hk => ?_, h.last_drop hle⟩
    -- With the end named, nothing is left that could be named as well.
    by_contra hend
    have hwithin := h.within k hk
    rw [List.length_drop] at hwithin
    obtain rfl : k = n + m := by omega
    obtain ⟨t, ht, -⟩ := h.front hk
    rw [List.drop_of_length_le (by omega)] at ht
    exact nomatch ht

end Laid

theorem length_firstPassage (hle : span ts ≤ ts.length) :
    (firstPassage ts).tokens.length = span ts := by
  rw [firstPassage, List.length_take, Nat.min_eq_left hle]

theorem outcome_made {s : Stmt} {k : Nat} (hr : declaration ts = made s k) :
    (firstPassage ts).outcome = .ok s := by
  rw [firstPassage, hr]

theorem outcome_stuck {c : Complaint} {k : Nat} (hr : declaration ts = stuck c k) :
    (firstPassage ts).outcome = .error c := by
  rw [firstPassage, hr]

/-- The positions and ranges of all passages. -/
theorem laid_passages {stop : Token} (hts : Token.NumberedFrom n ts)
    (hstop : stop.offset = .ofNat (n + ts.length)) :
    Laid n ts (((statements ts).2.map (·.toError stop)).map ParseError.position)
      (statementRanges n (passages ts)) := by
  rw [statements_eq_passages]
  induction ts using passages.induct generalizing n with
  | case1 =>
    rw [passages]
    exact laid_nil n
  | case2 t rest ih =>
    have hle := span_le_length (List.cons_ne_nil t rest)
    rw [passages]
    generalize t :: rest = ts at hts hstop ih hle ⊢
    have hpos : 0 < span ts := Nat.le_max_left ..
    have hrest := ih (n := n + span ts) (hts.drop _) (by
      rw [hstop, List.length_drop, Nat.add_assoc, Nat.add_sub_cancel' hle])
    rw [statementRanges, length_firstPassage hle]
    cases hr : declaration ts with
    | made s k =>
      simp only [List.filterMap_cons, Passage.complaint?, outcome_made hr]
      exact hrest.statement hpos hle
    | stuck c k =>
      obtain ⟨i, hik, hi, htoken, hboundary⟩ := exists_index hr
      have hposition := position_toError hts hstop hi htoken
      have hspan := span_stuck hr
      simp only [List.filterMap_cons, Passage.complaint?, outcome_stuck hr, List.map_cons,
        hposition]
      refine hrest.complaint hpos hle (by omega) ?_ ?_
      · -- Reading goes on at the token that was named, so nothing was passed over.
        intro him
        have hk : k = span ts := by omega
        rw [← hk]
        exact startsStatement_of_toBoundary (by omega)
      · rintro rfl t ht hstarts
        obtain ⟨rest', rfl⟩ := List.head?_eq_some_iff.mp ht
        rcases Nat.eq_zero_or_pos k with rfl | hk
        · exact kind_of_stuck_zero hr hstarts
        · have hnot := hboundary hk t rfl
          rw [Token.Kind.isBoundary, hstarts, Bool.or_true] at hnot
          exact absurd hnot.symm Bool.false_ne_true

/-- Each passage is the first one of the tokens that are left where it begins. -/
theorem exists_drop_of_mem_passages {q : Passage} (hq : q ∈ passages ts) :
    ∃ k ≤ ts.length, q = firstPassage (ts.drop k) := by
  induction ts using passages.induct with
  | case1 =>
    rw [passages] at hq
    cases hq
  | case2 t rest ih =>
    have hle := span_le_length (List.cons_ne_nil t rest)
    rw [passages] at hq
    generalize t :: rest = ts at ih hle hq ⊢
    rcases List.mem_cons.mp hq with rfl | hq
    · exact ⟨0, Nat.zero_le _, rfl⟩
    · obtain ⟨k, hk, rfl⟩ := ih hq
      rw [List.length_drop] at hk
      exact ⟨span ts + k, by omega, by rw [List.drop_drop]⟩

/-- Every complaint names one of the tokens or the end. -/
theorem exists_index_of_mem (hc : c ∈ (statements ts).2) :
    ∃ i ≤ ts.length, c.token? = ts[i]? := by
  rw [statements_eq_passages] at hc
  obtain ⟨q, hq, hcomplaint⟩ := List.mem_filterMap.mp hc
  obtain ⟨k, hk, rfl⟩ := exists_drop_of_mem_passages hq
  cases hr : declaration (ts.drop k) with
  | made s m =>
    rw [Passage.complaint?, firstPassage, hr] at hcomplaint
    cases hcomplaint
  | stuck c' m =>
    rw [Passage.complaint?, firstPassage, hr] at hcomplaint
    obtain rfl := Option.some.inj hcomplaint
    obtain ⟨i, -, hi, htoken, -⟩ := exists_index hr
    rw [List.length_drop] at hi
    rw [List.getElem?_drop] at htoken
    exact ⟨k + i, by omega, htoken⟩

section Renumber

variable (f : Int → Int)

theorem span_renumber (ts : List Token) : span (ts.map (Token.renumber f)) = span ts := by
  cases hr : declaration ts with
  | made s k =>
    have hr' : declaration (ts.map (Token.renumber f)) = made (s.renumber f) k := by
      rw [declaration_renumber, hr, Reading.renumber]
    rw [span_made hr, span_made hr']
  | stuck c k =>
    have hr' : declaration (ts.map (Token.renumber f)) = stuck (c.renumber f) k := by
      rw [declaration_renumber, hr, Reading.renumber]
    rw [span_stuck hr, span_stuck hr', ← List.map_drop, toBoundary_renumber]

/-- Where the tokens stand makes no difference for the ranges of statements. -/
theorem statementRanges_renumber (n : Nat) (ts : List Token) :
    statementRanges n (passages (ts.map (Token.renumber f))) = statementRanges n (passages ts) := by
  induction ts using passages.induct generalizing n with
  | case1 => rfl
  | case2 t rest ih =>
    rw [List.map_cons, passages, passages, ← List.map_cons]
    generalize t :: rest = ts at ih ⊢
    have hlength : (firstPassage (ts.map (Token.renumber f))).tokens.length =
        (firstPassage ts).tokens.length := by
      rw [firstPassage, firstPassage, span_renumber, ← List.map_take, List.length_map]
    rw [statementRanges, statementRanges, hlength, span_renumber, ← List.map_drop, ih]
    cases hr : declaration ts with
    | made s k => simp only [firstPassage, declaration_renumber, hr, Reading.renumber]
    | stuck c k => simp only [firstPassage, declaration_renumber, hr, Reading.renumber]

end Renumber

/-- The range of each statement holds the tokens that it was made of. -/
theorem made_statementRanges (n : Nat) (ts : List Token) :
    List.Forall₂ (fun s r => n ≤ r.start ∧
        declaration (ts.drop (r.start - n)) = made s (r.stop - r.start))
      (statements ts).1 (statementRanges n (passages ts)) := by
  rw [statements_eq_passages]
  induction ts using passages.induct generalizing n with
  | case1 =>
    rw [passages]
    exact .nil
  | case2 t rest ih =>
    have hle := span_le_length (List.cons_ne_nil t rest)
    rw [passages]
    generalize t :: rest = ts at ih hle ⊢
    have hrest := (ih (n + span ts)).imp (S := fun s r => n ≤ r.start ∧
        declaration (ts.drop (r.start - n)) = made s (r.stop - r.start)) fun s r hr => by
      obtain ⟨hstart, hmade⟩ := hr
      rw [List.drop_drop, show span ts + (r.start - (n + span ts)) = r.start - n by omega] at hmade
      exact ⟨by omega, hmade⟩
    rw [statementRanges, length_firstPassage hle]
    cases hr : declaration ts with
    | made s k =>
      simp only [List.filterMap_cons, Passage.statement?, outcome_made hr]
      refine .cons ⟨Nat.le_refl n, ?_⟩ hrest
      rw [Nat.sub_self, List.drop_zero, Nat.add_sub_cancel_left, span_of_made hr, hr]
    | stuck c k =>
      simp only [List.filterMap_cons, Passage.statement?, outcome_stuck hr]
      exact hrest

end Grammar

/-! ## A program -/

namespace Token

variable (tokens : List Token)

theorem noEnd_beforeEnd : NoEnd (beforeEnd tokens) := by
  intro t ht
  have hbne := List.mem_takeWhile_imp ht
  exact bne_iff_ne.mp hbne

theorem kind_endToken : (endToken tokens).kind = .endOfInput := by
  rw [endToken]
  split
  · rename_i hfind
    have hbeq := List.find?_some hfind
    exact beq_iff_eq.mp hbeq
  · split <;> rfl

/-- The ranges of the tokens that the statements of a program were made of. -/
def statementRanges : List Range :=
  Grammar.statementRanges 0 (Grammar.passages (beforeEnd tokens))

/-- With positions, the errors are the complaints about the tokens in front of the end. -/
theorem exists_errors_numbered : ∃ stop : Token, stop.offset = .ofNat (endIndex tokens) ∧
    (parse ((view tokens).mapIdx numbered)).errors =
      (Grammar.statements ((beforeEnd tokens).mapIdx numbered)).2.map (·.toError stop) := by
  obtain ⟨after, hview⟩ := exists_view tokens
  have hts : NoEnd ((beforeEnd tokens).mapIdx numbered) := by
    intro t ht
    obtain ⟨i, hi, rfl⟩ := List.mem_mapIdx.mp ht
    exact noEnd_beforeEnd tokens (beforeEnd tokens)[i] (List.getElem_mem hi)
  have hstop : ((endToken tokens).numbered (endIndex tokens)).kind = .endOfInput :=
    kind_endToken tokens
  refine ⟨(endToken tokens).numbered (endIndex tokens), rfl, ?_⟩
  rw [hview, List.mapIdx_append, List.mapIdx_cons, Nat.zero_add, length_beforeEnd, parse,
    hts.beforeEnd_append_cons hstop, hts.endToken_append_cons hstop]

theorem length_numbered : ((beforeEnd tokens).mapIdx numbered).length = endIndex tokens := by
  rw [List.length_mapIdx, length_beforeEnd]

/-- In front of the end the view shows the tokens themselves. -/
theorem view_of_lt {k : Nat} (hk : k < endIndex tokens) :
    (view tokens)[k]? = (beforeEnd tokens)[k]? := by
  obtain ⟨after, hview⟩ := exists_view tokens
  rw [hview, List.getElem?_append_left (by rwa [length_beforeEnd])]

/-- What is found in a list of tokens is what is found with positions, with the places put back. -/
theorem errors_eq : (parse tokens).errors =
    (Grammar.statements ((beforeEnd tokens).mapIdx numbered)).2.map fun c =>
      (c.renumber (placeIn (beforeEnd tokens))).toError (endToken tokens) := by
  have hread := Grammar.statements_renumber (placeIn (beforeEnd tokens))
    ((beforeEnd tokens).mapIdx numbered)
  rw [map_renumber_numbered] at hread
  rw [parse, hread]
  exact List.map_map

variable {tokens}

/-- With the places put back, a complaint about tokens with positions names the token that stands at
its position. -/
theorem view_of_mem {c : Complaint} {stop : Token} (hstop : stop.offset = .ofNat (endIndex tokens))
    (hc : c ∈ (Grammar.statements ((beforeEnd tokens).mapIdx numbered)).2) :
    (c.toError stop).position ≤ endIndex tokens ∧
    (view tokens)[(c.toError stop).position]? =
      some ((c.renumber (placeIn (beforeEnd tokens))).toError (endToken tokens)).token := by
  have hlength := length_numbered tokens
  obtain ⟨i, hi, htoken⟩ := Grammar.exists_index_of_mem hc
  have hposition := Grammar.position_toError (numberedFrom_mapIdx (beforeEnd tokens))
    (by rw [hstop, hlength, Nat.zero_add]) hi htoken
  rw [hposition, Nat.zero_add]
  rw [hlength] at hi
  have hback := congrArg (·[i]?) (map_renumber_numbered (beforeEnd tokens))
  simp only [List.getElem?_map] at hback
  rw [view_eq_head tokens hi, List.head?_drop, ← hback, Complaint.toError, Complaint.renumber,
    htoken]
  exact ⟨hi, rfl⟩

/-- An error that names a token says that the input ended only if it did. -/
theorem kind_toError_iff {c : Complaint} {stop : Token} (hstop : stop.kind = .endOfInput)
    (htoken : ∀ t, c.token? = some t → t.kind ≠ .endOfInput)
    (hshape : c.objection.isAboutShape = true → c.token?.isSome) :
    (c.toError stop).kind = .unexpectedEnd ↔ (c.toError stop).token.kind = .endOfInput := by
  cases hc : c.token? with
  | none =>
    have hnot : c.objection.isAboutShape = false := by
      refine Bool.eq_false_iff.mpr fun h => ?_
      rw [hc] at hshape
      exact absurd (hshape h) Bool.false_ne_true
    refine iff_of_true (Complaint.kind_toError hc hnot hstop) ?_
    rw [Complaint.toError, hc]
    exact hstop
  | some t =>
    have hkind := htoken t hc
    have hnamed : (c.toError stop).token = t := by rw [Complaint.toError, hc]; rfl
    refine iff_of_false ?_ (by rw [hnamed]; exact hkind)
    rw [ParseError.kind, hnamed, if_neg hkind]
    split
    · simp
    · split <;> simp

theorem kind_iff_of_mem {e : ParseError} (he : e ∈ (parse tokens).errors) :
    e.kind = .unexpectedEnd ↔ e.token.kind = .endOfInput := by
  obtain ⟨c, hc, rfl⟩ := List.mem_map.mp he
  obtain ⟨i, -, htoken⟩ := Grammar.exists_index_of_mem hc
  refine kind_toError_iff (kind_endToken tokens) (fun t ht => ?_)
    (Grammar.isSome_token_of_mem _ c hc)
  exact noEnd_beforeEnd tokens t (List.mem_of_getElem? (htoken.symm.trans ht))

variable (tokens)

/-- What the errors and the statements of a list of tokens keep to. -/
structure Diagnosed : Prop where
  /-- With positions there are the same errors, and each one names the token at its position. -/
  named : List.Forall₂ (fun e e' => e.objection = e'.objection ∧ e'.position ≤ endIndex tokens ∧
      (view tokens)[e'.position]? = some e.token)
    (parse tokens).errors (parse ((view tokens).mapIdx numbered)).errors
  ordered : (errorPositions tokens).Pairwise (· ≤ ·)
  /-- No token is named by more than two errors, and only `class` by two. -/
  twice : ∀ k, (errorPositions tokens).count k ≤ 2
  shared : ∀ k, 1 < (errorPositions tokens).count k →
    (view tokens)[k]?.map kind = some .classWord
  /-- The errors at the end of the input are those that say that it ended. -/
  ended : ∀ e ∈ (parse tokens).errors, e.kind = .unexpectedEnd ↔ e.token.kind = .endOfInput
  /-- Only the last error can be at the end of the input. -/
  last : (parse tokens).errors.Pairwise fun e _ => e.token.kind ≠ .endOfInput
  /-- The tokens in the range of a statement are those that it is made of. -/
  made : List.Forall₂ (fun s r =>
      Grammar.declaration ((beforeEnd tokens).drop r.start) = .made s (r.stop - r.start))
    (parse tokens).program.body (statementRanges tokens)
  inside : ∀ r ∈ statementRanges tokens, r.start < r.stop ∧ r.stop ≤ endIndex tokens
  disjoint : (statementRanges tokens).Pairwise fun r r' => r.stop ≤ r'.start
  /-- Of the tokens of a statement at most the first one is named by an error. -/
  clear : ∀ r ∈ statementRanges tokens, ∀ k ∈ errorPositions tokens,
    r.start ≤ k → k < r.stop → k = r.start

/-- Whatever the tokens are, the errors and the statements come in the order of the tokens, no token
but `class` is named twice, and the errors lie outside of the statements or at their beginning. -/
theorem parse_diagnosed : Diagnosed tokens := by
  obtain ⟨stop, hstop, hnumbered⟩ := exists_errors_numbered tokens
  have hlength := length_numbered tokens
  have hranges : Grammar.statementRanges 0 (Grammar.passages ((beforeEnd tokens).mapIdx numbered)) =
      statementRanges tokens := by
    rw [statementRanges, ← Grammar.statementRanges_renumber (placeIn (beforeEnd tokens)),
      map_renumber_numbered]
  have hlaid := Grammar.laid_passages (numberedFrom_mapIdx (beforeEnd tokens))
    (by rw [hstop, hlength, Nat.zero_add])
  rw [← hnumbered, hranges] at hlaid
  constructor
  case named =>
    rw [errors_eq, hnumbered, List.forall₂_map_left_iff, List.forall₂_map_right_iff,
      List.forall₂_same]
    exact fun c hc => ⟨rfl, view_of_mem hstop hc⟩
  case ordered => exact hlaid.ordered
  case twice => exact hlaid.twice
  case shared =>
    intro k hk
    obtain ⟨t, ht, hclass⟩ := hlaid.shared k hk
    have hlt : k < endIndex tokens := by
      rw [← hlength]
      exact (List.getElem?_eq_some_iff.mp ht).1
    rw [Nat.sub_zero, List.getElem?_mapIdx] at ht
    obtain ⟨u, hu, rfl⟩ := Option.map_eq_some_iff.mp ht
    rw [view_of_lt tokens hlt, hu]
    exact congrArg some hclass
  case ended => exact fun e he => kind_iff_of_mem he
  case last =>
    have hlast := hlaid.last
    rw [hnumbered, List.pairwise_map, List.pairwise_map, Nat.zero_add, hlength] at hlast
    rw [errors_eq, List.pairwise_map]
    refine hlast.imp_of_mem fun {c _} hc _ hlt => ?_
    -- In front of the end stands one of the tokens, and none of these is an end.
    obtain ⟨-, hnamed⟩ := view_of_mem hstop hc
    rw [view_of_lt tokens hlt] at hnamed
    exact noEnd_beforeEnd tokens _ (List.mem_of_getElem? hnamed)
  case made =>
    refine (Grammar.made_statementRanges 0 (beforeEnd tokens)).imp fun s r hr => ?_
    exact hr.2
  case inside =>
    intro r hr
    have hinside := hlaid.inside r hr
    rw [hlength] at hinside
    omega
  case disjoint => exact hlaid.disjoint
  case clear =>
    intro r hr k hk hle hlt
    have hclear := hlaid.clear r hr k hk
    omega

/-- In `x = class` a declaration gets stuck at `class`, and the next one begins there. -/
example :
    let t (k : Kind) (x : String) : Token := ⟨k, x, none, 0, 1⟩
    errorPositions [t .identifier "x", t .equal "=", t .classWord "class"] = [2, 2] := by
  decide +kernel

end Token

end Lox

import Lox.Proofs.Grammar.Completeness
import Lox.Proofs.Grammar.Locality
import Lox.Proofs.Grammar.Soundness

/-!
# What more tokens can still change

A rule that is stuck at a token stays stuck whatever comes behind that token.  Two cases are left,
and `Reading.Prospect` says for a rule and its tokens what becomes of them.  An objection to a shape
may stand at the very end of the tokens, and it stays: with more tokens the rule gets stuck again,
there or further on.  Tokens that simply end too early can be completed by a few tokens of closing
kinds, either to a phrase or up to the point where an assignment among them is found to have no name
for its target.

As for `Fits` and `Agrees` there is one lemma for each combinator, and the rules follow.  What goes
on behind tokens that all belong to the rule before is completed from nothing, so the lemma for
`andThen` asks for a phrase of closing kinds that can come next.
-/

namespace Lox

/-- The kinds of tokens that complete what is unfinished. -/
def Token.Kind.closing : List Token.Kind :=
  [.leftParen, .rightParen, .leftBrace, .rightBrace, .semicolon, .identifier, .nilWord]

namespace Reading

variable {α β γ : Type} {P : List Token → α → Prop} {Q : List Token → β → Prop}
  {R S : List Token → Reading α} {ts rest : List Token} {t : Token}

/-- The reading made something. -/
def isMade : Reading α → Bool
  | made _ _ => true
  | stuck _ _ => false

/-- The reading is stuck because the tokens ended. -/
def isUnfinished : Reading α → Bool
  | made _ _ => false
  | stuck c _ => c.token?.isNone

/-- The reading is stuck because of the shape of something. -/
def isMisshapen : Reading α → Bool
  | made _ _ => false
  | stuck c _ => c.objection.isAboutShape

@[simp] theorem isMade_shift (r : Reading α) (n : Nat) : (r.shift n).isMade = r.isMade := by
  cases r <;> rfl

@[simp] theorem isUnfinished_shift (r : Reading α) (n : Nat) :
    (r.shift n).isUnfinished = r.isUnfinished := by
  cases r <;> rfl

@[simp] theorem isMisshapen_shift (r : Reading α) (n : Nat) :
    (r.shift n).isMisshapen = r.isMisshapen := by
  cases r <;> rfl

@[simp] theorem isMade_map (r : Reading α) (f : α → β) : (r.map f).isMade = r.isMade := by
  cases r <;> rfl

@[simp] theorem isUnfinished_map (r : Reading α) (f : α → β) :
    (r.map f).isUnfinished = r.isUnfinished := by
  cases r <;> rfl

@[simp] theorem isMisshapen_map (r : Reading α) (f : α → β) :
    (r.map f).isMisshapen = r.isMisshapen := by
  cases r <;> rfl

theorem isMade_andThen_eq_false {r : Reading α} (h : r.isMade = false)
    (F : α → (rest : List Token) → rest.length ≤ ts.length → Reading β) :
    (r.andThen ts F).isMade = false := by
  cases r with
  | made a n => exact absurd h (by simp [isMade])
  | stuck c n => rfl

/-! ## Completions -/

/-- Behind `ts`, all tokens of certain closing kinds make a phrase. -/
def Completes (P : List Token → α → Prop) (ts : List Token) : Prop :=
  ∃ kinds, kinds ⊆ Token.Kind.closing ∧
    ∀ ws : List Token, ws.map Token.kind = kinds → ∃ a, P (ts ++ ws) a

/-- A single token of a kind. -/
def IsToken (k : Token.Kind) (w : List Token) (t : Token) : Prop :=
  w = [t] ∧ t.kind = k

theorem completes_token {k : Token.Kind} (hk : k ∈ Token.Kind.closing) :
    Completes (IsToken k) [] := by
  refine ⟨[k], List.cons_subset.mpr ⟨hk, List.nil_subset _⟩, fun ws hws => ?_⟩
  obtain ⟨t, rfl, ht⟩ := List.map_eq_singleton_iff.mp hws
  exact ⟨t, rfl, ht⟩

theorem completes_nothing : Completes (fun w (_ : Unit) => w = []) [] :=
  ⟨[], List.nil_subset _, fun _ hws => ⟨(), List.map_eq_nil_iff.mp hws⟩⟩

theorem Completes.mono {P : List Token → α → Prop} {Q : List Token → β → Prop} (h : Completes P ts)
    (hPQ : ∀ w a, P w a → ∃ b, Q w b) : Completes Q ts := by
  obtain ⟨kinds, hkinds, hws⟩ := h
  refine ⟨kinds, hkinds, fun ws h => ?_⟩
  obtain ⟨a, ha⟩ := hws ws h
  exact hPQ _ a ha

/-- One completion after another. -/
theorem Completes.append {P : List Token → α → Prop} {N : List Token → γ → Prop}
    {Q : List Token → β → Prop} (h : Completes P ts) (hnext : Completes N [])
    (hQ : ∀ w a v c, P w a → N v c → ∃ b, Q (w ++ v) b) : Completes Q ts := by
  obtain ⟨kinds, hkinds, hws⟩ := h
  obtain ⟨more, hmore, hvs⟩ := hnext
  refine ⟨kinds ++ more, List.append_subset.mpr ⟨hkinds, hmore⟩, fun us hus => ?_⟩
  obtain ⟨ws, vs, rfl, hw, hv⟩ := List.map_eq_append_iff.mp hus
  obtain ⟨a, ha⟩ := hws ws hw
  obtain ⟨c, hc⟩ := hvs vs hv
  rw [← List.append_assoc]
  exact hQ _ a _ c ha hc

/-- A token in front of a completion. -/
theorem Completes.cons {k : Token.Kind} {N : List Token → γ → Prop} {Q : List Token → β → Prop}
    (h : Completes N []) (hk : k ∈ Token.Kind.closing)
    (hQ : ∀ t w c, t.kind = k → N w c → ∃ b, Q (t :: w) b) : Completes Q [] := by
  refine (completes_token hk).append h ?_
  rintro _ t w c ⟨rfl, ht⟩ hw
  exact hQ t w c ht hw

/-- A token behind a completion. -/
theorem Completes.snoc {k : Token.Kind} {P : List Token → α → Prop} {Q : List Token → β → Prop}
    (h : Completes P ts) (hk : k ∈ Token.Kind.closing)
    (hQ : ∀ w a t, P w a → t.kind = k → ∃ b, Q (w ++ [t]) b) : Completes Q ts := by
  refine h.append (completes_token hk) ?_
  rintro w a _ t hw ⟨rfl, ht⟩
  exact hQ w a t hw ht

/-- Behind `ts`, all tokens of certain closing kinds lead to the objection that an assignment in
`ts` has no name for its target. -/
def Spoils (R : List Token → Reading α) (ts : List Token) : Prop :=
  ∃ kinds, kinds ⊆ Token.Kind.closing ∧ ∃ t ∈ ts, t.kind = .equal ∧ ∀ ws rest : List Token,
    ws.map Token.kind = kinds → Phrase.FollowsExpression rest →
      R (ts ++ (ws ++ rest)) = stuck ⟨.invalidTarget, some t⟩ (ts.length + ws.length)

/-- What more tokens behind `ts` can change for a rule `R` that finds phrases `P`. -/
structure Prospect (P : List Token → α → Prop) (R : List Token → Reading α) (ts : List Token) :
    Prop where
  stays : (R ts).isMisshapen = true → ts ≠ [] ∧ ∀ more, (R (ts ++ more)).isMade = false
  opens : (R ts).isUnfinished = true → Completes P ts ∨ Spoils R ts

/-! ## The combinators -/

theorem Prospect.congr (h : Prospect P R ts) (hRS : ∀ more, S (ts ++ more) = R (ts ++ more)) :
    Prospect P S ts := by
  have hts : S ts = R ts := by simpa using hRS []
  constructor
  · intro hshape
    rw [hts] at hshape
    obtain ⟨hne, hmore⟩ := h.stays hshape
    exact ⟨hne, fun more => by rw [hRS]; exact hmore more⟩
  · intro hend
    rw [hts] at hend
    refine (h.opens hend).imp_right ?_
    rintro ⟨kinds, hkinds, t, ht, hequal, hws⟩
    refine ⟨kinds, hkinds, t, ht, hequal, fun ws rest hk hrest => ?_⟩
    rw [hRS]
    exact hws ws rest hk hrest

theorem Prospect.mono {N : List Token → α → Prop} (h : Prospect P R ts)
    (hP : ∀ w a, P w a → ∃ b, N w b) : Prospect N R ts :=
  ⟨h.stays, fun hend => (h.opens hend).imp_left fun hc => hc.mono hP⟩

/-- A rule that is not stuck. -/
theorem Prospect.of_made {a : α} {n : Nat} (h : R ts = made a n) : Prospect P R ts := by
  constructor
  · rw [h]
    exact fun hshape => absurd hshape Bool.false_ne_true
  · rw [h]
    exact fun hend => absurd hend Bool.false_ne_true

/-- A rule that is stuck at a token, and not because of a shape. -/
theorem Prospect.of_stuck {o : Objection} {n : Nat} (h : R ts = stuck ⟨o, some t⟩ n)
    (ho : o.isAboutShape = false) : Prospect P R ts := by
  constructor
  · rw [h, isMisshapen, ho]
    exact fun hshape => absurd hshape Bool.false_ne_true
  · rw [h]
    exact fun hend => absurd hend Bool.false_ne_true

/-- A rule that is stuck at a token, whatever comes behind it. -/
theorem Prospect.of_always {o : Objection} {n : Nat}
    (h : ∀ more, R (t :: more) = stuck ⟨o, some t⟩ n) : Prospect P R (t :: rest) := by
  constructor
  · refine fun _ => ⟨List.cons_ne_nil t rest, fun more => ?_⟩
    rw [List.cons_append, h]
    rfl
  · rw [h]
    exact fun hend => absurd hend Bool.false_ne_true

/-- A rule that can be completed. -/
theorem Prospect.of_completes (hshape : (R ts).isMisshapen = false) (h : Completes P ts) :
    Prospect P R ts :=
  ⟨fun h => absurd (hshape.symm.trans h) Bool.false_ne_true, fun _ => .inl h⟩

theorem Prospect.map {f : α → β} (h : Prospect P R ts) (hPQ : ∀ w a, P w a → ∃ b, Q w b) :
    Prospect Q (fun ts => (R ts).map f) ts := by
  constructor
  · intro hshape
    rw [isMisshapen_map] at hshape
    obtain ⟨hne, hmore⟩ := h.stays hshape
    exact ⟨hne, fun more => by rw [isMade_map]; exact hmore more⟩
  · intro hend
    rw [isUnfinished_map] at hend
    refine (h.opens hend).imp (fun hc => hc.mono hPQ) ?_
    rintro ⟨kinds, hkinds, t, ht, hequal, hws⟩
    refine ⟨kinds, hkinds, t, ht, hequal, fun ws rest hk hrest => ?_⟩
    exact congrArg (Reading.map f) (hws ws rest hk hrest)

theorem Prospect.shift_one (h : Prospect (fun w => P (t :: w)) R rest)
    (hRS : ∀ more, S (t :: more) = (R more).shift 1) : Prospect P S (t :: rest) := by
  constructor
  · intro hshape
    rw [hRS, isMisshapen_shift] at hshape
    refine ⟨List.cons_ne_nil t rest, fun more => ?_⟩
    rw [List.cons_append, hRS, isMade_shift]
    exact (h.stays hshape).2 more
  · intro hend
    rw [hRS, isUnfinished_shift] at hend
    refine (h.opens hend).imp_right ?_
    rintro ⟨kinds, hkinds, u, hu, hequal, hws⟩
    refine ⟨kinds, hkinds, u, List.mem_cons_of_mem t hu, hequal, fun ws rest' hk hrest => ?_⟩
    rw [List.cons_append, hRS, hws ws rest' hk hrest, shift_stuck, List.length_cons]
    congr 1
    omega

/-- The rule looks at most one token further than it goes. -/
def Local (R : List Token → Reading α) (ts : List Token) : Prop :=
  ∀ more, (R ts).extent < ts.length → R (ts ++ more) = R ts

theorem Local.of_agrees {g : α → α} (hg : ∀ a, g a = a)
    (h : ∀ more, Agrees id more ts g (R ts) (R (ts.map (Token.renumber id) ++ more))) :
    Local R ts := by
  intro more hlt
  have htokens : ts.map (Token.renumber id) = ts := List.map_id ts
  have key := (h more).eq_of_lt hlt
  rwa [htokens, renumber_id hg] at key

/-- What a rule leaves behind is read on by `F`, and from nothing it goes on with a phrase `N`. -/
theorem Prospect.andThen {F : α → List Token → Reading β}
    {P' : List Token → α → List Token → Prop} {N : List Token → γ → Prop} (h : Prospect P R ts)
    (hlocal : Local R ts) (hfits : Fits P' ts (R ts)) (hnext : Completes N [])
    (hQ : ∀ w a v c, P w a → N v c → ∃ b, Q (w ++ v) b)
    (hF : ∀ w a rest, ts = w ++ rest → P' w a rest → Prospect (fun v => Q (w ++ v)) (F a) rest) :
    Prospect Q (fun ts => (R ts).andThen ts fun a rest _ => F a rest) ts := by
  cases hr : R ts with
  | stuck c n =>
    have hstuck : (R ts).andThen ts (fun a rest _ => F a rest) = stuck c n := by rw [hr]; rfl
    constructor
    · intro hshape
      rw [hstuck] at hshape
      obtain ⟨hne, hmore⟩ := h.stays (by rw [hr]; exact hshape)
      exact ⟨hne, fun more => isMade_andThen_eq_false (hmore more) _⟩
    · intro hend
      rw [hstuck] at hend
      refine (h.opens (by rw [hr]; exact hend)).imp (fun hc => hc.append hnext hQ) ?_
      rintro ⟨kinds, hkinds, t, ht, hequal, hws⟩
      refine ⟨kinds, hkinds, t, ht, hequal, fun ws rest hk hrest => ?_⟩
      simp only [hws ws rest hk hrest]
      rfl
  | made a n =>
    rw [hr] at hfits
    obtain ⟨w, rest, rfl, rfl, hP'⟩ := hfits
    have hrest := hF w a rest rfl hP'
    have hmade : (R (w ++ rest)).andThen (w ++ rest) (fun a rest _ => F a rest) =
        (F a rest).shift w.length := andThen_eq w rest hr rfl rfl _
    -- A rest is left, so the first part is read in the same way with more behind it.
    have hmore : rest ≠ [] → ∀ more,
        (R (w ++ rest ++ more)).andThen (w ++ rest ++ more) (fun a rest _ => F a rest) =
          (F a (rest ++ more)).shift w.length := by
      intro hne more
      have hlt : (R (w ++ rest)).extent < (w ++ rest).length := by
        have hpos := List.length_pos_iff.mpr hne
        rw [hr, extent, List.length_append]
        omega
      exact andThen_eq w (rest ++ more) ((hlocal more hlt).trans hr) (List.append_assoc ..) rfl _
    constructor
    · intro hshape
      rw [hmade, isMisshapen_shift] at hshape
      obtain ⟨hne, hstays⟩ := hrest.stays hshape
      refine ⟨List.append_ne_nil_of_right_ne_nil w hne, fun more => ?_⟩
      rw [hmore hne, isMade_shift]
      exact hstays more
    · intro hend
      rw [hmade, isUnfinished_shift] at hend
      refine (hrest.opens hend).imp ?_ ?_
      · rintro ⟨kinds, hkinds, hws⟩
        refine ⟨kinds, hkinds, fun ws hk => ?_⟩
        rw [List.append_assoc]
        exact hws ws hk
      · rintro ⟨kinds, hkinds, t, ht, hequal, hws⟩
        refine ⟨kinds, hkinds, t, List.mem_append_right w ht, hequal, fun ws rest' hk hrest' => ?_⟩
        refine (hmore (List.ne_nil_of_mem ht) _).trans ?_
        rw [hws ws rest' hk hrest', shift_stuck, List.length_append]
        congr 1
        omega

/-- The same where nothing more has to come. -/
theorem Prospect.andThen_done {F : α → List Token → Reading β}
    {P' : List Token → α → List Token → Prop} (h : Prospect P R ts) (hlocal : Local R ts)
    (hfits : Fits P' ts (R ts)) (hQ : ∀ w a, P w a → ∃ b, Q w b)
    (hF : ∀ w a rest, ts = w ++ rest → P' w a rest → Prospect (fun v => Q (w ++ v)) (F a) rest) :
    Prospect Q (fun ts => (R ts).andThen ts fun a rest _ => F a rest) ts := by
  refine h.andThen hlocal hfits completes_nothing ?_ hF
  rintro w a _ _ hw rfl
  rw [List.append_nil]
  exact hQ w a hw

theorem Prospect.take {kind : Token.Kind} {place : Place} {F : Token → List Token → Reading α}
    (hnil : Completes P [])
    (hF : ∀ t rest, ts = t :: rest → t.kind = kind → Prospect (fun w => P (t :: w)) (F t) rest) :
    Prospect P (fun ts => take kind place ts fun t rest _ => F t rest) ts := by
  cases ts with
  | nil => exact .of_completes rfl hnil
  | cons t rest =>
    by_cases hkind : t.kind = kind
    · refine (hF t rest rfl hkind).shift_one fun more => ?_
      exact take_cons place more hkind _
    · refine .of_stuck (take_cons_of_ne place rest hkind _) rfl

theorem Prospect.close {kind : Token.Kind} {place : Place} {a : α}
    (hkind : kind ∈ Token.Kind.closing) (h : ∀ t : Token, t.kind = kind → ∃ b, P [t] b) :
    Prospect P (fun ts => close kind place ts a) ts := by
  refine Prospect.take (F := fun _ _ => Reading.done a) ?_ fun t rest _ ht => .of_made rfl
  refine (completes_token hkind).mono ?_
  rintro _ t ⟨rfl, ht⟩
  exact h t ht

end Reading

open Reading

namespace Phrase

/-- A phrase with the token of a certain kind that closes it. -/
def Closed {α : Type} (k : Token.Kind) (P : List Token → α → Prop) (w : List Token) (a : α) :
    Prop :=
  ∃ v stop, w = v ++ [stop] ∧ stop.kind = k ∧ P v a

end Phrase

namespace Grammar

/-! ## Expressions -/

theorem primary_completes : Completes Phrase.Primary [] := by
  refine (completes_token (k := .nilWord) (by decide)).mono ?_
  rintro _ t ⟨rfl, ht⟩
  exact ⟨_, .nilWord ht⟩

theorem unary_completes : Completes Phrase.Unary [] :=
  primary_completes.mono fun _ e he => ⟨e, .call (.primary he)⟩

theorem operation_completes (levels : List Level) : Completes (Phrase.Operation levels) [] :=
  unary_completes.mono fun _ e he => ⟨e, .of_unary he levels⟩

theorem expression_completes : Completes Phrase.Expression [] :=
  (operation_completes Level.all).mono fun _ e he => ⟨e, .operation he⟩

theorem expression_local (ts : List Token) : Local expression ts :=
  .of_agrees Expr.renumber_id fun more => expression_agrees id more ts

theorem operation_local (levels : List Level) (ts : List Token) : Local (operation levels) ts :=
  .of_agrees Expr.renumber_id fun more => (expressionRules_agree id more).2.1 levels ts

theorem unary_local (ts : List Token) : Local unary ts :=
  .of_agrees Expr.renumber_id fun more => (expressionRules_agree id more).2.2.2.1 ts

theorem primary_local (ts : List Token) : Local primary ts :=
  .of_agrees Expr.renumber_id fun more => (expressionRules_agree id more).2.2.2.2.2.2.2 ts

theorem arguments_local (ts : List Token) : Local arguments ts := by
  have hid : (Expr.renumber id : Expr → Expr) = id := funext Expr.renumber_id
  refine .of_agrees (g := List.map (Expr.renumber id)) (fun args => ?_) fun more =>
    (expressionRules_agree id more).2.2.2.2.2.1 ts
  rw [hid, List.map_id]

/-- An assignment whose target is no name: its value is read in full before the objection. -/
theorem reject_prospect {α : Type} {P : List Token → α → Prop} {R : List Token → Reading α}
    {t : Token} {rest : List Token} (ht : t.kind = .equal)
    (h : Prospect Phrase.Expression expression rest)
    (hR : ∀ more, R (t :: more) = ((expression more).andThen more fun _ _ _ =>
      stuck ⟨.invalidTarget, some t⟩ 0).shift 1) : Prospect P R (t :: rest) := by
  constructor
  · refine fun _ => ⟨List.cons_ne_nil t rest, fun more => ?_⟩
    rw [List.cons_append, hR, isMade_shift]
    cases expression (rest ++ more) <;> rfl
  · intro hend
    refine .inr ?_
    have hvalue : (expression rest).isUnfinished = true := by
      rw [hR, isUnfinished_shift] at hend
      cases hvalue : expression rest with
      | made a n =>
        rw [hvalue] at hend
        exact absurd hend Bool.false_ne_true
      | stuck c n =>
        rw [hvalue] at hend
        exact hend
    obtain ⟨kinds, hkinds, hws⟩ | ⟨kinds, hkinds, u, hu, hequal, hws⟩ := h.opens hvalue
    · refine ⟨kinds, hkinds, t, List.mem_cons_self, ht, fun ws rest' hk hrest' => ?_⟩
      obtain ⟨value, hexpression⟩ := hws ws hk
      have hread := hexpression.read rest' hrest'
      rw [List.append_assoc] at hread
      rw [List.cons_append, hR, andThen_eq (rest ++ ws) rest' hread (List.append_assoc ..).symm rfl]
      simp only [shift_stuck, List.length_append, List.length_cons]
      congr 1
      omega
    · refine ⟨kinds, hkinds, u, List.mem_cons_of_mem t hu, hequal, fun ws rest' hk hrest' => ?_⟩
      rw [List.cons_append, hR, hws ws rest' hk hrest']
      simp only [Reading.andThen, shift_stuck, List.length_cons]
      congr 1
      omega

/-- What follows an operand: an assignment whose target is no name is only found out behind its
value. -/
theorem assignment_prospect {w rest : List Token} {target : Expr}
    (htarget : Phrase.Operation Level.all w target)
    (ih : ∀ equals rest', rest = equals :: rest' → Prospect Phrase.Expression expression rest') :
    Prospect (fun v => Phrase.Expression (w ++ v)) (assignment target) rest := by
  cases rest with
  | nil => exact .of_made rfl
  | cons equals rest =>
    have hrest := ih equals rest rfl
    by_cases hequals : equals.kind = .equal
    · cases target with
      | name l x =>
        obtain ⟨t, rfl, ht, hx⟩ := htarget.eq_of_name rfl
        refine (hrest.andThen_done (expression_local rest) (expression_fits rest)
          (Q := fun v => Phrase.Expression ([t] ++ equals :: v))
          (F := fun value _ => done (.assign equals.line x value)) ?_ ?_).shift_one ?_
        · exact fun v value hvalue => ⟨_, .assign ht hx hequals hvalue⟩
        · exact fun v value rest' _ _ => .of_made rfl
        · exact fun more => by simp only [assignment, if_pos hequals]
      | _ =>
        refine reject_prospect hequals hrest fun more => ?_
        simp only [assignment, if_pos hequals]
    · exact .of_made (by simp only [assignment, if_neg hequals]; rfl)

theorem afterCall_prospect {P : List Token → Expr → Prop} (result : Expr) (rest : List Token) :
    Prospect P (afterCall result) rest := by
  cases rest with
  | nil => exact .of_made rfl
  | cons again rest =>
    by_cases hagain : again.kind = .leftParen
    · exact .of_always fun more => by rw [afterCall, if_pos hagain]
    · exact .of_made (by rw [afterCall, if_neg hagain]; rfl)

/-- What follows a primary expression. -/
theorem called_prospect {w rest : List Token} {callee : Expr} (hcallee : Phrase.Primary w callee)
    (ih : ∀ paren rest', rest = paren :: rest' →
      Prospect (Phrase.Closed .rightParen Phrase.Arguments) arguments rest') :
    Prospect (fun v => Phrase.Call (w ++ v)) (called callee) rest := by
  cases rest with
  | nil => exact .of_made rfl
  | cons paren rest =>
    by_cases hparen : paren.kind = .leftParen
    · cases callee with
      | name l x =>
        obtain ⟨t, rfl, ht, hx⟩ := Phrase.Unary.eq_of_name (.call (.primary hcallee))
        refine ((ih paren rest rfl).andThen_done (arguments_local rest)
          (expressionRules_fit.2.2.2.2.2.1 rest) (Q := fun v => Phrase.Call ([t] ++ paren :: v))
          (F := fun args => afterCall (.call paren.line x (args.take maxArguments)))
          ?_ ?_).shift_one ?_
        · rintro _ args ⟨v, stop, rfl, hstop, hargs⟩
          exact ⟨_, .call ht hx hparen hargs hstop⟩
        · exact fun v args rest' _ _ => afterCall_prospect _ rest'
        · exact fun more => by simp only [called, if_pos hparen]
      | _ =>
        refine .of_always (o := .uncallable) (n := 1) fun more => ?_
        simp only [called, if_pos hparen]
    · exact .of_made (by simp only [called, if_neg hparen]; rfl)

/-- What follows an argument. -/
theorem argumentTail_prospect {w rest : List Token} {first : Expr}
    (hfirst : Phrase.Expression w first)
    (ih : ∀ comma rest', rest = comma :: rest' →
      Prospect (Phrase.Closed .rightParen Phrase.ArgumentList) argumentList rest') :
    Prospect (fun v => Phrase.Closed .rightParen Phrase.ArgumentList (w ++ v))
      (argumentTail first) rest := by
  have hclosed : ∀ t : Token, t.kind = .rightParen →
      ∃ args, Phrase.Closed .rightParen Phrase.ArgumentList (w ++ [t]) args :=
    fun t ht => ⟨[first], w, t, rfl, ht, .one hfirst⟩
  cases rest with
  | nil =>
    refine .of_completes rfl ((completes_token (k := .rightParen) (by decide)).mono ?_)
    rintro _ t ⟨rfl, ht⟩
    exact hclosed t ht
  | cons t rest =>
    by_cases hcomma : t.kind = .comma
    · refine ((ih t rest rfl).map (Q := fun v =>
        Phrase.Closed .rightParen Phrase.ArgumentList (w ++ t :: v)) (f := (first :: ·))
        ?_).shift_one ?_
      · rintro _ args ⟨v, stop, rfl, hstop, hargs⟩
        exact ⟨_, w ++ t :: v, stop, by simp, hstop, .more hfirst hcomma hargs⟩
      · intro more
        rw [argumentTail, if_pos hcomma]
    · have hclose : Prospect (fun v => Phrase.Closed .rightParen Phrase.ArgumentList (w ++ v))
          (fun ts => close .rightParen .afterArguments ts [first]) (t :: rest) :=
        .close (by decide) hclosed
      refine hclose.congr fun more => ?_
      rw [List.cons_append, argumentTail, if_neg hcomma]

theorem expressionRules_prospect :
    (∀ ts, Prospect Phrase.Expression expression ts) ∧
    (∀ levels ts, Prospect (Phrase.Operation levels) (operation levels) ts) ∧
    (∀ level tighter left ts, ∀ v, Phrase.Operation (level :: tighter) v left →
      Prospect (fun w => Phrase.Operation (level :: tighter) (v ++ w))
        (operationTail level tighter left) ts) ∧
    (∀ ts, Prospect Phrase.Unary unary ts) ∧
    (∀ ts, Prospect Phrase.Call call ts) ∧
    (∀ ts, Prospect (Phrase.Closed .rightParen Phrase.Arguments) arguments ts) ∧
    (∀ ts, Prospect (Phrase.Closed .rightParen Phrase.ArgumentList) argumentList ts) ∧
    (∀ ts, Prospect Phrase.Primary primary ts) := by
  refine expression.mutual_induct _ _ _ _ _ _ _ _ ?expression ?operand ?operation ?tailEnd
    ?tailJoin ?tailStop ?unaryEnd ?unary ?unaryCall ?call ?argumentsEnd ?noArguments ?arguments
    ?argumentList ?primaryEnd ?leaf ?group ?noPrimary
  case expression =>
    intro ts hoperation hexpression
    refine (hoperation.andThen_done (operation_local _ ts) (expressionRules_fit.2.1 _ ts)
      (F := assignment) ?_ ?_).congr fun more => expression_eq _
    · exact fun w e he => ⟨e, .operation he⟩
    · intro w target rest hts htarget
      refine assignment_prospect htarget fun equals rest' hrest => ?_
      exact hexpression [] equals rest' (hrest ▸ length_rest_le hts)
  case operand =>
    intro ts h
    refine (h.mono ?_).congr fun more => by rw [operation]
    exact fun w e he => ⟨e, .unary he⟩
  case operation =>
    intro ts level tighter hoperand htail
    refine (hoperand.andThen_done (operation_local _ ts) (expressionRules_fit.2.1 _ ts)
      (F := operationTail level tighter) ?_ ?_).congr fun more => by rw [operation]
    · exact fun w e he => ⟨e, .tighter he⟩
    · exact fun w left rest hts hleft => htail left rest (length_rest_le hts) w (.tighter hleft)
  case tailEnd =>
    intro level tighter left v hv
    exact .of_made (by rw [operationTail]; rfl)
  case tailJoin =>
    intro level tighter left op rest joint hop hoperand htail v hv
    refine (hoperand.andThen_done (operation_local _ rest) (expressionRules_fit.2.1 _ rest)
      (Q := fun w => Phrase.Operation (level :: tighter) (v ++ op :: w))
      (F := fun right => operationTail level tighter (joint.build op.line left right))
      ?_ ?_).shift_one fun more => by rw [operationTail]; simp only [hop]
    · exact fun w right hright => ⟨_, .of_joint hv hop hright⟩
    · intro w right rest' hrest hright
      have key := htail right rest' (length_rest_le hrest) (v ++ op :: w) (.of_joint hv hop hright)
      refine key.mono fun u e he => ⟨e, ?_⟩
      simpa using he
  case tailStop =>
    intro level tighter left op rest hop v hv
    refine .of_made (a := left) (n := 0) ?_
    rw [operationTail]
    simp only [hop]
    rfl
  case unaryEnd =>
    intro _
    exact .of_completes (by rw [unary, call_eq, primary]; rfl) unary_completes
  case unary =>
    intro op rest u hop h
    refine (h.andThen_done (unary_local rest) (expressionRules_fit.2.2.2.1 rest)
      (Q := fun w => Phrase.Unary (op :: w)) (F := fun operand _ => done (.unary op.line u operand))
      ?_ ?_).shift_one fun more => by rw [unary]; simp only [hop]
    · exact fun w e he => ⟨_, unary_phrase hop he⟩
    · exact fun w operand rest' _ _ => .of_made rfl
  case unaryCall =>
    intro op rest hop h
    refine (h.mono ?_).congr fun more => by rw [List.cons_append, unary]; simp only [hop]
    exact fun w e he => ⟨e, .call he⟩
  case call =>
    intro ts hprimary harguments
    refine (hprimary.andThen_done (primary_local ts) (expressionRules_fit.2.2.2.2.2.2.2 ts)
      (F := called) ?_ ?_).congr fun more => call_eq _
    · exact fun w e he => ⟨e, .primary he⟩
    · intro w callee rest hts hcallee
      refine called_prospect hcallee fun paren rest' hrest => ?_
      exact harguments [] paren rest' (hrest ▸ length_rest_le hts)
  case argumentsEnd =>
    intro _
    refine .of_completes ?_ ((completes_token (k := .rightParen) (by decide)).mono ?_)
    · rw [arguments, argumentList_eq, expression_nil]
      rfl
    · rintro _ t ⟨rfl, ht⟩
      exact ⟨[], [], t, rfl, ht, .none⟩
  case noArguments =>
    intro t rest ht
    exact .of_made (by rw [arguments, if_pos ht])
  case arguments =>
    intro t rest ht h
    refine (h.mono ?_).congr fun more => by rw [List.cons_append, arguments, if_neg ht]
    rintro _ args ⟨v, stop, rfl, hstop, hargs⟩
    exact ⟨args, v, stop, rfl, hstop, .some hargs⟩
  case argumentList =>
    intro ts hexpression hlist
    refine (hexpression.andThen (expression_local ts) (expression_fits ts)
      (completes_token (k := .rightParen) (by decide)) (F := argumentTail) ?_ ?_).congr
      fun more => argumentList_eq _
    · rintro w e _ stop he ⟨rfl, hstop⟩
      exact ⟨_, w, stop, rfl, hstop, .one he⟩
    · intro w first rest hts hfirst
      refine argumentTail_prospect hfirst fun comma rest' hrest => ?_
      exact hlist [] comma rest' (hrest ▸ length_rest_le hts)
  case primaryEnd => exact .of_completes (by rw [primary]; rfl) primary_completes
  case leaf =>
    intro t rest leaf hleaf
    exact .of_made (a := leaf) (n := 1) (by rw [primary]; simp only [hleaf])
  case group =>
    intro t rest hleaf ht h
    refine (h.andThen (expression_local rest) (expression_fits rest)
      (completes_token (k := .rightParen) (by decide)) (Q := fun w => Phrase.Primary (t :: w))
      (F := fun inner rest => close .rightParen .afterExpression rest (.group t.line inner))
      ?_ ?_).shift_one fun more => by rw [primary]; simp only [hleaf, ht, if_true]
    · rintro w e _ stop he ⟨rfl, hstop⟩
      exact ⟨_, .group ht he hstop⟩
    · exact fun w inner rest' _ hinner => .close (by decide) fun stop hstop =>
        ⟨_, .group ht hinner hstop⟩
  case noPrimary =>
    intro t rest hleaf ht
    refine .of_stuck (o := .noExpression) (t := t) (n := 0) ?_ rfl
    rw [primary]
    simp only [hleaf, ht, if_false]

theorem expression_prospect (ts : List Token) : Prospect Phrase.Expression expression ts :=
  expressionRules_prospect.1 ts

end Grammar

end Lox

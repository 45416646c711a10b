import Lox.Grammar.Statement

/-!
# What a reading makes of its tokens

`Reading.Fits P ts r` says what a reading `r` of the tokens `ts` amounts to.  If it made something,
the tokens fall into a first part that it took and a rest, and `P` relates the part, the result and
the rest.  If it is stuck, the tokens fall into those it passed and the rest, and the complaint
stands where it should between the two (`Complaint.At`).

Each combinator has one lemma here, so that the outcome of a rule is put together from the outcomes
of its parts without opening either.  Rules that go on behind a possibly empty rest are restated
with that continuation as a function of its own (`expression_eq` and the like).
-/

namespace Lox

/-- Reading goes on behind or in front of a token of this kind after an error. -/
def Token.Kind.isBoundary (k : Token.Kind) : Bool :=
  k == .semicolon || k.startsStatement

/-- Where a complaint stands.  One about a shape names a token that was passed, and no boundary was
passed since; any other one names the token that comes next, or the end of the input. -/
def Complaint.At (c : Complaint) (passed rest : List Token) : Prop :=
  if c.objection.isAboutShape then
    ∃ v t u, passed = v ++ t :: u ∧ c.token? = some t ∧ ∀ x ∈ t :: u, x.kind.isBoundary = false
  else c.token? = rest.head?

/-- Tokens passed earlier do not matter for where a complaint stands. -/
theorem Complaint.At.behind {c : Complaint} {passed rest : List Token} (h : c.At passed rest)
    (earlier : List Token) : c.At (earlier ++ passed) rest := by
  unfold Complaint.At at h ⊢
  split
  · rename_i hshape
    rw [if_pos hshape] at h
    obtain ⟨v, t, u, rfl, ht, hu⟩ := h
    exact ⟨earlier ++ v, t, u, by simp, ht, hu⟩
  · rename_i hshape
    rwa [if_neg hshape] at h

namespace Reading

variable {α β : Type}

/-! ## Readings that made something -/

@[simp] theorem shift_made (a : α) (n k : Nat) : (made a n).shift k = made a (k + n) := rfl

@[simp] theorem shift_stuck (c : Complaint) (n k : Nat) :
    (stuck c n : Reading α).shift k = stuck c (k + n) := rfl

@[simp] theorem shift_done (a : α) (k : Nat) : (done a).shift k = made a k := rfl

@[simp] theorem map_made (f : α → β) (a : α) (n : Nat) : (made a n).map f = made (f a) n := rfl

@[simp] theorem shift_shift (r : Reading α) (n k : Nat) :
    (r.shift n).shift k = r.shift (k + n) := by
  cases r <;> simp [Nat.add_assoc]

theorem length_rest_le {w rest ts : List Token} (h : ts = w ++ rest) : rest.length ≤ ts.length := by
  rw [h, List.length_append]
  exact Nat.le_add_left _ _

/-- A reading that took the tokens `w` goes on behind them. -/
theorem andThen_eq (w rest : List Token) {r : Reading α} {a : α} {n : Nat} (hr : r = made a n)
    {ts : List Token} (hts : ts = w ++ rest) (hn : w.length = n)
    (f : α → (rest' : List Token) → rest'.length ≤ ts.length → Reading β) :
    r.andThen ts f = (f a rest (length_rest_le hts)).shift n := by
  subst hr hts hn
  have hdrop : ∀ rest' h, rest' = rest → f a rest' h = f a rest (length_rest_le rfl) := by
    rintro _ _ rfl
    rfl
  rw [andThen, hdrop _ _ List.drop_left]

/-- The same where at least one token was taken. -/
theorem past_eq (w rest : List Token) {r : Reading α} {a : α} {n : Nat} (hr : r = made a n)
    {tail : List Token} (htail : tail = w ++ rest) (hn : w.length + 1 = n)
    (f : α → (rest' : List Token) → rest'.length ≤ tail.length → Reading β) :
    r.past tail f = (f a rest (length_rest_le htail)).shift n := by
  subst hr htail hn
  have hdrop : ∀ rest' h, rest' = rest → f a rest' h = f a rest (length_rest_le rfl) := by
    rintro _ _ rfl
    rfl
  have hmax : max 1 (w.length + 1) = w.length + 1 := by omega
  rw [past, hdrop _ _ (by simp), hmax]

theorem take_cons {kind : Token.Kind} {t : Token} (place : Place) (rest : List Token)
    (h : t.kind = kind) (f : Token → (rest' : List Token) → rest'.length < (t :: rest).length →
      Reading β) : take kind place (t :: rest) f = (f t rest (Nat.lt_succ_self _)).shift 1 := by
  rw [take, if_pos h]

theorem take_cons_of_ne {kind : Token.Kind} {t : Token} (place : Place) (rest : List Token)
    (h : t.kind ≠ kind) (f : Token → (rest' : List Token) → rest'.length < (t :: rest).length →
      Reading β) : take kind place (t :: rest) f = stuck ⟨.missing kind place, some t⟩ 0 := by
  rw [take, if_neg h]

theorem close_cons {kind : Token.Kind} {t : Token} (place : Place) (rest : List Token)
    (h : t.kind = kind) (a : α) : close kind place (t :: rest) a = made a 1 := by
  rw [close, take_cons place rest h, shift_done]

/-! ## The outcome of a reading -/

/-- What a reading of the tokens `ts` amounts to. -/
def Fits (P : List Token → α → List Token → Prop) (ts : List Token) : Reading α → Prop
  | made a n => ∃ w rest, ts = w ++ rest ∧ w.length = n ∧ P w a rest
  | stuck c n => ∃ w rest, ts = w ++ rest ∧ w.length = n ∧ c.At w rest

variable {P Q : List Token → α → List Token → Prop} {R : List Token → β → List Token → Prop}
  {ts rest : List Token} {t : Token} {r : Reading α}

theorem Fits.mono (h : Fits P ts r) (hPQ : ∀ w a rest, P w a rest → Q w a rest) : Fits Q ts r := by
  cases r with
  | made a n =>
    obtain ⟨w, rest, hts, hw, hP⟩ := h
    exact ⟨w, rest, hts, hw, hPQ w a rest hP⟩
  | stuck c n => exact h

theorem Fits.done {a : α} (h : P [] a ts) : Fits P ts (Reading.done a) :=
  ⟨[], ts, rfl, rfl, h⟩

theorem Fits.made_one {a : α} (h : P [t] a rest) : Fits P (t :: rest) (made a 1) :=
  ⟨[t], rest, rfl, rfl, h⟩

/-- A complaint about the next token. -/
theorem Fits.stuck_here {c : Complaint} (hshape : c.objection.isAboutShape = false)
    (htoken : c.token? = ts.head?) : Fits P ts (stuck c 0) :=
  ⟨[], ts, rfl, rfl, by rw [Complaint.At, hshape]; exact htoken⟩

/-- A complaint about the shape of what came before the token `t`. -/
theorem Fits.stuck_past {o : Objection} (hshape : o.isAboutShape = true)
    (ht : t.kind.isBoundary = false) : Fits P (t :: rest) (stuck ⟨o, some t⟩ 1) := by
  refine ⟨[t], rest, rfl, rfl, ?_⟩
  rw [Complaint.At, if_pos hshape]
  exact ⟨[], t, [], rfl, rfl, by simpa using ht⟩

/-- A complaint about the token `t`, made only after what follows it was read. -/
theorem Fits.reject {o : Objection} (hr : Fits P rest r) (hshape : o.isAboutShape = true)
    (ht : t.kind.isBoundary = false)
    (hP : ∀ w a rest, P w a rest → ∀ x ∈ w, x.kind.isBoundary = false) :
    Fits R (t :: rest) ((r.andThen rest fun _ _ _ => stuck ⟨o, some t⟩ 0).shift 1) := by
  cases r with
  | made a n =>
    obtain ⟨w, rest, rfl, rfl, hw⟩ := hr
    refine ⟨t :: w, rest, rfl, by simp [Nat.add_comm], ?_⟩
    rw [Complaint.At, if_pos hshape]
    exact ⟨[], t, w, rfl, rfl, List.forall_mem_cons.2 ⟨ht, hP w a rest hw⟩⟩
  | stuck c n =>
    obtain ⟨w, rest, rfl, rfl, hc⟩ := hr
    exact ⟨t :: w, rest, rfl, by simp [Nat.add_comm], hc.behind [t]⟩

theorem Fits.shift (w : List Token) (h : Fits (fun v a rest => P (w ++ v) a rest) rest r) :
    Fits P (w ++ rest) (r.shift w.length) := by
  cases r with
  | made a n =>
    obtain ⟨v, rest', rfl, rfl, hP⟩ := h
    exact ⟨w ++ v, rest', by simp, by simp, hP⟩
  | stuck c n =>
    obtain ⟨v, rest', rfl, rfl, hc⟩ := h
    exact ⟨w ++ v, rest', by simp, by simp, hc.behind w⟩

theorem Fits.shift_one (h : Fits (fun v a rest => P (t :: v) a rest) rest r) :
    Fits P (t :: rest) (r.shift 1) :=
  Fits.shift [t] h

theorem Fits.map {f : α → β} (h : Fits (fun w a rest => R w (f a) rest) ts r) :
    Fits R ts (r.map f) := by
  cases r with
  | made a n => exact h
  | stuck c n => exact h

theorem Fits.andThen {f : α → (rest : List Token) → rest.length ≤ ts.length → Reading β}
    (hr : Fits P ts r)
    (hf : ∀ w a rest hle, ts = w ++ rest → P w a rest →
      Fits (fun v b rest => R (w ++ v) b rest) rest (f a rest hle)) :
    Fits R ts (r.andThen ts f) := by
  cases r with
  | made a n =>
    obtain ⟨w, rest, rfl, rfl, hP⟩ := hr
    have hle : rest.length ≤ (w ++ rest).length := by simp
    have hdrop : (w ++ rest).drop w.length = rest := List.drop_left
    have key := (hf w a rest hle rfl hP).shift w
    simp only [Reading.andThen, hdrop]
    exact key
  | stuck c n => exact hr

theorem Fits.past {f : α → (rest' : List Token) → rest'.length ≤ rest.length → Reading β}
    (hr : Fits P (t :: rest) r) (hne : ∀ w a rest, P w a rest → w ≠ [])
    (hf : ∀ w a rest' hle, t :: rest = w ++ rest' → P w a rest' →
      Fits (fun v b rest => R (w ++ v) b rest) rest' (f a rest' hle)) :
    Fits R (t :: rest) (r.past rest f) := by
  cases r with
  | made a n =>
    obtain ⟨w, rest', hts, rfl, hP⟩ := hr
    obtain ⟨t', w', rfl⟩ := List.exists_cons_of_ne_nil (hne w a rest' hP)
    rw [List.cons_append] at hts
    obtain ⟨rfl, rfl⟩ := List.cons.inj hts
    have hle : rest'.length ≤ (w' ++ rest').length := by simp
    have hdrop : (w' ++ rest').drop ((t :: w').length - 1) = rest' := by simp
    have hmax : max 1 (t :: w').length = (t :: w').length := by simp
    have key := (hf (t :: w') a rest' hle rfl hP).shift (t :: w')
    simp only [Reading.past, hdrop, hmax]
    exact key
  | stuck c n => exact hr

theorem Fits.take {kind : Token.Kind} {place : Place}
    {f : Token → (rest : List Token) → rest.length < ts.length → Reading α}
    (hf : ∀ t rest hlt, ts = t :: rest → t.kind = kind →
      Fits (fun w a rest => P (t :: w) a rest) rest (f t rest hlt)) :
    Fits P ts (Reading.take kind place ts f) := by
  cases ts with
  | nil => exact Fits.stuck_here rfl rfl
  | cons t rest =>
    simp only [Reading.take]
    split
    · rename_i hkind
      exact Fits.shift_one (hf t rest _ rfl hkind)
    · exact Fits.stuck_here rfl rfl

theorem Fits.close {kind : Token.Kind} {place : Place} {a : α}
    (h : ∀ t rest, ts = t :: rest → t.kind = kind → P [t] a rest) :
    Fits P ts (Reading.close kind place ts a) :=
  Fits.take fun t rest _ hts hkind => Fits.done (h t rest hts hkind)

end Reading

namespace Grammar

open Reading

/-! ## Rules with their continuations -/

/-- What follows the operand at the front of an expression. -/
def assignment (target : Expr) : List Token → Reading Expr
  | [] => done target
  | equals :: rest =>
    if equals.kind = .equal then
      ((expression rest).andThen rest fun value _ _ =>
        match target with
        | .name _ x => done (.assign equals.line x value)
        | _ => stuck ⟨.invalidTarget, some equals⟩ 0).shift 1
    else done target

theorem expression_eq (ts : List Token) :
    expression ts =
      (operation Level.all ts).andThen ts fun target rest _ => assignment target rest := by
  rw [expression]
  congr 1
  funext target rest _
  cases rest <;> rfl

/-- What follows the arguments of a call. -/
def afterCall (result : Expr) : List Token → Reading Expr
  | [] => done result
  | again :: _ =>
    if again.kind = .leftParen then stuck ⟨.uncallable, some again⟩ 1 else done result

/-- What follows a primary expression. -/
def called (callee : Expr) : List Token → Reading Expr
  | [] => done callee
  | paren :: rest =>
    if paren.kind = .leftParen then
      match callee with
      | .name _ f =>
        ((arguments rest).andThen rest fun args rest _ =>
          afterCall (.call paren.line f (args.take maxArguments)) rest).shift 1
      | _ => stuck ⟨.uncallable, some paren⟩ 1
    else done callee

theorem call_eq (ts : List Token) :
    call ts = (primary ts).andThen ts fun callee rest _ => called callee rest := by
  rw [call]
  congr 1
  funext callee rest _
  cases rest with
  | nil => rfl
  | cons paren rest =>
    cases callee with
    | name l f =>
      simp only [called]
      congr 3
      funext args rest _
      cases rest <;> rfl
    | _ => rfl

/-- What follows an argument. -/
def argumentTail (first : Expr) : List Token → Reading (List Expr)
  | [] => close .rightParen .afterArguments [] [first]
  | t :: rest =>
    if t.kind = .comma then ((argumentList rest).map (first :: ·)).shift 1
    else close .rightParen .afterArguments (t :: rest) [first]

theorem argumentList_eq (ts : List Token) :
    argumentList ts = (expression ts).andThen ts fun first rest _ => argumentTail first rest := by
  rw [argumentList]
  congr 1
  funext first rest _
  cases rest <;> rfl

theorem declaration_statement {t : Token} (hvar : t.kind ≠ .varWord) (hfun : t.kind ≠ .funWord)
    (rest : List Token) : declaration (t :: rest) = statement (t :: rest) := by
  rw [declaration]
  split
  · exact absurd ‹_› hvar
  · exact absurd ‹_› hfun
  · rfl

/-- A statement without a word of its own. -/
theorem statement_otherwise {t : Token} (hprint : t.kind ≠ .printWord) (hif : t.kind ≠ .ifWord)
    (hwhile : t.kind ≠ .whileWord) (hfor : t.kind ≠ .forWord) (hreturn : t.kind ≠ .returnWord)
    (hbrace : t.kind ≠ .leftBrace) (rest : List Token) :
    statement (t :: rest) = expressionStatement (t :: rest) := by
  rw [statement]
  split
  · exact absurd ‹_› hprint
  · exact absurd ‹_› hif
  · exact absurd ‹_› hwhile
  · exact absurd ‹_› hfor
  · exact absurd ‹_› hreturn
  · exact absurd ‹_› hbrace
  · rfl

/-- What follows the first branch of an `if`. -/
def otherwise (line : Int) (test : Expr) (yes : Stmt) : List Token → Reading Stmt
  | [] => done (.ifThen line test yes)
  | t :: rest =>
    if t.kind = .elseWord then ((statement rest).map (.ifElse line test yes)).shift 1
    else done (.ifThen line test yes)

/-- An `if` behind its keyword. -/
def chosen (line : Int) (ts : List Token) : Reading Stmt :=
  (condition .afterIf .afterIfCondition ts).andThen ts fun test rest _ =>
    (statement rest).andThen rest fun yes rest _ => otherwise line test yes rest

theorem statement_if {t : Token} (rest : List Token) (h : t.kind = .ifWord) :
    statement (t :: rest) = (chosen t.line rest).shift 1 := by
  rw [statement, h]
  simp only [chosen]
  congr 2
  funext test rest _
  congr 1
  funext yes rest _
  cases rest <;> rfl

/-- The block that a `for` stands for, as the grammar writes it. -/
theorem forLoop_eq (line : Int) (start : Option Stmt) (test step : Option Expr) (body : Stmt) :
    Stmt.forLoop line start test step body =
      .block line (start.toList ++ [.loop line (test.getD (.bool line true))
        (step.elim body fun e => .block line [body, .expression line e])]) := by
  cases step <;> rfl

end Grammar

end Lox

import Lox.Proofs.Erasure.Stack

/-!
# Evaluation up to lines and groups

Where the rules for stacks lead a tree from a stack to an outcome, they lead a tree that is equal to
it up to lines and groups, from a stack that is equal to it up to them, to an outcome that is alike.
The second derivation follows the first one rule by rule; it has a step of its own only for every
pair of parentheses, whose value is that of what they enclose.
-/

namespace Lox

namespace Stack

/-- A relation holds of an outcome like `out` and a stack like `st'`. -/
def Leads {α β : Type} (g : α → β) (R : Except Failure α → Stack → Prop) (out : Except Failure α)
    (st' : Stack) : Prop :=
  ∃ out₂ st₂', R out₂ st₂' ∧ Failure.Alike g out out₂ ∧ st'.erase = st₂'.erase

/-- What holds inside of parentheses holds outside. -/
theorem Evaluates.of_core {st st' : Stack} {out : Except Failure Value} :
    (e : Expr) → {e' : Expr} → e.core = e' → Evaluates st e' out st' → Evaluates st e out st'
  | .group _ inner, _, hcore, h => .group (of_core inner hcore h)
  | .number _ _, _, rfl, h | .string _ _, _, rfl, h | .bool _ _, _, rfl, h | .nil _, _, rfl, h
  | .name _ _, _, rfl, h | .unary _ _ _, _, rfl, h | .binary _ _ _ _, _, rfl, h
  | .logical _ _ _ _, _, rfl, h | .assign _ _ _, _, rfl, h | .call _ _ _, _, rfl, h => h

theorem Answers.alike {st st₂ st' : Stack} {n : Native} {out : Except Failure Value}
    (h : Answers st n out st') (hst : st.erase = st₂.erase) :
    Leads Value.erase (Answers st₂ n) out st' := by
  cases h with
  | refused hroom =>
    rw [output_eq hst] at hroom
    exact ⟨_, _, .refused hroom, .error rfl, hst⟩
  | announce hroom =>
    rw [output_eq hst] at hroom
    exact ⟨_, _, .announce hroom, .ok rfl, withOutput_eq hst _⟩
  | hostFails =>
    refine ⟨_, _, .hostFails, .error rfl, ?_⟩
    simp only [erase, frames_eq hst, output_eq hst, hostCalls_eq hst, functions_eq hst]
  | host =>
    refine ⟨_, _, .host, .ok rfl, ?_⟩
    simp only [erase, frames_eq hst, output_eq hst, hostCalls_eq hst, functions_eq hst]

theorem alike_result {out out₂ : Except Failure Flow} (h : Failure.Alike Flow.erase out out₂) :
    Failure.Alike Value.erase (out.map result) (out₂.map result) := by
  cases h with
  | error hf => exact .error hf
  | @ok a b h =>
    cases a <;> cases b <;> simp only [Flow.erase, reduceCtorEq, Flow.giveBack.injEq] at h
    · exact .ok rfl
    · exact .ok h

mutual

theorem Evaluates.alike : {st : Stack} → {e : Expr} → {out : Except Failure Value} →
    {st' : Stack} → Evaluates st e out st' → {st₂ : Stack} → {e₂ : Expr} →
    st.erase = st₂.erase → e.erase = e₂.erase → Leads Value.erase (Evaluates st₂ e₂) out st'
  | _, _, _, _, .number, _, _, hst, he => by
    obtain ⟨e', hcore, hparts⟩ := Expr.exists_core rfl he
    cases hparts with | number =>
    exact ⟨_, _, .of_core _ hcore .number, .ok rfl, hst⟩
  | _, _, _, _, .string, _, _, hst, he => by
    obtain ⟨e', hcore, hparts⟩ := Expr.exists_core rfl he
    cases hparts with | string =>
    exact ⟨_, _, .of_core _ hcore .string, .ok rfl, hst⟩
  | _, _, _, _, .bool, _, _, hst, he => by
    obtain ⟨e', hcore, hparts⟩ := Expr.exists_core rfl he
    cases hparts with | bool =>
    exact ⟨_, _, .of_core _ hcore .bool, .ok rfl, hst⟩
  | _, _, _, _, .nil, _, _, hst, he => by
    obtain ⟨e', hcore, hparts⟩ := Expr.exists_core rfl he
    cases hparts with | nil =>
    exact ⟨_, _, .of_core _ hcore .nil, .ok rfl, hst⟩
  | _, _, _, _, .name h, _, _, hst, he => by
    obtain ⟨e', hcore, hparts⟩ := Expr.exists_core rfl he
    cases hparts with | name =>
    obtain ⟨v, hv, heq⟩ := lookup_eq_some hst h
    exact ⟨_, _, .of_core _ hcore (.name hv), .ok heq, hst⟩
  | _, _, _, _, .unbound h, _, _, hst, he => by
    obtain ⟨e', hcore, hparts⟩ := Expr.exists_core rfl he
    cases hparts with | name =>
    exact ⟨_, _, .of_core _ hcore (.unbound (lookup_eq_none hst h)), .error rfl, hst⟩
  | _, _, _, _, .group h, _, _, hst, he => h.alike hst he
  | _, _, _, _, .unaryFails h, _, _, hst, he => by
    obtain ⟨e', hcore, hparts⟩ := Expr.exists_core rfl he
    cases hparts with | unary hoperand =>
    have ⟨_, _, h₁, .error hf, hst₁⟩ := h.alike hst hoperand
    exact ⟨_, _, .of_core _ hcore (.unaryFails h₁), .error hf, hst₁⟩
  | _, _, _, _, .unary h hop, _, _, hst, he => by
    obtain ⟨e', hcore, hparts⟩ := Expr.exists_core rfl he
    cases hparts with | unary hoperand =>
    have ⟨_, _, h₁, .ok hv, hst₁⟩ := h.alike hst hoperand
    obtain ⟨_, hop₁, hout⟩ := hop.alike hv _
    exact ⟨_, _, .of_core _ hcore (.unary h₁ hop₁), hout, hst₁⟩
  | _, _, _, _, .binaryLeftFails hleft, _, _, hst, he => by
    obtain ⟨e', hcore, hparts⟩ := Expr.exists_core rfl he
    cases hparts with | binary hl hr =>
    have ⟨_, _, h₁, .error hf, hst₁⟩ := hleft.alike hst hl
    exact ⟨_, _, .of_core _ hcore (.binaryLeftFails h₁), .error hf, hst₁⟩
  | _, _, _, _, .binaryRightFails hleft hright, _, _, hst, he => by
    obtain ⟨e', hcore, hparts⟩ := Expr.exists_core rfl he
    cases hparts with | binary hl hr =>
    have ⟨_, _, h₁, .ok _, hst₁⟩ := hleft.alike hst hl
    have ⟨_, _, h₂, .error hf, hst₂⟩ := hright.alike hst₁ hr
    exact ⟨_, _, .of_core _ hcore (.binaryRightFails h₁ h₂), .error hf, hst₂⟩
  | _, _, _, _, .binary hleft hright hop, _, _, hst, he => by
    obtain ⟨e', hcore, hparts⟩ := Expr.exists_core rfl he
    cases hparts with | binary hl hr =>
    have ⟨_, _, h₁, .ok hv, hst₁⟩ := hleft.alike hst hl
    have ⟨_, _, h₂, .ok hw, hst₂⟩ := hright.alike hst₁ hr
    obtain ⟨_, hop₁, hout⟩ := hop.alike hv hw _
    exact ⟨_, _, .of_core _ hcore (.binary h₁ h₂ hop₁), hout, hst₂⟩
  | _, _, _, _, .logicalLeftFails hleft, _, _, hst, he => by
    obtain ⟨e', hcore, hparts⟩ := Expr.exists_core rfl he
    cases hparts with | logical hl hr =>
    have ⟨_, _, h₁, .error hf, hst₁⟩ := hleft.alike hst hl
    exact ⟨_, _, .of_core _ hcore (.logicalLeftFails h₁), .error hf, hst₁⟩
  | _, _, _, _, .logicalRightFails hleft hright, _, _, hst, he => by
    obtain ⟨e', hcore, hparts⟩ := Expr.exists_core rfl he
    cases hparts with | logical hl hr =>
    have ⟨_, _, h₁, .ok _, hst₁⟩ := hleft.alike hst hl
    have ⟨_, _, h₂, .error hf, hst₂⟩ := hright.alike hst₁ hr
    exact ⟨_, _, .of_core _ hcore (.logicalRightFails h₁ h₂), .error hf, hst₂⟩
  | _, _, _, _, .logical hleft hright hop, _, _, hst, he => by
    obtain ⟨e', hcore, hparts⟩ := Expr.exists_core rfl he
    cases hparts with | logical hl hr =>
    have ⟨_, _, h₁, .ok hv, hst₁⟩ := hleft.alike hst hl
    have ⟨_, _, h₂, .ok hw, hst₂⟩ := hright.alike hst₁ hr
    obtain ⟨_, hop₁, hout⟩ := hop.alike hv hw _
    exact ⟨_, _, .of_core _ hcore (.logical h₁ h₂ hop₁), hout, hst₂⟩
  | _, _, _, _, .assignFails h, _, _, hst, he => by
    obtain ⟨e', hcore, hparts⟩ := Expr.exists_core rfl he
    cases hparts with | assign hvalue =>
    have ⟨_, _, h₁, .error hf, hst₁⟩ := h.alike hst hvalue
    exact ⟨_, _, .of_core _ hcore (.assignFails h₁), .error hf, hst₁⟩
  | _, _, _, _, .assignUnbound h hx, _, _, hst, he => by
    obtain ⟨e', hcore, hparts⟩ := Expr.exists_core rfl he
    cases hparts with | assign hvalue =>
    have ⟨_, _, h₁, .ok hv, hst₁⟩ := h.alike hst hvalue
    have hx₁ := assign_eq_none hst₁ hv hx
    exact ⟨_, _, .of_core _ hcore (.assignUnbound h₁ hx₁), .error rfl, hst₁⟩
  | _, _, _, _, .assign h hx, _, _, hst, he => by
    obtain ⟨e', hcore, hparts⟩ := Expr.exists_core rfl he
    cases hparts with | assign hvalue =>
    have ⟨_, _, h₁, .ok hv, hst₁⟩ := h.alike hst hvalue
    obtain ⟨fs, hfs, hst₂⟩ := assign_eq_some hst₁ hv hx
    exact ⟨_, _, .of_core _ hcore (.assign h₁ hfs), .ok hv, hst₂⟩
  | _, _, _, _, .callUnbound hg, _, _, hst, he => by
    obtain ⟨e', hcore, hparts⟩ := Expr.exists_core rfl he
    cases hparts with | call _ =>
    exact ⟨_, _, .of_core _ hcore (.callUnbound (lookup_eq_none hst hg)), .error rfl, hst⟩
  | _, _, _, _, .callOther hg hcallee hk, _, _, hst, he => by
    obtain ⟨e', hcore, hparts⟩ := Expr.exists_core rfl he
    cases hparts with | call _ =>
    obtain ⟨callee, hg₂, heq⟩ := lookup_eq_some hst hg
    simp only [Value.takes_eq heq] at hcallee
    exact ⟨_, _, .of_core _ hcore (.callOther hg₂ hcallee (hk.alike heq)), .error rfl, hst⟩
  | _, _, _, _, .callFails hg harity hargs, _, _, hst, he => by
    obtain ⟨e', hcore, hparts⟩ := Expr.exists_core rfl he
    cases hparts with | call hes =>
    obtain ⟨callee, hg₂, heq⟩ := lookup_eq_some hst hg
    rw [Value.takes_eq heq] at harity
    have ⟨_, _, h₁, .error hf, hst₁⟩ := hargs.alike hst hes
    exact ⟨_, _, .of_core _ hcore (.callFails hg₂ harity h₁), .error hf, hst₁⟩
  | _, _, _, _, .callArity hg harity hargs hne, _, _, hst, he => by
    obtain ⟨e', hcore, hparts⟩ := Expr.exists_core rfl he
    cases hparts with | call hes =>
    obtain ⟨callee, hg₂, heq⟩ := lookup_eq_some hst hg
    rw [Value.takes_eq heq] at harity
    have ⟨_, _, h₁, .ok hvs, hst₁⟩ := hargs.alike hst hes
    rw [Value.length_eq hvs] at hne ⊢
    exact ⟨_, _, .of_core _ hcore (.callArity hg₂ harity h₁ hne), .error rfl, hst₁⟩
  | _, _, _, _, .call hg harity hargs hlength happly, _, _, hst, he => by
    obtain ⟨e', hcore, hparts⟩ := Expr.exists_core rfl he
    cases hparts with | call hes =>
    obtain ⟨callee, hg₂, heq⟩ := lookup_eq_some hst hg
    rw [Value.takes_eq heq] at harity
    have ⟨_, _, h₁, .ok hvs, hst₁⟩ := hargs.alike hst hes
    rw [Value.length_eq hvs] at hlength
    obtain ⟨_, _, h₂, hout, hst₂⟩ := happly.alike hst₁ heq hvs
    exact ⟨_, _, .of_core _ hcore (.call hg₂ harity h₁ hlength h₂), hout, hst₂⟩

theorem EvaluatesAll.alike : {st : Stack} → {es : List Expr} →
    {out : Except Failure (List Value)} → {st' : Stack} → EvaluatesAll st es out st' →
    {st₂ : Stack} → {es₂ : List Expr} → st.erase = st₂.erase →
    Expr.eraseAll es = Expr.eraseAll es₂ →
    Leads (List.map Value.erase) (EvaluatesAll st₂ es₂) out st'
  | _, _, _, _, .nil, _, _, hst, hes => by
    obtain rfl := Expr.eraseAll_eq_nil hes
    exact ⟨_, _, .nil, .ok rfl, hst⟩
  | _, _, _, _, .headFails hhead, _, _, hst, hes => by
    obtain ⟨e, rest, rfl, he, hrest⟩ := Expr.eraseAll_eq_cons hes
    have ⟨_, _, h₁, .error hf, hst₁⟩ := hhead.alike hst he
    exact ⟨_, _, .headFails h₁, .error hf, hst₁⟩
  | _, _, _, _, .tailFails hhead htail, _, _, hst, hes => by
    obtain ⟨e, rest, rfl, he, hrest⟩ := Expr.eraseAll_eq_cons hes
    have ⟨_, _, h₁, .ok _, hst₁⟩ := hhead.alike hst he
    have ⟨_, _, h₂, .error hf, hst₂⟩ := htail.alike hst₁ hrest
    exact ⟨_, _, .tailFails h₁ h₂, .error hf, hst₂⟩
  | _, _, _, _, .cons hhead htail, _, _, hst, hes => by
    obtain ⟨e, rest, rfl, he, hrest⟩ := Expr.eraseAll_eq_cons hes
    have ⟨_, _, h₁, .ok hv, hst₁⟩ := hhead.alike hst he
    have ⟨_, _, h₂, .ok hvs, hst₂⟩ := htail.alike hst₁ hrest
    exact ⟨_, _, .cons h₁ h₂, .ok (List.cons_eq_cons.mpr ⟨hv, hvs⟩), hst₂⟩

theorem Applies.alike : {st : Stack} → {callee : Value} → {vs : List Value} →
    {out : Except Failure Value} → {st' : Stack} → Applies st callee vs out st' →
    {st₂ : Stack} → {callee₂ : Value} → {vs₂ : List Value} → st.erase = st₂.erase →
    callee.erase = callee₂.erase → vs.map Value.erase = vs₂.map Value.erase →
    Leads Value.erase (Applies st₂ callee₂ vs₂) out st'
  | _, _, _, _, _, .function hbody, _, _, _, hst, hcallee, hvs => by
    obtain ⟨g, rfl, hparams, hbodies⟩ := Value.exists_function hcallee
    have hframe := Frame.erase_ofList_zip hparams hvs
    obtain ⟨_, _, h₁, hout, hst₁⟩ := hbody.alike (push_eq hst hframe) hbodies
    exact ⟨_, _, .function h₁, alike_result hout, pop_eq hst₁⟩
  | _, _, _, _, _, .native hn, _, _, _, hst, hcallee, _ => by
    obtain rfl := Value.eq_native hcallee
    obtain ⟨_, _, h₁, hout, hst₁⟩ := hn.alike hst
    exact ⟨_, _, .native h₁, hout, hst₁⟩

theorem Tests.alike : {keyword : String} → {st : Stack} → {e : Expr} →
    {out : Except Failure Bool} → {st' : Stack} → Tests keyword st e out st' →
    {st₂ : Stack} → {e₂ : Expr} → st.erase = st₂.erase → e.erase = e₂.erase →
    Leads id (Tests keyword st₂ e₂) out st'
  | _, _, _, _, _, .fails h, _, _, hst, he => by
    have ⟨_, _, h₁, .error hf, hst₁⟩ := h.alike hst he
    exact ⟨_, _, .fails h₁, .error hf, hst₁⟩
  | _, _, _, _, _, .other h hk hne, _, _, hst, he => by
    have ⟨_, _, h₁, .ok hv, hst₁⟩ := h.alike hst he
    exact ⟨_, _, .other h₁ (hk.alike hv) hne, .error rfl, hst₁⟩
  | _, _, _, _, _, .bool h, _, _, hst, he => by
    have ⟨_, _, h₁, .ok hv, hst₁⟩ := h.alike hst he
    obtain rfl := Value.eq_bool hv
    exact ⟨_, _, .bool h₁, .ok rfl, hst₁⟩

theorem Executes.alike : {st : Stack} → {s : Stmt} → {out : Except Failure Flow} →
    {st' : Stack} → Executes st s out st' → {st₂ : Stack} → {s₂ : Stmt} →
    st.erase = st₂.erase → s.erase = s₂.erase → Leads Flow.erase (Executes st₂ s₂) out st'
  | _, _, _, _, .expressionFails h, _, _, hst, hs => by
    cases Stmt.matches_of_erase hs with | expression he =>
    have ⟨_, _, h₁, .error hf, hst₁⟩ := h.alike hst he
    exact ⟨_, _, .expressionFails h₁, .error hf, hst₁⟩
  | _, _, _, _, .expression h, _, _, hst, hs => by
    cases Stmt.matches_of_erase hs with | expression he =>
    have ⟨_, _, h₁, .ok hv, hst₁⟩ := h.alike hst he
    exact ⟨_, _, .expression h₁, .ok (congrArg Flow.next hv), hst₁⟩
  | _, _, _, _, .printFails h, _, _, hst, hs => by
    cases Stmt.matches_of_erase hs with | print he =>
    have ⟨_, _, h₁, .error hf, hst₁⟩ := h.alike hst he
    exact ⟨_, _, .printFails h₁, .error hf, hst₁⟩
  | _, _, _, _, .printRefused h hshown hroom, _, _, hst, hs => by
    cases Stmt.matches_of_erase hs with | print he =>
    have ⟨_, _, h₁, .ok hv, hst₁⟩ := h.alike hst he
    rw [output_eq hst₁] at hroom
    exact ⟨_, _, .printRefused h₁ (hshown.alike hv) hroom, .error rfl, hst₁⟩
  | _, _, _, _, .print h hshown hroom, _, _, hst, hs => by
    cases Stmt.matches_of_erase hs with | print he =>
    have ⟨_, _, h₁, .ok hv, hst₁⟩ := h.alike hst he
    rw [output_eq hst₁] at hroom
    exact ⟨_, _, .print h₁ (hshown.alike hv) hroom, .ok rfl, withOutput_eq hst₁ _⟩
  | _, _, _, _, .declareNil, _, _, hst, hs => by
    cases Stmt.matches_of_erase hs with | declareNil =>
    exact ⟨_, _, .declareNil, .ok rfl, define_eq hst _ rfl⟩
  | _, _, _, _, .declareFails h, _, _, hst, hs => by
    cases Stmt.matches_of_erase hs with | declare he =>
    have ⟨_, _, h₁, .error hf, hst₁⟩ := h.alike hst he
    exact ⟨_, _, .declareFails h₁, .error hf, hst₁⟩
  | _, _, _, _, .declare h, _, _, hst, hs => by
    cases Stmt.matches_of_erase hs with | declare he =>
    have ⟨_, _, h₁, .ok hv, hst₁⟩ := h.alike hst he
    exact ⟨_, _, .declare h₁, .ok rfl, define_eq hst₁ _ hv⟩
  | _, _, _, _, .function, _, _, hst, hs => by
    cases Stmt.matches_of_erase hs with | function hbody =>
    exact ⟨_, _, .function, .ok rfl, define_eq (newFunction_eq hst) _
      (Value.erase_function (functions_eq hst) hbody)⟩
  | _, _, _, _, .block h, _, _, hst, hs => by
    cases Stmt.matches_of_erase hs with | block hbody =>
    obtain ⟨_, _, h₁, hout, hst₁⟩ := h.alike (push_eq hst rfl) hbody
    exact ⟨_, _, .block h₁, hout, pop_eq hst₁⟩
  | _, _, _, _, .ifThenFails htest, _, _, hst, hs => by
    cases Stmt.matches_of_erase hs with | ifThen he _ =>
    have ⟨_, _, h₁, .error hf, hst₁⟩ := htest.alike hst he
    exact ⟨_, _, .ifThenFails h₁, .error hf, hst₁⟩
  | _, _, _, _, .ifThenSkips htest, _, _, hst, hs => by
    cases Stmt.matches_of_erase hs with | ifThen he _ =>
    have ⟨_, _, h₁, .ok rfl, hst₁⟩ := htest.alike hst he
    exact ⟨_, _, .ifThenSkips h₁, .ok rfl, hst₁⟩
  | _, _, _, _, .ifThen htest hyes, _, _, hst, hs => by
    cases Stmt.matches_of_erase hs with | ifThen he hy =>
    have ⟨_, _, h₁, .ok rfl, hst₁⟩ := htest.alike hst he
    obtain ⟨_, _, h₂, hout, hst₂⟩ := hyes.alike hst₁ hy
    exact ⟨_, _, .ifThen h₁ h₂, hout, hst₂⟩
  | _, _, _, _, .ifElseFails htest, _, _, hst, hs => by
    cases Stmt.matches_of_erase hs with | ifElse he _ _ =>
    have ⟨_, _, h₁, .error hf, hst₁⟩ := htest.alike hst he
    exact ⟨_, _, .ifElseFails h₁, .error hf, hst₁⟩
  | _, _, _, _, .ifElse (b := b) htest hbranch, _, _, hst, hs => by
    cases Stmt.matches_of_erase hs with | ifElse he hy hn =>
    have ⟨_, _, h₁, .ok rfl, hst₁⟩ := htest.alike hst he
    obtain ⟨_, _, h₂, hout, hst₂⟩ := hbranch.alike hst₁ (Stmt.erase_branch b hy hn)
    exact ⟨_, _, .ifElse h₁ h₂, hout, hst₂⟩
  | _, _, _, _, .loopFails htest, _, _, hst, hs => by
    cases Stmt.matches_of_erase hs with | loop he _ =>
    have ⟨_, _, h₁, .error hf, hst₁⟩ := htest.alike hst he
    exact ⟨_, _, .loopFails h₁, .error hf, hst₁⟩
  | _, _, _, _, .loopEnds htest, _, _, hst, hs => by
    cases Stmt.matches_of_erase hs with | loop he _ =>
    have ⟨_, _, h₁, .ok rfl, hst₁⟩ := htest.alike hst he
    exact ⟨_, _, .loopEnds h₁, .ok rfl, hst₁⟩
  | _, _, _, _, .loopBodyFails htest hbody, _, _, hst, hs => by
    cases Stmt.matches_of_erase hs with | loop he hb =>
    have ⟨_, _, h₁, .ok rfl, hst₁⟩ := htest.alike hst he
    have ⟨_, _, h₂, .error hf, hst₂⟩ := hbody.alike hst₁ hb
    exact ⟨_, _, .loopBodyFails h₁ h₂, .error hf, hst₂⟩
  | _, _, _, _, .loopGivesBack htest hbody, _, _, hst, hs => by
    cases Stmt.matches_of_erase hs with | loop he hb =>
    have ⟨_, _, h₁, .ok rfl, hst₁⟩ := htest.alike hst he
    have ⟨_, _, h₂, .ok hflow, hst₂⟩ := hbody.alike hst₁ hb
    obtain ⟨w, rfl⟩ := Flow.exists_giveBack hflow
    exact ⟨_, _, .loopGivesBack h₁ h₂, .ok hflow, hst₂⟩
  | _, _, _, _, .loopRepeats htest hbody hagain, _, _, hst, hs => by
    -- The rest of the loop is the same statement once more.
    have hsame := hs
    cases Stmt.matches_of_erase hs with | loop he hb =>
    have ⟨_, _, h₁, .ok rfl, hst₁⟩ := htest.alike hst he
    have ⟨_, _, h₂, .ok hflow, hst₂⟩ := hbody.alike hst₁ hb
    obtain ⟨w, rfl⟩ := Flow.exists_next hflow
    obtain ⟨_, _, h₃, hout, hst₃⟩ := hagain.alike hst₂ hsame
    exact ⟨_, _, .loopRepeats h₁ h₂ h₃, hout, hst₃⟩
  | _, _, _, _, .giveBackNil, _, _, hst, hs => by
    cases Stmt.matches_of_erase hs with | giveBackNil =>
    exact ⟨_, _, .giveBackNil, .ok rfl, hst⟩
  | _, _, _, _, .giveBackFails h, _, _, hst, hs => by
    cases Stmt.matches_of_erase hs with | giveBack he =>
    have ⟨_, _, h₁, .error hf, hst₁⟩ := h.alike hst he
    exact ⟨_, _, .giveBackFails h₁, .error hf, hst₁⟩
  | _, _, _, _, .giveBack h, _, _, hst, hs => by
    cases Stmt.matches_of_erase hs with | giveBack he =>
    have ⟨_, _, h₁, .ok hv, hst₁⟩ := h.alike hst he
    exact ⟨_, _, .giveBack h₁, .ok (congrArg Flow.giveBack hv), hst₁⟩

theorem ExecutesAll.alike : {st : Stack} → {ss : List Stmt} → {out : Except Failure Flow} →
    {st' : Stack} → ExecutesAll st ss out st' → {st₂ : Stack} → {ss₂ : List Stmt} →
    st.erase = st₂.erase → Stmt.eraseAll ss = Stmt.eraseAll ss₂ →
    Leads Flow.erase (ExecutesAll st₂ ss₂) out st'
  | _, _, _, _, .nil, _, _, hst, hss => by
    obtain rfl := Stmt.eraseAll_eq_nil hss
    exact ⟨_, _, .nil, .ok rfl, hst⟩
  | _, _, _, _, .fails h, _, _, hst, hss => by
    obtain ⟨s, rest, rfl, hs, _⟩ := Stmt.eraseAll_eq_cons hss
    have ⟨_, _, h₁, .error hf, hst₁⟩ := h.alike hst hs
    exact ⟨_, _, .fails h₁, .error hf, hst₁⟩
  | _, _, _, _, .givesBack h, _, _, hst, hss => by
    obtain ⟨s, rest, rfl, hs, _⟩ := Stmt.eraseAll_eq_cons hss
    have ⟨_, _, h₁, .ok hflow, hst₁⟩ := h.alike hst hs
    obtain ⟨w, rfl⟩ := Flow.exists_giveBack hflow
    exact ⟨_, _, .givesBack h₁, .ok hflow, hst₁⟩
  | _, _, _, _, .next h hrest, _, _, hst, hss => by
    obtain ⟨s, rest, rfl, hs, htail⟩ := Stmt.eraseAll_eq_cons hss
    have ⟨_, _, h₁, .ok hflow, hst₁⟩ := h.alike hst hs
    obtain ⟨w, rfl⟩ := Flow.exists_next hflow
    obtain ⟨_, _, h₂, hout, hst₂⟩ := hrest.alike hst₁ htail
    exact ⟨_, _, .next h₁ h₂, hout, hst₂⟩

end

end Stack

end Lox

import Lox.Proofs.Scope.Chain

/-!
# Computations seen as changes of a stack

Seen from a scope, a machine is a stack (`Machine.stack`).  A computation in the scope may make new
scopes and change those on the chain, but it leaves the parents of the scopes that are there
(`Machine.Extends`), so afterwards the same scope is again a view of a stack.

Two notions relate a computation to what happens on the stack: `Simulates` says that whatever a
computation ends with is related to the stack before and after, and `Covers` that a computation
with enough fuel ends with a given outcome and stack.  A computation without fuel that is given by a
function on stacks is both (`Acts`), and both are put together along `>>=`.
-/

namespace Lox

/-- The frames that a scope sees, with what a program shares with the outside. -/
def Machine.stack (m : Machine) (scope : ScopeId) : Stack :=
  ⟨m.scopes.frames scope, m.output, m.hostCalls, m.functions⟩

/-- Writes a text that there is room for. -/
def Stack.write (st : Stack) (s : String) : Stack := { st with output := st.output.append s }

/-- The scopes of `m` are still there in `m'`, with the same parents. -/
structure Machine.Extends (m m' : Machine) : Prop where
  size_le : m.scopes.size ≤ m'.scopes.size
  parent_eq : ∀ i < m.scopes.size, m'.scopes.parent? i = m.scopes.parent? i

theorem Machine.Extends.refl (m : Machine) : m.Extends m :=
  ⟨Nat.le_refl _, fun _ _ => rfl⟩

theorem Machine.Extends.trans {m m₁ m₂ : Machine} (h₁ : m.Extends m₁) (h₂ : m₁.Extends m₂) :
    m.Extends m₂ :=
  ⟨Nat.le_trans h₁.size_le h₂.size_le, fun i hi =>
    (h₂.parent_eq i (Nat.lt_of_lt_of_le hi h₁.size_le)).trans (h₁.parent_eq i hi)⟩

namespace Eval

variable {α β : Type}

/-! ## How a computation ends -/

/-- A computation ends with an outcome and a machine, and not for lack of fuel. -/
def Ends (x : Eval α) (m : Machine) (out : Except Failure α) (m' : Machine) : Prop :=
  x m = (out.mapError Stop.failed, m')

/-- The outcome and the machine at the end are determined. -/
theorem Ends.unique {x : Eval α} {m m₁ m₂ : Machine} {out₁ out₂ : Except Failure α}
    (h₁ : Ends x m out₁ m₁) (h₂ : Ends x m out₂ m₂) : out₁ = out₂ ∧ m₁ = m₂ := by
  have h : (out₁.mapError Stop.failed, m₁) = (out₂.mapError Stop.failed, m₂) := h₁.symm.trans h₂
  obtain ⟨hout, hm⟩ := Prod.mk.inj h
  refine ⟨?_, hm⟩
  cases out₁ <;> cases out₂ <;> cases hout <;> rfl

theorem Ends.bind_ok {x : Eval α} {f : α → Eval β} {m m₁ m' : Machine} {a : α}
    {out : Except Failure β} (hx : Ends x m (.ok a) m₁) (hf : Ends (f a) m₁ out m') :
    Ends (x >>= f) m out m' := by
  have hbind : (x >>= f) m = f a m₁ := by
    show andThen x f m = f a m₁
    rw [andThen, hx]
    rfl
  rw [Ends, hbind, hf]

theorem bind_assoc {γ : Type} (x : Eval α) (f : α → Eval β) (g : β → Eval γ) :
    x >>= f >>= g = x >>= fun a => f a >>= g := by
  funext m
  show andThen (andThen x f) g m = andThen x (fun a => andThen (f a) g) m
  unfold andThen
  cases x m with
  | mk r m₁ => cases r <;> rfl

theorem Ends.bind_error {x : Eval α} {m m' : Machine} {e : Failure} (hx : Ends x m (.error e) m')
    (f : α → Eval β) : Ends (x >>= f) m (.error e) m' := by
  show andThen x f m = _
  rw [andThen, hx]
  rfl

/-- A computation with two steps ends in the first one or in the second one. -/
theorem Ends.of_bind {x : Eval α} {f : α → Eval β} {m m' : Machine} {out : Except Failure β}
    (h : Ends (x >>= f) m out m') :
    (∃ e, Ends x m (.error e) m' ∧ out = .error e) ∨
    ∃ a m₁, Ends x m (.ok a) m₁ ∧ Ends (f a) m₁ out m' := by
  have hbind : andThen x f m = (out.mapError Stop.failed, m') := h
  cases hx : x m with
  | mk r m₁ =>
    rw [andThen, hx] at hbind
    cases r with
    | ok a => exact .inr ⟨a, m₁, hx, hbind⟩
    | error stop =>
      obtain ⟨hstop, rfl⟩ := Prod.mk.inj hbind
      cases out with
      | ok b =>
        have hok : Except.error stop = Except.ok b := hstop
        cases hok
      | error e =>
        obtain rfl : stop = .failed e := Except.error.inj hstop
        exact .inl ⟨e, hx, rfl⟩

theorem not_ends_outOfFuel {m m' : Machine} {out : Except Failure α} :
    ¬Ends (stop .outOfFuel) m out m' := by
  intro h
  obtain ⟨hstop, _⟩ := Prod.mk.inj h
  cases out with
  | ok a =>
    have hok : Except.error Stop.outOfFuel = Except.ok a := hstop
    cases hok
  | error e => exact absurd (Except.error.inj hstop) (by simp)

/-! ## Computations and stacks -/

/-- Whatever a computation in a scope ends with is related to the stack before and after. -/
def Simulates (scope : ScopeId) (x : Eval α) (R : Stack → Except Failure α → Stack → Prop) : Prop :=
  ∀ m out m', scope < m.scopes.size → Ends x m out m' →
    R (m.stack scope) out (m'.stack scope) ∧ m.Extends m'

/-- On every machine that looks like `st`, the computation with enough fuel ends with `out` and
leaves a machine that looks like `st'`. -/
def Covers (x : Nat → ScopeId → Eval α) (st : Stack) (out : Except Failure α) (st' : Stack) :
    Prop :=
  ∀ m scope, scope < m.scopes.size → m.stack scope = st →
    ∃ m', m'.stack scope = st' ∧ m.Extends m' ∧
      ∃ n, ∀ fuel, n ≤ fuel → Ends (x fuel scope) m out m'

/-- A computation does on the stack what a function says. -/
def Acts (x : ScopeId → Eval α) (g : Stack → Except Failure α × Stack) : Prop :=
  ∀ m scope, scope < m.scopes.size →
    ∃ m', Ends (x scope) m (g (m.stack scope)).1 m' ∧ m'.stack scope = (g (m.stack scope)).2 ∧
      m.Extends m'

theorem Acts.congr {x : ScopeId → Eval α} {g h : Stack → Except Failure α × Stack}
    (hx : Acts x g) (hgh : ∀ st, g st = h st) : Acts x h :=
  (funext hgh : g = h) ▸ hx

variable {x : Nat → ScopeId → Eval α} {f : α → Nat → ScopeId → Eval β}

theorem Acts.simulates {x : ScopeId → Eval α} {g : Stack → Except Failure α × Stack}
    (h : Acts x g) (scope : ScopeId) :
    Simulates scope (x scope) fun st out st' => g st = (out, st') := by
  intro m out m' hscope hends
  obtain ⟨m₁, hends₁, hstack, hext⟩ := h m scope hscope
  obtain ⟨rfl, rfl⟩ := hends.unique hends₁
  rw [hstack]
  exact ⟨rfl, hext⟩

theorem Acts.covers {x : ScopeId → Eval α} {g : Stack → Except Failure α × Stack}
    {st st' : Stack} {out : Except Failure α} (h : Acts x g) (hg : g st = (out, st')) :
    Covers (fun _ => x) st out st' := by
  intro m scope hscope hst
  obtain ⟨m', hends, hstack, hext⟩ := h m scope hscope
  rw [hst, hg] at hends hstack
  exact ⟨m', hstack, hext, 0, fun _ _ => hends⟩

theorem Simulates.mono {scope : ScopeId} {x : Eval α}
    {P R : Stack → Except Failure α → Stack → Prop} (h : Simulates scope x P)
    (hPR : ∀ st out st', P st out st' → R st out st') : Simulates scope x R := by
  intro m out m' hscope hends
  obtain ⟨hP, hext⟩ := h m out m' hscope hends
  exact ⟨hPR _ _ _ hP, hext⟩

theorem Simulates.outOfFuel {scope : ScopeId} {R : Stack → Except Failure α → Stack → Prop} :
    Simulates scope (stop .outOfFuel) R :=
  fun _ _ _ _ h => absurd h not_ends_outOfFuel

theorem Simulates.bind {scope : ScopeId} {x : Eval α} {f : α → Eval β}
    {P : Stack → Except Failure α → Stack → Prop} {Q : α → Stack → Except Failure β → Stack → Prop}
    {R : Stack → Except Failure β → Stack → Prop} (hx : Simulates scope x P)
    (hf : ∀ a, Simulates scope (f a) (Q a))
    (herror : ∀ st e st', P st (.error e) st' → R st (.error e) st')
    (hok : ∀ st a st₁ out st', P st (.ok a) st₁ → Q a st₁ out st' → R st out st') :
    Simulates scope (x >>= f) R := by
  intro m out m' hscope hends
  obtain ⟨e, hfail, rfl⟩ | ⟨a, m₁, hends₁, hends₂⟩ := hends.of_bind
  · obtain ⟨hP, hext⟩ := hx m _ m' hscope hfail
    exact ⟨herror _ _ _ hP, hext⟩
  · obtain ⟨hP, hext₁⟩ := hx m _ m₁ hscope hends₁
    obtain ⟨hQ, hext₂⟩ := hf a m₁ out m' (Nat.lt_of_lt_of_le hscope hext₁.size_le) hends₂
    exact ⟨hok _ _ _ _ _ hP hQ, hext₁.trans hext₂⟩

theorem Covers.bind_ok {st st₁ st' : Stack} {a : α} {out : Except Failure β}
    (hx : Covers x st (.ok a) st₁) (hf : Covers (f a) st₁ out st') :
    Covers (fun fuel scope => x fuel scope >>= fun a => f a fuel scope) st out st' := by
  intro m scope hscope hst
  obtain ⟨m₁, hst₁, hext₁, n₁, hends₁⟩ := hx m scope hscope hst
  have hscope₁ := Nat.lt_of_lt_of_le hscope hext₁.size_le
  obtain ⟨m', hst', hext, n, hends⟩ := hf m₁ scope hscope₁ hst₁
  refine ⟨m', hst', hext₁.trans hext, max n₁ n, fun fuel hfuel => ?_⟩
  exact (hends₁ fuel (by omega)).bind_ok (hends fuel (by omega))

theorem Covers.bind_error {st st' : Stack} {e : Failure} (hx : Covers x st (.error e) st') :
    Covers (fun fuel scope => x fuel scope >>= fun a => f a fuel scope) st (.error e) st' := by
  intro m scope hscope hst
  obtain ⟨m', hst', hext, n, hends⟩ := hx m scope hscope hst
  exact ⟨m', hst', hext, n, fun fuel hfuel => (hends fuel hfuel).bind_error _⟩

/-- One unit of fuel more or less does not matter. -/
theorem covers_succ_iff {st st' : Stack} {out : Except Failure α} :
    Covers (fun fuel => x (fuel + 1)) st out st' ↔ Covers x st out st' := by
  constructor
  · intro hx m scope hscope hst
    obtain ⟨m', hst', hext, n, hends⟩ := hx m scope hscope hst
    refine ⟨m', hst', hext, n + 1, fun fuel hfuel => ?_⟩
    obtain ⟨k, rfl⟩ := Nat.exists_eq_add_of_le hfuel
    have hends' : Ends (x (n + k + 1) scope) m out m' := hends (n + k) (Nat.le_add_right n k)
    rwa [show n + k + 1 = n + 1 + k by omega] at hends'
  · intro hx m scope hscope hst
    obtain ⟨m', hst', hext, n, hends⟩ := hx m scope hscope hst
    exact ⟨m', hst', hext, n, fun fuel hfuel => hends (fuel + 1) (Nat.le_succ_of_le hfuel)⟩

theorem Covers.map {st st' : Stack} {out : Except Failure α} (hx : Covers x st out st')
    (g : α → β) :
    Covers (fun fuel scope => x fuel scope >>= fun a => pure (g a)) st (out.map g) st' := by
  intro m scope hscope hst
  obtain ⟨m', hst', hext, n, hends⟩ := hx m scope hscope hst
  refine ⟨m', hst', hext, n, fun fuel hfuel => ?_⟩
  cases out with
  | ok a => exact (hends fuel hfuel).bind_ok rfl
  | error e => exact (hends fuel hfuel).bind_error _

/-! ## The steps of the evaluator -/

/-- One function on stacks after another, unless the first one fails. -/
def andThenOn (g : Stack → Except Failure α × Stack) (h : α → Stack → Except Failure β × Stack)
    (st : Stack) : Except Failure β × Stack :=
  match g st with
  | (.ok a, st₁) => h a st₁
  | (.error e, st₁) => (.error e, st₁)

theorem Acts.bind {x : ScopeId → Eval α} {f : α → ScopeId → Eval β}
    {g : Stack → Except Failure α × Stack} {h : α → Stack → Except Failure β × Stack}
    (hx : Acts x g) (hf : ∀ a, Acts (f a) (h a)) :
    Acts (fun scope => x scope >>= fun a => f a scope) (andThenOn g h) := by
  intro m scope hscope
  obtain ⟨m₁, hends₁, hstack₁, hext₁⟩ := hx m scope hscope
  unfold andThenOn
  cases hg : g (m.stack scope) with
  | mk r st₁ =>
    rw [hg] at hends₁ hstack₁
    cases r with
    | error e => exact ⟨m₁, hends₁.bind_error _, hstack₁, hext₁⟩
    | ok a =>
      have hscope₁ := Nat.lt_of_lt_of_le hscope hext₁.size_le
      obtain ⟨m', hends, hstack, hext⟩ := hf a m₁ scope hscope₁
      rw [hstack₁] at hends hstack
      exact ⟨m', hends₁.bind_ok hends, hstack, hext₁.trans hext⟩

/-- A computation that leaves the machine alone. -/
theorem acts_of_eq {x : ScopeId → Eval α} {r : Except Failure α}
    (h : ∀ scope m, x scope m = (r.mapError Stop.failed, m)) : Acts x fun st => (r, st) :=
  fun m scope _ => ⟨m, h scope m, rfl, .refl m⟩

theorem acts_pure (a : α) : Acts (fun _ => pure a) fun st => (.ok a, st) :=
  acts_of_eq fun _ _ => rfl

theorem acts_fail (e : Failure) : Acts (fun _ => (fail e : Eval α)) fun st => (.error e, st) :=
  acts_of_eq fun _ _ => rfl

theorem acts_ofExcept (r : Except Failure α) : Acts (fun _ => ofExcept r) fun st => (r, st) := by
  cases r with
  | ok a => exact acts_of_eq fun _ _ => rfl
  | error e => exact acts_of_eq fun _ _ => rfl

theorem acts_require (e : Failure) (a : Option α) :
    Acts (fun _ => require e a) fun st => (a.elim (.error e) .ok, st) := by
  cases a with
  | none => exact acts_of_eq fun _ _ => rfl
  | some a => exact acts_of_eq fun _ _ => rfl

theorem acts_lookup (name : String) :
    Acts (fun scope => lookup scope name) fun st => (.ok (st.lookup name), st) := by
  intro m scope _
  have hget : m.scopes.get? scope name = (m.stack scope).lookup name :=
    m.scopes.get?_eq_lookup scope name
  exact ⟨m, congrArg (fun v => (Except.ok v, m)) hget, rfl, .refl m⟩

/-- A machine with one name defined anew in one of its scopes. -/
theorem extends_define (m : Machine) (id : ScopeId) (name : String) (v : Value) :
    m.Extends { m with scopes := m.scopes.define id name v } :=
  ⟨Nat.le_of_eq (m.scopes.size_define id name v).symm, fun i _ =>
    m.scopes.parent?_define id name v i⟩

theorem acts_define (name : String) (v : Value) :
    Acts (fun scope => define scope name v) fun st => (.ok (), st.define name v) := by
  intro m scope hscope
  refine ⟨_, rfl, ?_, extends_define m scope name v⟩
  rw [Machine.stack, m.scopes.frames_define hscope]
  rfl

theorem acts_assign (line : Int) (name : String) (v : Value) :
    Acts (fun scope => assign line scope name v) fun st =>
      match Frame.assign? name v st.frames with
      | some frames => (.ok (), { st with frames := frames })
      | none => (.error (.fault ⟨line, .undefinedVariable name⟩), st) := by
  intro m scope _
  have hassign := m.scopes.frames_assign scope name v
  have hframes : (m.stack scope).frames = m.scopes.frames scope := rfl
  simp only [hframes, hassign, Ends, assign]
  cases m.scopes.owner? scope name with
  | none => exact ⟨m, rfl, rfl, .refl m⟩
  | some owner => exact ⟨_, rfl, rfl, extends_define m owner name v⟩

theorem acts_newFunction (name : String) (params : List String) (body : List Stmt) :
    Acts (fun _ => newFunction name params body) fun st =>
      (.ok (.function ⟨st.functions, name, params, body⟩),
        { st with functions := st.functions + 1 }) :=
  fun _ _ _ => ⟨_, rfl, rfl, ⟨Nat.le_refl _, fun _ _ => rfl⟩⟩

theorem acts_write (refused : String → Failure) (s : String) :
    Acts (fun _ => write refused s) fun st =>
      if st.output.hasRoom s then (.ok (), st.write s)
      else (.error (refused Output.refusal), st) := by
  intro m scope _
  have houtput : (m.stack scope).output = m.output := rfl
  simp only [houtput, Ends, write]
  split
  · exact ⟨_, rfl, rfl, ⟨Nat.le_refl _, fun _ _ => rfl⟩⟩
  · exact ⟨m, rfl, rfl, .refl m⟩

theorem acts_noteCall (name : String) :
    Acts (fun _ => noteCall name) fun st =>
      (.ok (), { st with hostCalls := name :: st.hostCalls }) :=
  fun _ _ _ => ⟨_, rfl, rfl, ⟨Nat.le_refl _, fun _ _ => rfl⟩⟩

theorem acts_defineAll (bindings : List (String × Value)) :
    Acts (fun scope => defineAll scope bindings) fun st =>
      (.ok (), bindings.foldl (fun st b => st.define b.1 b.2) st) := by
  induction bindings with
  | nil => exact acts_of_eq fun _ _ => rfl
  | cons b rest ih => exact (acts_define b.1 b.2).bind fun _ => ih

/-! ## Scopes that are made on the way -/

/-- What happens in a new scope happens on a stack with one more frame, which is dropped at the
end. -/
theorem stack_extend {m : Machine} {scope : ScopeId} (hscope : scope < m.scopes.size) :
    let m₁ : Machine := { m with scopes := m.scopes.add (some scope) }
    m.Extends m₁ ∧ m₁.stack m.scopes.size = (m.stack scope).push Frame.empty ∧
    ∀ m', m₁.Extends m' → m'.stack scope = (m'.stack m.scopes.size).pop := by
  intro m₁
  refine ⟨⟨?_, fun i hi => m.scopes.parent?_add (some scope) hi⟩, ?_, fun m' hext => ?_⟩
  · exact Nat.le_of_lt (Nat.lt_of_lt_of_eq (Nat.lt_succ_self _) (m.scopes.size_add _).symm)
  · rw [Machine.stack, m.scopes.frames_add hscope]
    rfl
  · -- The new scope keeps its parent, so what it sees is its own frame and those of `scope`.
    have hlt : m.scopes.size < m₁.scopes.size :=
      Nat.lt_of_lt_of_eq (Nat.lt_succ_self _) (m.scopes.size_add _).symm
    have hparent := (hext.parent_eq _ hlt).trans (m.scopes.parent?_add_size hscope)
    rw [Machine.stack, Machine.stack, Stack.pop, Scopes.frames_of_parent _ hparent]
    rfl

theorem Simulates.extend {scope : ScopeId} {body : ScopeId → Eval α}
    {P R : Stack → Except Failure α → Stack → Prop}
    (hbody : ∀ inner, Simulates inner (body inner) P)
    (hPR : ∀ st out st', P (st.push Frame.empty) out st' → R st out st'.pop) :
    Simulates scope (extend scope >>= body) R := by
  intro m out m' hscope hends
  obtain ⟨hext₁, hstack₁, hpop⟩ := stack_extend hscope
  have hlt : m.scopes.size < (m.scopes.add (some scope)).size :=
    Nat.lt_of_lt_of_eq (Nat.lt_succ_self _) (m.scopes.size_add _).symm
  obtain ⟨hP, hext⟩ := hbody m.scopes.size _ out m' hlt hends
  rw [hstack₁] at hP
  rw [hpop m' hext]
  exact ⟨hPR _ _ _ hP, hext₁.trans hext⟩

theorem Covers.extend {st st' : Stack} {out : Except Failure α}
    (hbody : Covers x (st.push Frame.empty) out st') :
    Covers (fun fuel scope => extend scope >>= fun inner => x fuel inner) st out st'.pop := by
  intro m scope hscope hst
  obtain ⟨hext₁, hstack₁, hpop⟩ := stack_extend hscope
  have hlt : m.scopes.size < (m.scopes.add (some scope)).size :=
    Nat.lt_of_lt_of_eq (Nat.lt_succ_self _) (m.scopes.size_add _).symm
  rw [hst] at hstack₁
  obtain ⟨m', hst', hext, n, hends⟩ := hbody _ m.scopes.size hlt hstack₁
  refine ⟨m', ?_, hext₁.trans hext, n, fun fuel hfuel => hends fuel hfuel⟩
  rw [hpop m' hext, hst']

end Eval

end Lox

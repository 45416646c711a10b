import Lox.Proofs.Machine.Simulation

/-!
# Two runs in lockstep

Two runs of one computation can be compared on stacks that are related but not the same.  If the
steps of the evaluator keep the relation and come to the same on both sides, then so do computations
that are put together from them.  As a block or a call puts a frame on top of both stacks and drops
it in the end, a relation is one of a family: `push i` is how stacks are related that were related
by `i` before they got one more frame.
-/

namespace Lox

namespace Eval

variable {ι α β : Type} {R : ι → Stack → Stack → Prop} {push : ι → ι} {good : α → Prop}
  {good' : β → Prop}

/-- In scopes that see related stacks the computation has the same outcome, which is good if it is a
result, and then the scopes see related stacks again. -/
def Lockstep (R : ι → Stack → Stack → Prop) (good : α → Prop) (x : ScopeId → Eval α) : Prop :=
  ∀ i m m' scope scope', scope < m.scopes.size → scope' < m'.scopes.size →
    R i (m.stack scope) (m'.stack scope') →
      (x scope m).1 = (x scope' m').1 ∧
      (∀ a, (x scope m).1 = .ok a → good a) ∧
      R i ((x scope m).2.stack scope) ((x scope' m').2.stack scope') ∧
      m.Extends (x scope m).2 ∧ m'.Extends (x scope' m').2

theorem Lockstep.of_acts {x : ScopeId → Eval α} {g : Stack → Except Failure α × Stack}
    (hx : Acts x g)
    (hg : ∀ i st st', R i st st' →
      (g st).1 = (g st').1 ∧ (∀ a, (g st).1 = .ok a → good a) ∧ R i (g st).2 (g st').2) :
    Lockstep R good x := by
  intro i m m' scope scope' hscope hscope' h
  obtain ⟨m₁, hends, hstack, hext⟩ := hx m scope hscope
  obtain ⟨m₁', hends', hstack', hext'⟩ := hx m' scope' hscope'
  obtain ⟨hout, hgood, hrelated⟩ := hg i _ _ h
  rw [hends, hends']
  refine ⟨congrArg (Except.mapError Stop.failed) hout, fun a ha => hgood a ?_, ?_, hext, hext'⟩
  · cases hr : (g (m.stack scope)).1 with
    | ok b =>
      rw [hr] at ha
      exact congrArg Except.ok (Except.ok.inj ha)
    | error e =>
      rw [hr] at ha
      cases ha
  · rwa [← hstack, ← hstack'] at hrelated

theorem Lockstep.of_eq {x : ScopeId → Eval α} {r : Except Stop α}
    (h : ∀ scope m, x scope m = (r, m)) (hr : ∀ a, r = .ok a → good a) : Lockstep R good x := by
  intro i m m' scope scope' _ _ hrelated
  rw [h, h]
  exact ⟨rfl, hr, hrelated, .refl m, .refl m'⟩

theorem Lockstep.bind {x : ScopeId → Eval α} {f : α → ScopeId → Eval β} (hx : Lockstep R good x)
    (hf : ∀ a, good a → Lockstep R good' (f a)) :
    Lockstep R good' fun scope => x scope >>= fun a => f a scope := by
  intro i m m' scope scope' hscope hscope' h
  obtain ⟨hout, hgood, hrelated, hext, hext'⟩ := hx i m m' scope scope' hscope hscope' h
  have hbind : ∀ c m₀, (x c >>= fun a => f a c) m₀ = andThen (x c) (fun a => f a c) m₀ :=
    fun _ _ => rfl
  simp only [hbind, andThen]
  cases hr : x scope m with
  | mk r m₁ =>
    cases hr' : x scope' m' with
    | mk r' m₁' =>
      rw [hr] at hout hgood hrelated hext
      rw [hr'] at hout hrelated hext'
      obtain rfl : r = r' := hout
      cases r with
      | error stop =>
        refine ⟨rfl, fun a ha => ?_, hrelated, hext, hext'⟩
        cases ha
      | ok a =>
        obtain ⟨hout₂, hgood₂, hrelated₂, hext₂, hext₂'⟩ := hf a (hgood a rfl) i m₁ m₁' scope scope'
          (Nat.lt_of_lt_of_le hscope hext.size_le) (Nat.lt_of_lt_of_le hscope' hext'.size_le)
          hrelated
        exact ⟨hout₂, hgood₂, hrelated₂, hext.trans hext₂, hext'.trans hext₂'⟩

/-- What is done in a new scope starts on related stacks with an empty frame on top. -/
theorem Lockstep.extend {body : ScopeId → Eval α} (hbody : Lockstep R good body)
    (hpush : ∀ i st st', R i st st' → R (push i) (st.push Frame.empty) (st'.push Frame.empty))
    (hpop : ∀ i st st', R (push i) st st' → R i st.pop st'.pop) :
    Lockstep R good fun scope => extend scope >>= body := by
  intro i m m' scope scope' hscope hscope' h
  obtain ⟨hext₁, hstack₁, hdrop⟩ := stack_extend hscope
  obtain ⟨hext₁', hstack₁', hdrop'⟩ := stack_extend hscope'
  have hpushed := hpush i _ _ h
  rw [← hstack₁, ← hstack₁'] at hpushed
  obtain ⟨hout, hgood, hrelated, hext, hext'⟩ := hbody (push i) _ _ m.scopes.size m'.scopes.size
    (m.scopes.size_lt_size_add _) (m'.scopes.size_lt_size_add _) hpushed
  refine ⟨hout, hgood, ?_, hext₁.trans hext, hext₁'.trans hext'⟩
  have hdropped := hpop i _ _ hrelated
  rwa [← hdrop _ hext, ← hdrop' _ hext'] at hdropped

end Eval

end Lox

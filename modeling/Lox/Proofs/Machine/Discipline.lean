import Lox.Proofs.Machine.Induction
import Lox.Proofs.Scope.Chain

/-!
# What evaluation leaves alone

A statement that runs in a scope changes little of the store.  Scopes keep their parents.  Off the
chain of the scope nothing changes, and on it no scope but the innermost one gets a new name.  That
one gets only the names that the statement itself declares.  Further out a value changes only where
a name was bound nearest before.

`Scopes.Keeps` says this of two stores.  It is transitive, a declaration and an assignment have it,
and so does what happens in a new scope, as seen from the scope around it.  So the whole evaluator
has it, however it ends (`Eval.keeps_scopes`).
-/

namespace Lox

namespace Scopes

variable {α : Type} {s s₁ s₂ : Scopes α} {id : ScopeId} {names : List String}

/-- Between `s` and `s'` only what a computation in the scope `id` may change has changed, where
`names` are the names that it may bind there. -/
structure Keeps (id : ScopeId) (names : List String) (s s' : Scopes α) : Prop where
  size_le : s.size ≤ s'.size
  parent_eq : ∀ i < s.size, s'.parent? i = s.parent? i
  /-- No scope but `id` gets or loses a name. -/
  has_eq : ∀ i < s.size, i ≠ id → ∀ x, s'.has i x = s.has i x
  /-- A scope that is not on the chain of `id` stays as it is. -/
  getElem?_eq : ∀ i < s.size, i ∉ s.chain id → s'.scopes[i]? = s.scopes[i]?
  has_mono : ∀ x, s.has id x = true → s'.has id x = true
  declared : ∀ x, s'.has id x = true → s.has id x = true ∨ x ∈ names
  /-- Further out only the nearest binding of a name may have another value. -/
  owner_of_ne : ∀ i ∈ s.chain id, i ≠ id → ∀ x,
    (s'.bindings i).find? x ≠ (s.bindings i).find? x → s.owner? id x = some i

theorem Keeps.refl (s : Scopes α) (id : ScopeId) (names : List String) : Keeps id names s s where
  size_le := Nat.le_refl _
  parent_eq _ _ := rfl
  has_eq _ _ _ _ := rfl
  getElem?_eq _ _ _ := rfl
  has_mono _ h := h
  declared _ h := .inl h
  owner_of_ne _ _ _ _ h := absurd rfl h

theorem Keeps.mono {names' : List String} (h : Keeps id names s s₁) (hnames : names ⊆ names') :
    Keeps id names' s s₁ :=
  { h with declared := fun x hx => (h.declared x hx).imp_right fun hmem => hnames hmem }

theorem Keeps.chain_eq (h : Keeps id names s s₁) (hid : id < s.size) :
    s₁.chain id = s.chain id :=
  chain_congr s s₁ fun i hi => h.parent_eq i (Nat.lt_of_le_of_lt hi hid)

/-- A binding further out that is the nearest one afterwards was the nearest one before. -/
theorem Keeps.owner?_eq (h : Keeps id names s s₁) (hid : id < s.size) {x : String} {i : ScopeId}
    (hi : i ≠ id) (howner : s₁.owner? id x = some i) : s.owner? id x = some i := by
  -- The innermost scope does not bind the name afterwards, so it did not before.
  have hnot : s₁.has id x = false := by
    refine Bool.eq_false_iff.mpr fun hhas => hi ?_
    exact Option.some.inj (howner.symm.trans (s₁.owner?_self hhas))
  have hbefore : s.has id x = false :=
    Bool.eq_false_iff.mpr fun hhas => Bool.false_ne_true (hnot.symm.trans (h.has_mono x hhas))
  rw [← howner]
  refine (owner?_congr (h.chain_eq hid) fun j hj => ?_).symm
  by_cases hne : j = id
  · rw [hne, hnot, hbefore]
  · exact h.has_eq j (Nat.lt_of_le_of_lt (s.le_of_mem_chain hj) hid) hne x

theorem Keeps.trans (h : Keeps id names s s₁) (h₁ : Keeps id names s₁ s₂) (hid : id < s.size) :
    Keeps id names s s₂ where
  size_le := Nat.le_trans h.size_le h₁.size_le
  parent_eq i hi :=
    (h₁.parent_eq i (Nat.lt_of_lt_of_le hi h.size_le)).trans (h.parent_eq i hi)
  has_eq i hi hne x :=
    (h₁.has_eq i (Nat.lt_of_lt_of_le hi h.size_le) hne x).trans (h.has_eq i hi hne x)
  getElem?_eq i hi hnot := by
    have hnot₁ : i ∉ s₁.chain id := by rwa [h.chain_eq hid]
    exact (h₁.getElem?_eq i (Nat.lt_of_lt_of_le hi h.size_le) hnot₁).trans
      (h.getElem?_eq i hi hnot)
  has_mono x hx := h₁.has_mono x (h.has_mono x hx)
  declared x hx := (h₁.declared x hx).elim (h.declared x) .inr
  owner_of_ne i hi hne x hx := by
    by_cases hsame : (s₁.bindings i).find? x = (s.bindings i).find? x
    · refine h.owner?_eq hid hne (h₁.owner_of_ne i ?_ hne x ?_)
      · rwa [h.chain_eq hid]
      · rwa [hsame]
    · exact h.owner_of_ne i hi hne x hsame

/-! ## Declarations and assignments -/

/-- A declaration. -/
theorem keeps_define (s : Scopes α) {id : ScopeId} (hid : id < s.size) (x : String) (v : α) :
    Keeps id [x] s (s.define id x v) where
  size_le := Nat.le_of_eq (s.size_define id x v).symm
  parent_eq i _ := s.parent?_define id x v i
  has_eq i _ hne y := by
    rw [s.has_define hid, decide_eq_false hne, Bool.false_and, Bool.or_false]
  getElem?_eq i _ hnot := by
    refine s.getElem?_define_of_ne (fun heq => hnot ?_) x v
    obtain ⟨rest, hrest, -⟩ := s.chain_eq_cons id
    rw [hrest, heq]
    exact List.mem_cons_self ..
  has_mono y hy := by rw [s.has_define hid, hy, Bool.true_or]
  declared y hy := by
    rw [s.has_define hid, Bool.or_eq_true] at hy
    refine hy.imp_right fun hy => List.mem_singleton.mpr ?_
    exact of_decide_eq_true (Bool.and_eq_true_iff.mp hy).2
  owner_of_ne i _ hne y hy := by
    exact absurd (congrArg _ (bindings_congr (s.getElem?_define_of_ne hne x v))) hy

/-- An assignment. -/
theorem keeps_assign (s : Scopes α) {id owner : ScopeId} {x : String}
    (howner : s.owner? id x = some owner) (v : α) : Keeps id [] s (s.define owner x v) := by
  have hfind := howner
  rw [owner?_eq_find?] at hfind
  have hmem : owner ∈ s.chain id := List.mem_of_find?_eq_some hfind
  have hhas := s.has_of_owner? howner
  have hlt := s.lt_size_of_has hhas
  have hsame := s.has_define_of_has hhas v
  exact {
    size_le := Nat.le_of_eq (s.size_define owner x v).symm
    parent_eq i _ := s.parent?_define owner x v i
    has_eq i _ _ y := hsame i y
    getElem?_eq i _ hnot := by
      refine s.getElem?_define_of_ne ?_ x v
      rintro rfl
      exact hnot hmem
    has_mono y hy := (hsame id y).trans hy
    declared y hy := .inl ((hsame id y).symm.trans hy)
    owner_of_ne i _ _ y hy := by
      by_cases hi : i = owner
      · subst hi
        have hframe := congrFun (s.frame_define hlt x v i) y
        rw [if_pos rfl, Frame.set] at hframe
        by_cases hyx : y = x
        · rw [hyx, howner]
        · rw [if_neg hyx] at hframe
          exact absurd hframe hy
      · exact absurd (congrArg _ (bindings_congr (s.getElem?_define_of_ne hi x v))) hy }

/-! ## New scopes -/

/-- What happens in a new scope, seen from the scope around it. -/
theorem Keeps.of_add (hid : id < s.size)
    (h : Keeps s.size names (s.add (some id)) s₁) : Keeps id [] s s₁ := by
  have hsize : ∀ i < s.size, i < (s.add (some id)).size := fun i hi =>
    Nat.lt_trans hi (s.size_lt_size_add (some id))
  have hne : ∀ i < s.size, i ≠ s.size := fun i hi => Nat.ne_of_lt hi
  have hhas : ∀ i < s.size, ∀ x, s₁.has i x = s.has i x := fun i hi x =>
    (h.has_eq i (hsize i hi) (hne i hi) x).trans (s.has_add (some id) hi x)
  exact {
    size_le := Nat.le_trans (Nat.le_of_lt (s.size_lt_size_add (some id))) h.size_le
    parent_eq i hi := (h.parent_eq i (hsize i hi)).trans (s.parent?_add (some id) hi)
    has_eq i hi _ x := hhas i hi x
    getElem?_eq i hi hnot := by
      refine (h.getElem?_eq i (hsize i hi) ?_).trans (s.getElem?_add (some id) hi)
      rw [s.chain_add hid]
      exact List.not_mem_cons_of_ne_of_not_mem (hne i hi) hnot
    has_mono x hx := (hhas id hid x).trans hx
    declared x hx := .inl ((hhas id hid x).symm.trans hx)
    owner_of_ne i hi _ x hx := by
      have hlt : i < s.size := Nat.lt_of_le_of_lt (s.le_of_mem_chain hi) hid
      rw [← s.owner?_add hid]
      refine h.owner_of_ne i ?_ (hne i hlt) x ?_
      · rw [s.chain_add hid]
        exact List.mem_cons_of_mem _ hi
      · rwa [bindings_congr (s.getElem?_add (some id) hlt)] }

end Scopes

namespace Eval

open Scopes (Keeps)

variable {α β : Type} {names : List String}

/-! ## The evaluator -/

/-- In its scope the computation changes only what it may change, however it ends. -/
def Disciplined (names : List String) (x : ScopeId → Eval α) : Prop :=
  ∀ scope m, scope < m.scopes.size → Keeps scope names m.scopes (x scope m).2.scopes

theorem Disciplined.bind {x : ScopeId → Eval α} {f : α → ScopeId → Eval β}
    (hx : Disciplined names x) (hf : ∀ a, Disciplined names (f a)) :
    Disciplined names fun scope => x scope >>= fun a => f a scope := by
  intro scope m hscope
  have h₁ := hx scope m hscope
  show Keeps scope names m.scopes (andThen (x scope) (fun a => f a scope) m).2.scopes
  unfold andThen
  cases hr : x scope m with
  | mk r m₁ =>
    rw [hr] at h₁
    cases r with
    | ok a => exact h₁.trans (hf a scope m₁ (Nat.lt_of_lt_of_le hscope h₁.size_le)) hscope
    | error stop => exact h₁

/-- What is done in a new scope binds no names outside it. -/
theorem Disciplined.extend {body : ScopeId → Eval α} (hbody : Disciplined names body) :
    Disciplined [] fun scope => extend scope >>= body := by
  intro scope m hscope
  have hkeeps := hbody m.scopes.size { m with scopes := m.scopes.add (some scope) }
    (m.scopes.size_lt_size_add (some scope))
  exact .of_add hscope hkeeps

/-- A computation that leaves the scopes alone. -/
theorem disciplined_of_eq {x : ScopeId → Eval α} (h : ∀ scope m, (x scope m).2.scopes = m.scopes) :
    Disciplined names x := by
  intro scope m _
  rw [h]
  exact .refl m.scopes scope names

theorem disciplined_assign (line : Int) (x : String) (v : Value) :
    Disciplined [] fun scope => assign line scope x v := by
  intro scope m _
  show Keeps scope [] m.scopes (assign line scope x v m).2.scopes
  unfold assign
  cases howner : m.scopes.owner? scope x with
  | none => exact .refl m.scopes scope []
  | some owner => exact m.scopes.keeps_assign howner v

theorem disciplined_write (refused : String → Failure) (s : String) :
    Disciplined [] fun _ => write refused s := by
  refine disciplined_of_eq fun _ m => ?_
  unfold write
  split <;> rfl

theorem inductive_disciplined : Inductive fun _ names x => Disciplined names x where
  mono h hnames scope m hscope := (h scope m hscope).mono hnames
  bind := Disciplined.bind
  extend := Disciplined.extend
  pure _ := disciplined_of_eq fun _ _ => rfl
  stop _ := disciplined_of_eq fun _ _ => rfl
  lookup _ := disciplined_of_eq fun _ _ => rfl
  define x v := fun _ m hscope => m.scopes.keeps_define hscope x v
  assign := disciplined_assign
  newFunction _ _ _ := disciplined_of_eq fun _ _ => rfl
  write := disciplined_write
  noteCall _ := disciplined_of_eq fun _ _ => rfl

/-- However a statement or an expression ends in a scope, the scopes keep their parents, those off
the chain of the scope stay as they are, no other scope than this one gets or loses a name, this one
gets only names that the statement declares, and further out only the nearest binding of a name may
have another value. -/
theorem keeps_scopes (m : Machine) (scope : ScopeId) (hscope : scope < m.scopes.size)
    (fuel : Nat) :
    (∀ s, Keeps scope s.declares m.scopes (statement fuel scope s m).2.scopes) ∧
    (∀ e, Keeps scope [] m.scopes (expression fuel scope e m).2.scopes) :=
  ⟨fun s => (inductive_disciplined.evaluated fuel).statement s scope m hscope,
    fun e => (inductive_disciplined.evaluated fuel).expression e scope m hscope⟩

/-- A function that assigns to a name of the outermost scope, called from a declaration further
in: one binding changes there, which was the nearest one, and one name is new here. -/
theorem keeps_scopes_call :
    let f : Function := ⟨0, "f", [], [.expression 1 (.assign 1 "a" (.bool 1 true))]⟩
    let outer := ((Scopes.empty.add none).define 0 "a" .nil).define 0 "f" (.function f)
    let m : Machine := ⟨outer.add (some 0), ⟨"", none⟩, [], 1⟩
    let s : Stmt := .declare 1 "b" (some (.call 1 "f" []))
    let m' := (statement 9 1 s m).2
    1 < m.scopes.size ∧ Keeps 1 ["b"] m.scopes m'.scopes ∧
      (m'.scopes.get? 1 "a").map Value.text = some "true" ∧ m'.scopes.has 1 "b" = true := by
  intro f outer m s m'
  have hscope : 1 < m.scopes.size := by decide
  exact ⟨hscope, (keeps_scopes m 1 hscope 9).1 s, by decide +kernel, by decide +kernel⟩

end Eval

end Lox

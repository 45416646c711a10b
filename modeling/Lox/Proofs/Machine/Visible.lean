import Lox.Proofs.Machine.Induction
import Lox.Proofs.Machine.Lockstep

/-!
# Only what is visible matters

Two scopes may see the same names with the same values although their chains differ in depth, in
the scopes that hold the bindings and in bindings that are hidden.  A program cannot tell them
apart: evaluated in either scope, it does the same and leaves the two scopes seeing the same
(`Eval.same_visible`).

Blocks and calls put frames on top and drop them again, so it is not enough to compare what is seen
from the innermost frame: below the dropped ones the same has to be seen too.  `Frame.Alike n` says
that the `n` frames on top are the same and that what is seen below them is.  Two runs keep it for
every `n`, because a name is defined in the same frame of both, or in the first frame below the
common ones, where no other name is affected.
-/

namespace Lox

/-! ## Frames -/

namespace Frame

variable {α : Type} {n : Nat} {fs gs : List (Frame α)}

/-- The first `n` frames are the same, and behind them the same is seen. -/
def Alike : Nat → List (Frame α) → List (Frame α) → Prop
  | 0, fs, gs => fs ≠ [] ∧ gs ≠ [] ∧ ∀ x, lookup x fs = lookup x gs
  | n + 1, fs, gs => ∃ f fs' gs', fs = f :: fs' ∧ gs = f :: gs' ∧ Alike n fs' gs'

theorem lookup_cons (x : String) (f : Frame α) (fs : List (Frame α)) :
    lookup x (f :: fs) = (f x).or (lookup x fs) := by
  rw [lookup, List.findSome?_cons]
  cases f x <;> rfl

theorem lookup_set_cons (x y : String) (v : α) (f : Frame α) (fs : List (Frame α)) :
    lookup y (f.set x v :: fs) = if y = x then some v else lookup y (f :: fs) := by
  rw [lookup_cons, lookup_cons, set]
  split <;> rfl

/-- An assignment fails exactly if the name is not bound. -/
theorem assign?_eq_none_iff {x : String} {v : α} :
    assign? x v fs = none ↔ lookup x fs = none := by
  induction fs with
  | nil => exact iff_of_true rfl rfl
  | cons f fs ih =>
    rw [assign?, lookup_cons]
    cases f x with
    | none =>
      rw [Option.isSome_none, if_neg Bool.false_ne_true, Option.map_eq_none_iff, ih, Option.none_or]
    | some w => exact iff_of_false (by simp) (by simp)

/-- After an assignment the name has the new value, and all others have the same. -/
theorem lookup_assign? {x : String} {v : α} {fs' : List (Frame α)} (h : assign? x v fs = some fs')
    (y : String) : lookup y fs' = if y = x then some v else lookup y fs := by
  induction fs generalizing fs' with
  | nil => cases h
  | cons f fs ih =>
    rw [assign?] at h
    cases hf : f x with
    | some w =>
      rw [hf, Option.isSome_some, if_pos rfl] at h
      obtain rfl := Option.some.inj h
      exact lookup_set_cons x y v f fs
    | none =>
      rw [hf, Option.isSome_none, if_neg Bool.false_ne_true] at h
      obtain ⟨gs, hgs, rfl⟩ := Option.map_eq_some_iff.mp h
      rw [lookup_cons, lookup_cons, ih hgs]
      by_cases hy : y = x
      · rw [if_pos hy, if_pos hy, hy, hf, Option.none_or]
      · rw [if_neg hy, if_neg hy]

theorem ne_nil_of_assign? {x : String} {v : α} {fs' : List (Frame α)}
    (h : assign? x v fs = some fs') : fs' ≠ [] := by
  rintro rfl
  cases fs with
  | nil => cases h
  | cons f fs =>
    rw [assign?] at h
    split at h
    · cases h
    · obtain ⟨_, _, hcons⟩ := Option.map_eq_some_iff.mp h
      cases hcons

theorem Alike.lookup_eq (h : Alike n fs gs) (x : String) : lookup x fs = lookup x gs := by
  induction n generalizing fs gs with
  | zero => exact h.2.2 x
  | succ n ih =>
    obtain ⟨f, fs', gs', rfl, rfl, h⟩ := h
    rw [lookup_cons, lookup_cons, ih h]

theorem Alike.define (h : Alike n fs gs) (x : String) (v : α) :
    Alike n (define x v fs) (define x v gs) := by
  cases n with
  | zero =>
    obtain ⟨hfs, hgs, hlookup⟩ := h
    obtain ⟨f, fs, rfl⟩ := List.exists_cons_of_ne_nil hfs
    obtain ⟨g, gs, rfl⟩ := List.exists_cons_of_ne_nil hgs
    refine ⟨List.cons_ne_nil _ _, List.cons_ne_nil _ _, fun y => ?_⟩
    rw [Frame.define, Frame.define, lookup_set_cons, lookup_set_cons, hlookup]
  | succ n =>
    obtain ⟨f, fs', gs', rfl, rfl, h⟩ := h
    exact ⟨f.set x v, fs', gs', rfl, rfl, h⟩

/-- An assignment fails on both or leaves both alike. -/
theorem Alike.assign (h : Alike n fs gs) (x : String) (v : α) :
    assign? x v fs = none ∧ assign? x v gs = none ∨
    ∃ fs' gs', assign? x v fs = some fs' ∧ assign? x v gs = some gs' ∧ Alike n fs' gs' := by
  induction n generalizing fs gs with
  | zero =>
    obtain ⟨-, -, hlookup⟩ := h
    cases hfs : assign? x v fs with
    | none =>
      rw [assign?_eq_none_iff, hlookup, ← assign?_eq_none_iff] at hfs
      exact .inl ⟨rfl, hfs⟩
    | some fs' =>
      cases hgs : assign? x v gs with
      | none =>
        rw [assign?_eq_none_iff, ← hlookup, ← assign?_eq_none_iff, hfs] at hgs
        cases hgs
      | some gs' =>
        refine .inr ⟨fs', gs', rfl, rfl, ne_nil_of_assign? hfs, ne_nil_of_assign? hgs, fun y => ?_⟩
        rw [lookup_assign? hfs, lookup_assign? hgs, hlookup]
  | succ n ih =>
    obtain ⟨f, fs, gs, rfl, rfl, h⟩ := h
    rw [assign?, assign?]
    cases f x with
    | some w => exact .inr ⟨_, _, rfl, rfl, f.set x v, fs, gs, rfl, rfl, h⟩
    | none =>
      obtain ⟨hfs, hgs⟩ | ⟨fs', gs', hfs, hgs, h'⟩ := ih h
      · exact .inl ⟨by rw [hfs]; rfl, by rw [hgs]; rfl⟩
      · rw [hfs, hgs]
        exact .inr ⟨f :: fs', f :: gs', rfl, rfl, f, fs', gs', rfl, rfl, h'⟩

end Frame

/-! ## Stacks -/

namespace Stack

variable {n : Nat} {st st' : Stack}

/-- Two stacks with alike frames and the same view of the outside. -/
structure Alike (n : Nat) (st st' : Stack) : Prop where
  frames : Frame.Alike n st.frames st'.frames
  output : st.output = st'.output
  hostCalls : st.hostCalls = st'.hostCalls
  functions : st.functions = st'.functions

theorem Alike.push (h : Alike n st st') (f : Frame Value) :
    Alike (n + 1) (st.push f) (st'.push f) :=
  { h with frames := ⟨f, st.frames, st'.frames, rfl, rfl, h.frames⟩ }

theorem Alike.pop (h : Alike (n + 1) st st') : Alike n st.pop st'.pop := by
  obtain ⟨f, fs, gs, hfs, hgs, hframes⟩ := h.frames
  refine { h with frames := ?_ }
  rw [Stack.pop, Stack.pop, hfs, hgs]
  exact hframes

/-- A function on stacks that does the same on alike ones. -/
def Respects {α : Type} (g : Stack → Except Failure α × Stack) : Prop :=
  ∀ n st st', Alike n st st' → (g st).1 = (g st').1 ∧ Alike n (g st).2 (g st').2

end Stack

namespace Eval

open Stack (Alike Respects)

variable {α β : Type}

/-! ## Two runs -/

/-- In scopes that see alike stacks the computation has the same outcome, and then they see alike
stacks again. -/
def Twins (x : ScopeId → Eval α) : Prop :=
  ∀ n m m' scope scope', scope < m.scopes.size → scope' < m'.scopes.size →
    Alike n (m.stack scope) (m'.stack scope') →
      (x scope m).1 = (x scope' m').1 ∧
      Alike n ((x scope m).2.stack scope) ((x scope' m').2.stack scope') ∧
      m.Extends (x scope m).2 ∧ m'.Extends (x scope' m').2

theorem twins_iff {x : ScopeId → Eval α} : Twins x ↔ Lockstep Alike (fun _ => True) x := by
  constructor
  · intro h n m m' scope scope' hscope hscope' halike
    obtain ⟨hout, hrest⟩ := h n m m' scope scope' hscope hscope' halike
    exact ⟨hout, fun _ _ => trivial, hrest⟩
  · intro h n m m' scope scope' hscope hscope' halike
    obtain ⟨hout, -, hrest⟩ := h n m m' scope scope' hscope hscope' halike
    exact ⟨hout, hrest⟩

theorem Twins.of_acts {x : ScopeId → Eval α} {g : Stack → Except Failure α × Stack}
    (hx : Acts x g) (hg : Respects g) : Twins x := by
  refine twins_iff.mpr (.of_acts hx fun n st st' h => ?_)
  obtain ⟨hout, halike⟩ := hg n st st' h
  exact ⟨hout, fun _ _ => trivial, halike⟩

theorem Twins.bind {x : ScopeId → Eval α} {f : α → ScopeId → Eval β} (hx : Twins x)
    (hf : ∀ a, Twins (f a)) : Twins fun scope => x scope >>= fun a => f a scope :=
  twins_iff.mpr ((twins_iff.mp hx).bind fun a _ => twins_iff.mp (hf a))

/-- What is done in a new scope starts on alike stacks with the same frame on top. -/
theorem Twins.extend {body : ScopeId → Eval α} (hbody : Twins body) :
    Twins fun scope => extend scope >>= body :=
  twins_iff.mpr ((twins_iff.mp hbody).extend (fun _ _ _ h => h.push Frame.empty)
    fun _ _ _ h => h.pop)

/-! ## The steps of the evaluator -/

theorem twins_of_eq {x : ScopeId → Eval α} {r : Except Stop α} (h : ∀ scope m, x scope m = (r, m)) :
    Twins x :=
  twins_iff.mpr (.of_eq h fun _ _ => trivial)

theorem twins_define (x : String) (v : Value) : Twins fun scope => define scope x v :=
  .of_acts (acts_define x v) fun _ _ _ h => ⟨rfl, { h with frames := h.frames.define x v }⟩

theorem twins_assign (line : Int) (x : String) (v : Value) :
    Twins fun scope => assign line scope x v := by
  refine .of_acts (acts_assign line x v) fun n st st' h => ?_
  obtain ⟨hst, hst'⟩ | ⟨fs, gs, hst, hst', hframes⟩ := h.frames.assign x v
  · simp only [hst, hst', true_and]
    exact h
  · simp only [hst, hst', true_and]
    exact { h with frames := hframes }

theorem twins_newFunction (name : String) (params : List String) (body : List Stmt) :
    Twins fun _ => newFunction name params body := by
  refine .of_acts (acts_newFunction name params body) fun n st st' h => ?_
  rw [h.functions]
  exact ⟨rfl, { h with functions := rfl }⟩

theorem twins_write (refused : String → Failure) (s : String) :
    Twins fun _ => write refused s := by
  refine .of_acts (acts_write refused s) fun n st st' h => ?_
  rw [h.output]
  split
  · exact ⟨rfl, { h with output := by rw [Stack.write, Stack.write, h.output] }⟩
  · exact ⟨rfl, h⟩

theorem inductive_twins : Inductive fun _ _ x => Twins x where
  mono h _ := h
  bind := Twins.bind
  extend := Twins.extend
  pure _ := twins_of_eq fun _ _ => rfl
  stop _ := twins_of_eq fun _ _ => rfl
  lookup x := .of_acts (acts_lookup x) fun _ _ _ h => ⟨congrArg Except.ok (h.frames.lookup_eq x), h⟩
  define := twins_define
  assign := twins_assign
  newFunction := twins_newFunction
  write := twins_write
  noteCall name := .of_acts (acts_noteCall name) fun _ _ _ h =>
    ⟨rfl, { h with hostCalls := congrArg (name :: ·) h.hostCalls }⟩

/-! ## Two scopes of one store -/

/-- Two scopes that see the same see alike stacks. -/
theorem alike_stack {m : Machine} {scope scope' : ScopeId}
    (hget : ∀ x, m.scopes.get? scope x = m.scopes.get? scope' x) :
    Alike 0 (m.stack scope) (m.stack scope') := by
  have hne : ∀ c, (m.stack c).frames ≠ [] := by
    intro c hnil
    obtain ⟨rest, hrest, -⟩ := m.scopes.chain_eq_cons c
    have hchain : m.scopes.chain c = [] := List.map_eq_nil_iff.mp hnil
    rw [hchain] at hrest
    cases hrest
  refine ⟨⟨hne scope, hne scope', fun x => ?_⟩, rfl, rfl, rfl⟩
  have hx := hget x
  rwa [Scopes.get?_eq_lookup, Scopes.get?_eq_lookup] at hx

/-- Two runs have the same outcome, the same output and the same calls of host functions, and what
`scope` sees after the first one is what `scope'` sees after the second one. -/
structure SameVisible (scope scope' : ScopeId) (r r' : Except Stop α × Machine) : Prop where
  outcome : r.1 = r'.1
  output : r.2.output = r'.2.output
  hostCalls : r.2.hostCalls = r'.2.hostCalls
  get?_eq : ∀ x, r.2.scopes.get? scope x = r'.2.scopes.get? scope' x

theorem Twins.sameVisible {x : ScopeId → Eval α} (hx : Twins x) {m : Machine}
    {scope scope' : ScopeId} (hscope : scope < m.scopes.size) (hscope' : scope' < m.scopes.size)
    (hget : ∀ y, m.scopes.get? scope y = m.scopes.get? scope' y) :
    SameVisible scope scope' (x scope m) (x scope' m) := by
  obtain ⟨hout, halike, -, -⟩ := hx 0 m m scope scope' hscope hscope' (alike_stack hget)
  refine ⟨hout, halike.output, halike.hostCalls, fun y => ?_⟩
  rw [Scopes.get?_eq_lookup, Scopes.get?_eq_lookup]
  exact halike.frames.lookup_eq y

/-- In two scopes that see the same, a statement and an expression do the same, and the scopes see
the same afterwards. -/
theorem same_visible (m : Machine) (scope scope' : ScopeId) (hscope : scope < m.scopes.size)
    (hscope' : scope' < m.scopes.size)
    (hget : ∀ x, m.scopes.get? scope x = m.scopes.get? scope' x) (fuel : Nat) :
    (∀ s, SameVisible scope scope' (statement fuel scope s m) (statement fuel scope' s m)) ∧
    (∀ e, SameVisible scope scope' (expression fuel scope e m) (expression fuel scope' e m)) :=
  ⟨fun s => ((inductive_twins.evaluated fuel).statement s).sameVisible hscope hscope' hget,
    fun e => ((inductive_twins.evaluated fuel).expression e).sameVisible hscope hscope' hget⟩

/-- It makes no difference whether `a` is bound in the scope itself or in the one around it. -/
theorem same_visible_around :
    let near := ((Scopes.empty.add none).define 0 "a" .nil).add (some 0)
    let inner := (near.define 1 "a" (.bool true)).add (some 1)
    let m : Machine := ⟨(inner.add (some 0)).define 3 "a" (.bool true), ⟨"", none⟩, [], 0⟩
    let s : Stmt := .block 1 [.expression 1 (.assign 1 "a" (.bool 1 false)),
      .print 1 (.name 1 "a")]
    2 < m.scopes.size ∧ 3 < m.scopes.size ∧
    (∀ x, m.scopes.get? 2 x = m.scopes.get? 3 x) ∧
    SameVisible 2 3 (statement 9 2 s m) (statement 9 3 s m) := by
  intro near inner m s
  have hframes₂ : m.scopes.frames 2 =
      [fun x => Bindings.find? x [], fun x => Bindings.find? x [("a", .bool true)],
        fun x => Bindings.find? x [("a", .nil)]] := rfl
  have hframes₃ : m.scopes.frames 3 =
      [fun x => Bindings.find? x [("a", .bool true)],
        fun x => Bindings.find? x [("a", .nil)]] := rfl
  have hget : ∀ x, m.scopes.get? 2 x = m.scopes.get? 3 x := by
    intro x
    rw [Scopes.get?_eq_lookup, Scopes.get?_eq_lookup, hframes₂, hframes₃]
    rfl
  have hscope₂ : 2 < m.scopes.size := by decide
  have hscope₃ : 3 < m.scopes.size := by decide
  exact ⟨hscope₂, hscope₃, hget, (same_visible m 2 3 hscope₂ hscope₃ hget 9).1 s⟩

end Eval

end Lox

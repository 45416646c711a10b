import Lox.Proofs.Erasure.Tree
import Lox.Proofs.Lines.Machine
import Lox.Proofs.Machine.Stack

/-!
# Values and stacks up to lines and groups

Functions carry their bodies, so values, frames and stacks have lines and groups in them too.  What
is done to values and stacks does not depend on them: from what is equal up to erasing come outcomes
that are alike (`Failure.Alike`) and stacks that are equal up to erasing again.
-/

namespace Lox

/-- A value without the lines and groups in the body of a function. -/
def Value.erase : Value → Value := Value.mapBody Stmt.eraseAll

/-- A flow without the lines and groups in its value. -/
def Flow.erase : Flow → Flow
  | .next v => .next v.erase
  | .giveBack v => .giveBack v.erase

/-- A failure without its line. -/
def Failure.bare : Failure → Failure := Failure.renumber fun _ => 0

/-- Two outcomes are results that `g` makes equal, or failures that are equal but for lines. -/
inductive Failure.Alike {α β : Type} (g : α → β) : Except Failure α → Except Failure α → Prop
  | ok {a b : α} (h : g a = g b) : Alike g (.ok a) (.ok b)
  | error {f f' : Failure} (h : f.bare = f'.bare) : Alike g (.error f) (.error f')

theorem Failure.alike_of_eq {α β : Type} {g : α → β} {o o' : Except Failure α}
    (h : Failure.renumberOutcome (fun _ => 0) g o = Failure.renumberOutcome (fun _ => 0) g o') :
    Failure.Alike g o o' := by
  cases o <;> cases o' <;> simp only [renumberOutcome, reduceCtorEq, Except.ok.injEq,
    Except.error.injEq] at h
  · exact .error h
  · exact .ok h

/-! ## Values -/

namespace Value

variable {v v' w w' : Value}

theorem kind_eq (h : v.erase = v'.erase) : v.kind = v'.kind := by
  rw [← kind_mapBody Stmt.eraseAll v, ← kind_mapBody Stmt.eraseAll v']
  exact congrArg kind h

theorem text_eq (h : v.erase = v'.erase) : v.text = v'.text := by
  rw [← text_mapBody Stmt.eraseAll v, ← text_mapBody Stmt.eraseAll v']
  exact congrArg text h

theorem HasKind.alike {k : Kind} (hk : v.HasKind k) (h : v.erase = v'.erase) : v'.HasKind k := by
  rw [hasKind_iff] at hk ⊢
  rw [← hk, kind_eq h]

theorem Shown.alike {s : String} (hs : v.Shown s) (h : v.erase = v'.erase) : v'.Shown s := by
  rw [shown_iff] at hs ⊢
  rw [← hs, text_eq h]

theorem isNil_eq (h : v.erase = v'.erase) : v.isNil = v'.isNil := by
  rw [← isNil_mapBody Stmt.eraseAll v, ← isNil_mapBody Stmt.eraseAll v']
  exact congrArg isNil h

theorem arity?_eq (h : v.erase = v'.erase) : v.arity? = v'.arity? := by
  rw [← arity?_mapBody Stmt.eraseAll v, ← arity?_mapBody Stmt.eraseAll v']
  exact congrArg arity? h

theorem takes_eq (h : v.erase = v'.erase) (n : Nat) : v.Takes n ↔ v'.Takes n := by
  rw [takes_iff, takes_iff, arity?_eq h]

theorem eq_bool {b : Bool} (h : (bool b).erase = v.erase) : v = bool b := by
  cases v with
  | bool c => exact h.symm
  | _ => simp only [erase, mapBody, reduceCtorEq] at h

theorem eq_native {n : Native} (h : (native n).erase = v.erase) : v = native n := by
  cases v with
  | native m => exact h.symm
  | _ => simp only [erase, mapBody, reduceCtorEq] at h

theorem exists_function {g : Function} (h : (function g).erase = v.erase) :
    ∃ g', v = function g' ∧ g.params = g'.params ∧
      Stmt.eraseAll g.body = Stmt.eraseAll g'.body := by
  cases v with
  | function g' =>
    obtain ⟨-, -, hparams, hbody⟩ := Function.mk.inj (Value.function.inj h)
    exact ⟨g', rfl, hparams, hbody⟩
  | _ => simp only [erase, mapBody, reduceCtorEq] at h

theorem erase_function {id id' : Nat} {name : String} {params : List String}
    {body body' : List Stmt} (hid : id = id') (hbody : Stmt.eraseAll body = Stmt.eraseAll body') :
    (function ⟨id, name, params, body⟩).erase = (function ⟨id', name, params, body'⟩).erase := by
  simp only [erase, mapBody, hid, hbody]

theorem length_eq {vs vs' : List Value} (h : vs.map erase = vs'.map erase) :
    vs.length = vs'.length := by
  rw [← List.length_map erase, h, List.length_map]

end Value

namespace Flow

theorem exists_next {v : Value} {flow : Flow} (h : (next v).erase = flow.erase) :
    ∃ w, flow = next w := by
  cases flow with
  | next w => exact ⟨w, rfl⟩
  | giveBack w => simp only [erase, reduceCtorEq] at h

theorem exists_giveBack {v : Value} {flow : Flow} (h : (giveBack v).erase = flow.erase) :
    ∃ w, flow = giveBack w := by
  cases flow with
  | next w => simp only [erase, reduceCtorEq] at h
  | giveBack w => exact ⟨w, rfl⟩

end Flow

section Operators

variable {v v' w w' : Value} {l : Int} {out : Except Failure Value}

theorem UnaryOp.Means.alike {op : UnaryOp} (hop : op.Means l v out) (h : v.erase = v'.erase)
    (l' : Int) : ∃ out', op.Means l' v' out' ∧ Failure.Alike Value.erase out out' := by
  obtain rfl := means_iff.mp hop
  refine ⟨_, means_iff.mpr rfl, Failure.alike_of_eq ?_⟩
  rw [Value.erase] at h ⊢
  rw [← op.evaluate_mapBody, ← op.evaluate_mapBody, h]

theorem BinaryOp.Means.alike {op : BinaryOp} (hop : op.Means l v w out) (hv : v.erase = v'.erase)
    (hw : w.erase = w'.erase) (l' : Int) :
    ∃ out', op.Means l' v' w' out' ∧ Failure.Alike Value.erase out out' := by
  obtain rfl := means_iff.mp hop
  refine ⟨_, means_iff.mpr rfl, Failure.alike_of_eq ?_⟩
  rw [Value.erase] at hv hw ⊢
  rw [← op.evaluate_mapBody, ← op.evaluate_mapBody, hv, hw]

theorem LogicalOp.Means.alike {op : LogicalOp} (hop : op.Means l v w out)
    (hv : v.erase = v'.erase) (hw : w.erase = w'.erase) (l' : Int) :
    ∃ out', op.Means l' v' w' out' ∧ Failure.Alike Value.erase out out' := by
  obtain rfl := means_iff.mp hop
  refine ⟨_, means_iff.mpr rfl, Failure.alike_of_eq ?_⟩
  rw [Value.erase] at hv hw ⊢
  rw [← op.evaluate_mapBody, ← op.evaluate_mapBody, hv, hw]

end Operators

/-! ## Frames -/

namespace Frame

/-- A frame without the lines and groups in its functions. -/
def erase (f : Frame Value) : Frame Value := fun x => (f x).map Value.erase

theorem erase_set (f : Frame Value) (x : String) (v : Value) :
    (f.set x v).erase = f.erase.set x v.erase := by
  funext y
  simp only [erase, set]
  split <;> rfl

theorem erase_ofList (bindings : List (String × Value)) :
    (ofList bindings).erase = ofList (bindings.map fun b => (b.1, b.2.erase)) := by
  have key : ∀ f : Frame Value, (bindings.foldl (fun f b => f.set b.1 b.2) f).erase =
      (bindings.map fun b => (b.1, b.2.erase)).foldl (fun f b => f.set b.1 b.2) f.erase := by
    induction bindings with
    | nil => exact fun _ => rfl
    | cons b rest ih =>
      intro f
      rw [List.foldl_cons, List.map_cons, List.foldl_cons, ih, erase_set]
  exact key empty

/-- The frame of a call depends on the arguments up to erasing. -/
theorem erase_ofList_zip {xs xs' : List String} (hxs : xs = xs') {vs vs' : List Value}
    (h : vs.map Value.erase = vs'.map Value.erase) :
    (ofList (xs.zip vs)).erase = (ofList (xs'.zip vs')).erase := by
  subst hxs
  have hzip : ∀ vs : List Value,
      (xs.zip vs).map (fun b => (b.1, b.2.erase)) = xs.zip (vs.map Value.erase) := by
    intro vs
    rw [List.zip_map_right]
    rfl
  rw [erase_ofList, erase_ofList, hzip, hzip, h]

theorem lookup_erase (x : String) (fs : List (Frame Value)) :
    lookup x (fs.map erase) = (lookup x fs).map Value.erase := by
  induction fs with
  | nil => rfl
  | cons f fs ih =>
    rw [lookup, List.map_cons, List.findSome?_cons, lookup, List.findSome?_cons, erase]
    cases f x with
    | some v => rfl
    | none => exact ih

theorem define_erase (x : String) (v : Value) (fs : List (Frame Value)) :
    (define x v fs).map erase = define x v.erase (fs.map erase) := by
  cases fs with
  | nil => rfl
  | cons f fs => rw [define, List.map_cons, erase_set, List.map_cons, define]

theorem assign?_erase (x : String) (v : Value) (fs : List (Frame Value)) :
    assign? x v.erase (fs.map erase) = (assign? x v fs).map (List.map erase) := by
  induction fs with
  | nil => rfl
  | cons f fs ih =>
    have hsome : (f.erase x).isSome = (f x).isSome := Option.isSome_map
    rw [List.map_cons, assign?, assign?, hsome]
    split
    · rw [Option.map_some, List.map_cons, erase_set]
    · rw [ih, Option.map_map, Option.map_map]
      rfl

end Frame

/-! ## Stacks -/

namespace Stack

/-- A stack without the lines and groups in its functions. -/
def erase (st : Stack) : Stack := { st with frames := st.frames.map Frame.erase }

variable {st st' : Stack}

theorem frames_eq (h : st.erase = st'.erase) :
    st.frames.map Frame.erase = st'.frames.map Frame.erase :=
  (Stack.mk.inj h).1

theorem output_eq (h : st.erase = st'.erase) : st.output = st'.output :=
  (Stack.mk.inj h).2.1

theorem hostCalls_eq (h : st.erase = st'.erase) : st.hostCalls = st'.hostCalls :=
  (Stack.mk.inj h).2.2.1

theorem functions_eq (h : st.erase = st'.erase) : st.functions = st'.functions :=
  (Stack.mk.inj h).2.2.2

/-- Stacks with other frames that are equal up to erasing. -/
theorem withFrames_eq (h : st.erase = st'.erase) {fs fs' : List (Frame Value)}
    (hfs : fs.map Frame.erase = fs'.map Frame.erase) :
    ({ st with frames := fs } : Stack).erase = ({ st' with frames := fs' } : Stack).erase := by
  simp only [erase, hfs, output_eq h, hostCalls_eq h, functions_eq h]

theorem lookup_eq_none (h : st.erase = st'.erase) {x : String} (hx : st.lookup x = none) :
    st'.lookup x = none := by
  have hlookup := congrArg (Frame.lookup x) (frames_eq h)
  rw [Frame.lookup_erase, Frame.lookup_erase] at hlookup
  rw [lookup] at hx ⊢
  rw [hx] at hlookup
  exact Option.map_eq_none_iff.mp hlookup.symm

theorem lookup_eq_some (h : st.erase = st'.erase) {x : String} {v : Value}
    (hx : st.lookup x = some v) : ∃ v', st'.lookup x = some v' ∧ v.erase = v'.erase := by
  have hlookup := congrArg (Frame.lookup x) (frames_eq h)
  rw [Frame.lookup_erase, Frame.lookup_erase] at hlookup
  rw [lookup] at hx
  rw [hx] at hlookup
  obtain ⟨v', hv', heq⟩ := Option.map_eq_some_iff.mp hlookup.symm
  exact ⟨v', hv', heq.symm⟩

theorem assign_eq_none (h : st.erase = st'.erase) {x : String} {v v' : Value}
    (hv : v.erase = v'.erase) (hx : Frame.assign? x v st.frames = none) :
    Frame.assign? x v' st'.frames = none := by
  have hassign := congrArg (Frame.assign? x v.erase) (frames_eq h)
  rw [Frame.assign?_erase, hv, Frame.assign?_erase, hx] at hassign
  exact Option.map_eq_none_iff.mp hassign.symm

theorem assign_eq_some (h : st.erase = st'.erase) {x : String} {v v' : Value}
    (hv : v.erase = v'.erase) {fs : List (Frame Value)}
    (hx : Frame.assign? x v st.frames = some fs) :
    ∃ fs', Frame.assign? x v' st'.frames = some fs' ∧
      ({ st with frames := fs } : Stack).erase = ({ st' with frames := fs' } : Stack).erase := by
  have hassign := congrArg (Frame.assign? x v.erase) (frames_eq h)
  rw [Frame.assign?_erase, hv, Frame.assign?_erase, hx] at hassign
  obtain ⟨fs', hfs', heq⟩ := Option.map_eq_some_iff.mp hassign.symm
  exact ⟨fs', hfs', withFrames_eq h heq.symm⟩

theorem define_eq (h : st.erase = st'.erase) (x : String) {v v' : Value}
    (hv : v.erase = v'.erase) : (st.define x v).erase = (st'.define x v').erase := by
  refine withFrames_eq h ?_
  rw [Frame.define_erase, Frame.define_erase, hv, frames_eq h]

theorem push_eq (h : st.erase = st'.erase) {f f' : Frame Value} (hf : f.erase = f'.erase) :
    (st.push f).erase = (st'.push f').erase := by
  refine withFrames_eq h ?_
  rw [List.map_cons, List.map_cons, hf, frames_eq h]

theorem pop_eq (h : st.erase = st'.erase) : st.pop.erase = st'.pop.erase := by
  refine withFrames_eq h ?_
  rw [List.map_tail, List.map_tail, frames_eq h]

theorem newFunction_eq (h : st.erase = st'.erase) :
    ({ st with functions := st.functions + 1 } : Stack).erase =
      ({ st' with functions := st'.functions + 1 } : Stack).erase := by
  simp only [erase, frames_eq h, output_eq h, hostCalls_eq h, functions_eq h]

theorem withOutput_eq (h : st.erase = st'.erase) (o : Output) :
    ({ st with output := o } : Stack).erase = ({ st' with output := o } : Stack).erase := by
  simp only [erase, frames_eq h, hostCalls_eq h, functions_eq h]

end Stack

end Lox

import Lox.Proofs.Erasure.Session
import Lox.Proofs.Machine.Visible

/-!
# A name that nobody mentions

If a program does not mention a name, nor do the functions that are bound when it starts, then it
does not matter whether the name is bound and to what: with another binding for it in the global
scope the program does the same, and the binding is still there at the end
(`Session.run_unmentioned`).

Functions run in the scope of their callers, so which frames a function meets is not known when it
is made.  But all values that a run comes across mention no more names than the program and the
functions bound at the start.  `Frame.Apart` says this of the values in a frame, along with how two
frames differ, and two runs in lockstep keep it for all frames of their stacks.
-/

namespace Lox

theorem forall_ne_iff_not_mem {x : String} {xs : List String} : (∀ y ∈ xs, y ≠ x) ↔ x ∉ xs :=
  ⟨fun h hx => h x hx rfl, fun h _ hy heq => h (heq ▸ hy)⟩

/-! ## Frames -/

namespace Frame

variable {x y : String} {v : Value} {slot : Option Value} {slots : List (Option Value)}
  {f g : Frame Value} {fs gs : List (Frame Value)}

/-- Two frames are the same but for the name `x`, which `slot` is bound to in the second one, and no
other name is bound to a value that mentions `x`. -/
structure Apart (x : String) (slot : Option Value) (f g : Frame Value) : Prop where
  eq : ∀ y, y ≠ x → g y = f y
  allows : ∀ y, y ≠ x → ∀ v, f y = some v → Allows (· ≠ x) v
  slot_eq : g x = slot

/-- The same for each of some frames. -/
inductive AllApart (x : String) :
    List (Option Value) → List (Frame Value) → List (Frame Value) → Prop
  | nil : AllApart x [] [] []
  | cons {slot : Option Value} {slots : List (Option Value)} {f g : Frame Value}
      {fs gs : List (Frame Value)} (hfirst : Apart x slot f g) (hrest : AllApart x slots fs gs) :
      AllApart x (slot :: slots) (f :: fs) (g :: gs)

theorem apart_empty : Apart x none empty empty where
  eq _ _ := rfl
  allows _ _ _ h := nomatch h
  slot_eq := rfl

theorem Apart.set (h : Apart x slot f g) (hy : y ≠ x) (hv : Allows (· ≠ x) v) :
    Apart x slot (f.set y v) (g.set y v) where
  eq z hz := by
    rw [Frame.set, Frame.set, h.eq z hz]
  allows z hz w hw := by
    rw [Frame.set] at hw
    split at hw
    · obtain rfl := Option.some.inj hw
      exact hv
    · exact h.allows z hz w hw
  slot_eq := by
    rw [Frame.set, if_neg hy.symm, h.slot_eq]

theorem AllApart.lookup_eq (h : AllApart x slots fs gs) (hy : y ≠ x) :
    lookup y gs = lookup y fs := by
  induction h with
  | nil => rfl
  | cons hfirst _ ih => rw [lookup_cons, lookup_cons, hfirst.eq y hy, ih]

theorem AllApart.allows_lookup (h : AllApart x slots fs gs) (hy : y ≠ x)
    (hv : lookup y fs = some v) : Allows (· ≠ x) v := by
  induction h with
  | nil => cases hv
  | @cons slot slots f g fs gs hfirst _ ih =>
    rw [lookup_cons] at hv
    cases hf : f y with
    | none =>
      rw [hf, Option.none_or] at hv
      exact ih hv
    | some w =>
      rw [hf, Option.some_or] at hv
      obtain rfl := Option.some.inj hv
      exact hfirst.allows y hy w hf

theorem AllApart.define (h : AllApart x slots fs gs) (hy : y ≠ x) (hv : Allows (· ≠ x) v) :
    AllApart x slots (define y v fs) (define y v gs) := by
  cases h with
  | nil => exact .nil
  | cons hfirst hrest => exact .cons (hfirst.set hy hv) hrest

/-- An assignment fails on both or leaves both apart. -/
theorem AllApart.assign (h : AllApart x slots fs gs) (hy : y ≠ x) (hv : Allows (· ≠ x) v) :
    assign? y v fs = none ∧ assign? y v gs = none ∨
    ∃ fs' gs', assign? y v fs = some fs' ∧ assign? y v gs = some gs' ∧
      AllApart x slots fs' gs' := by
  induction h with
  | nil => exact .inl ⟨rfl, rfl⟩
  | @cons slot slots f g fs gs hfirst hrest ih =>
    rw [assign?, assign?, hfirst.eq y hy]
    cases f y with
    | some w => exact .inr ⟨_, _, rfl, rfl, .cons (hfirst.set hy hv) hrest⟩
    | none =>
      obtain ⟨hfs, hgs⟩ | ⟨fs', gs', hfs, hgs, h'⟩ := ih
      · exact .inl ⟨by rw [hfs]; rfl, by rw [hgs]; rfl⟩
      · rw [hfs, hgs]
        exact .inr ⟨f :: fs', g :: gs', rfl, rfl, .cons hfirst h'⟩

end Frame

/-! ## Stacks -/

namespace Stack

variable {x : String} {slots : List (Option Value)} {st st' : Stack}

/-- Two stacks with frames that are apart in `x` and the same view of the outside. -/
structure Apart (x : String) (slots : List (Option Value)) (st st' : Stack) : Prop where
  frames : Frame.AllApart x slots st.frames st'.frames
  output : st.output = st'.output
  hostCalls : st.hostCalls = st'.hostCalls
  functions : st.functions = st'.functions

theorem Apart.push (h : Apart x slots st st') :
    Apart x (none :: slots) (st.push Frame.empty) (st'.push Frame.empty) :=
  { h with frames := .cons Frame.apart_empty h.frames }

theorem Apart.pop {slot : Option Value} (h : Apart x (slot :: slots) st st') :
    Apart x slots st.pop st'.pop := by
  obtain ⟨hframes, houtput, hcalls, hfunctions⟩ := h
  obtain ⟨fs, output, calls, functions⟩ := st
  obtain ⟨gs, output', calls', functions'⟩ := st'
  cases hframes with
  | cons _ hrest => exact ⟨hrest, houtput, hcalls, hfunctions⟩

end Stack

namespace Eval

open Stack (Apart)

variable {x : String}

/-! ## Computations that do not mention the name -/

theorem lockstep_lookup {y : String} (hy : y ≠ x) :
    Lockstep (Apart x) (Allows (· ≠ x)) fun scope => lookup scope y := by
  refine .of_acts (acts_lookup y) fun slots st st' h => ?_
  refine ⟨congrArg Except.ok (h.frames.lookup_eq hy).symm, ?_, h⟩
  rintro bound ⟨⟩
  cases hbound : st.lookup y with
  | none => exact allows_of_nil rfl
  | some v => exact h.frames.allows_lookup hy hbound

theorem lockstep_define {y : String} {v : Value} (hy : y ≠ x) (hv : Allows (· ≠ x) v) :
    Lockstep (Apart x) (Allows (· ≠ x)) fun scope => define scope y v :=
  .of_acts (acts_define y v) fun _ _ _ h =>
    ⟨rfl, fun _ _ => allows_of_nil rfl, { h with frames := h.frames.define hy hv }⟩

theorem lockstep_assign {y : String} {v : Value} (line : Int) (hy : y ≠ x)
    (hv : Allows (· ≠ x) v) :
    Lockstep (Apart x) (Allows (· ≠ x)) fun scope => assign line scope y v := by
  refine .of_acts (acts_assign line y v) fun slots st st' h => ?_
  obtain ⟨hst, hst'⟩ | ⟨fs, gs, hst, hst', hframes⟩ := h.frames.assign hy hv
  · simp only [hst, hst', true_and]
    exact ⟨fun _ _ => allows_of_nil rfl, h⟩
  · simp only [hst, hst', true_and]
    exact ⟨fun _ _ => allows_of_nil rfl, { h with frames := hframes }⟩

theorem lockstep_newFunction (name : String) {params : List String} {body : List Stmt}
    (hnames : ∀ y ∈ params ++ Stmt.allNames body, y ≠ x) :
    Lockstep (Apart x) (Allows (· ≠ x)) fun _ => newFunction name params body := by
  refine .of_acts (acts_newFunction name params body) fun slots st st' h => ?_
  rw [h.functions]
  refine ⟨rfl, ?_, { h with functions := rfl }⟩
  rintro _ ⟨⟩
  exact hnames

theorem lockstep_write (refused : String → Failure) (s : String) :
    Lockstep (Apart x) (Allows (· ≠ x)) fun _ => write refused s := by
  refine .of_acts (acts_write refused s) fun slots st st' h => ?_
  rw [h.output]
  split
  · exact ⟨rfl, fun _ _ => allows_of_nil rfl,
      { h with output := by rw [Stack.write, Stack.write, h.output] }⟩
  · exact ⟨rfl, fun _ _ => allows_of_nil rfl, h⟩

theorem inductiveOver_lockstep (x : String) :
    InductiveOver (· ≠ x) fun _ _ _ c => Lockstep (Apart x) (Allows (· ≠ x)) c where
  mono h _ := h
  bind := Lockstep.bind
  extend h := h.extend (fun _ _ _ h => h.push) fun _ _ _ h => h.pop
  pure _ ha := .of_eq (fun _ _ => rfl) fun _ h => Except.ok.inj h ▸ ha
  stop _ := .of_eq (fun _ _ => rfl) fun _ h => nomatch h
  lookup _ hy := lockstep_lookup hy
  define _ _ := lockstep_define
  assign line _ _ := lockstep_assign line
  newFunction name _ _ := lockstep_newFunction name
  write := lockstep_write
  noteCall name := .of_acts (acts_noteCall name) fun _ _ _ h =>
    ⟨rfl, fun _ _ => allows_of_nil rfl, { h with hostCalls := congrArg (name :: ·) h.hostCalls }⟩

end Eval

/-! ## Sessions -/

namespace Session

variable {x : String} {v : Value} {s s' : Session}

/-- The session with a name bound in the global scope. -/
def define (s : Session) (x : String) (v : Value) : Session :=
  ⟨{ s.machine with scopes := s.machine.scopes.define global x v }⟩

/-- In the second session `x` is bound to `v` in the global scope; apart from that both are in the
same state, in which no other name is bound to a value that mentions `x`. -/
structure Apart (x : String) (v : Value) (s s' : Session) : Prop where
  hasGlobal : global < s.machine.scopes.size
  hasGlobal' : global < s'.machine.scopes.size
  stack : Stack.Apart x [some v] (s.machine.stack global) (s'.machine.stack global)

theorem apart_define (hglobal : global < s.machine.scopes.size)
    (hs : ∀ y w, y ≠ x → s.machine.scopes.get? global y = some w → x ∉ w.names) (v : Value) :
    s.Apart x v (s.define x v) where
  hasGlobal := hglobal
  hasGlobal' := by
    rw [define, Scopes.size_define]
    exact hglobal
  stack := by
    have hframe := s.machine.scopes.frame_define hglobal x v global
    rw [if_pos rfl] at hframe
    rw [define, Machine.stack_global, Machine.stack_global, hframe]
    refine ⟨.cons ⟨fun y hy => if_neg hy, fun y hy w hw => ?_, if_pos rfl⟩ .nil, rfl, rfl, rfl⟩
    rw [← Machine.get?_global] at hw
    exact forall_ne_iff_not_mem.mpr (hs y w hy hw)

theorem Apart.get?_eq (h : s.Apart x v s') (y : String) :
    s'.machine.scopes.get? global y =
      if y = x then some v else s.machine.scopes.get? global y := by
  have hframes := h.stack.frames
  rw [Machine.stack_global, Machine.stack_global] at hframes
  cases hframes with
  | cons hframe _ =>
    rw [Machine.get?_global, Machine.get?_global]
    split
    · rename_i hy
      rw [hy, hframe.slot_eq]
    · exact hframe.eq y ‹_›

/-- The text and the room of the output are not bound to anything. -/
theorem Apart.withOutput (h : s.Apart x v s') (output : Output) :
    Apart x v ⟨{ s.machine with output }⟩ ⟨{ s'.machine with output }⟩ where
  hasGlobal := h.hasGlobal
  hasGlobal' := h.hasGlobal'
  stack := ⟨h.stack.frames, rfl, h.stack.hostCalls, h.stack.functions⟩

theorem Apart.fresh (h : s.Apart x v s') :
    Stack.Apart x [some v] (s.fresh.stack global) (s'.fresh.stack global) := by
  have houtput : s.machine.output = s'.machine.output := h.stack.output
  have hfresh := (h.withOutput ⟨"", s.machine.output.room⟩).stack
  rw [Session.fresh, Session.fresh, ← houtput]
  exact hfresh

/-- Two pairs of a result and a session with the same result and sessions that are apart. -/
def SameResult (x : String) (v : Value) (p p' : StatementResult × Session) : Prop :=
  p'.1 = p.1 ∧ p.2.Apart x v p'.2

theorem Apart.execute (h : s.Apart x v s') (fuel : Nat) {stmt : Stmt} (hstmt : x ∉ stmt.names) :
    SameResult x v (s.execute fuel stmt) (s'.execute fuel stmt) := by
  have hlockstep := ((Eval.inductiveOver_lockstep x).evaluated fuel).statement stmt
    (forall_ne_iff_not_mem.mpr hstmt)
  obtain ⟨hout, -, hstack, hext, hext'⟩ := hlockstep [some v] s.fresh s'.fresh global global
    h.hasGlobal h.hasGlobal' h.fresh
  have houtput : (Eval.statement fuel global stmt s.fresh).2.output =
    (Eval.statement fuel global stmt s'.fresh).2.output := hstack.output
  rw [execute_eq, execute_eq, ← hout, ← houtput]
  exact ⟨rfl, Nat.lt_of_lt_of_le h.hasGlobal hext.size_le,
    Nat.lt_of_lt_of_le h.hasGlobal' hext'.size_le, hstack⟩

theorem SameResult.shown {p p' : StatementResult × Session} (h : SameResult x v p p')
    (echoing : Bool) : SameResult x v (shown echoing p) (shown echoing p') := by
  obtain ⟨r, s⟩ := p
  obtain ⟨r', s'⟩ := p'
  obtain ⟨rfl, hs⟩ : r' = r ∧ s.Apart x v s' := h
  have houtput : s.machine.output = s'.machine.output := hs.stack.output
  cases echoing with
  | false => exact ⟨rfl, hs⟩
  | true =>
    show SameResult x v (echo r' s) (echo r' s')
    -- Whether the value is written depends on the result and on the room, which are the same.
    unfold echo
    rw [← houtput]
    split
    · exact ⟨rfl, hs.withOutput _⟩
    · exact ⟨rfl, hs⟩

theorem Apart.executeAll (h : s.Apart x v s') (fuel : Nat) (echoing : Bool) {ss : List Stmt}
    (hss : x ∉ Stmt.allNames ss) :
    (executeAll fuel echoing s' ss).1 = (executeAll fuel echoing s ss).1 ∧
      (executeAll fuel echoing s ss).2.Apart x v (executeAll fuel echoing s' ss).2 := by
  induction ss generalizing s s' with
  | nil => exact ⟨rfl, h⟩
  | cons stmt ss ih =>
    have hnot : x ∉ stmt.names ∧ x ∉ Stmt.allNames ss := by
      rwa [Stmt.allNames, List.mem_append, not_or] at hss
    obtain ⟨hresult, hsession⟩ := (h.execute fuel hnot.1).shown echoing
    obtain ⟨hresults, hlast⟩ := ih hsession hnot.2
    rw [executeAll_cons, executeAll_cons, hresult, hresults]
    exact ⟨rfl, hlast⟩

/-- If neither a program nor the functions that are bound to other names mention `x`, then the
program does the same, statement by statement, with `x` bound in the global scope to whatever value,
and the global scope is the same afterwards except that `x` is still bound to this value. -/
theorem run_unmentioned (s : Session) (x : String) (v : Value) (p : Program)
    (hglobal : global < s.machine.scopes.size) (hp : x ∉ p.names)
    (hs : ∀ y w, y ≠ x → s.machine.scopes.get? global y = some w → x ∉ w.names)
    (fuel : Nat) (echoing : Bool) :
    ((s.define x v).run fuel echoing p).1 = (s.run fuel echoing p).1 ∧
    ((s.define x v).run fuel echoing p).2.machine.output =
      (s.run fuel echoing p).2.machine.output ∧
    ((s.define x v).run fuel echoing p).2.machine.hostCalls =
      (s.run fuel echoing p).2.machine.hostCalls ∧
    ∀ y, ((s.define x v).run fuel echoing p).2.machine.scopes.get? global y =
      if y = x then some v else (s.run fuel echoing p).2.machine.scopes.get? global y := by
  obtain ⟨hresults, hlast⟩ := (apart_define hglobal hs v).executeAll fuel echoing hp
  exact ⟨hresults, hlast.stack.output.symm, hlast.stack.hostCalls.symm, hlast.get?_eq⟩

/-- A function that reads a name of its caller, and a host function that nobody calls. -/
theorem run_unmentioned_native :
    let f : Value := .function ⟨0, "f", [], [.giveBack 1 (some (.name 1 "a"))]⟩
    let clock : Value := .native ⟨"clock", .host none⟩
    let s : Session := ⟨⟨(Scopes.empty.add none).define 0 "f" f, ⟨"", none⟩, [], 1⟩⟩
    let p : Program := ⟨2, [.block 2 [.declare 2 "a" (some (.bool 2 true)),
      .print 2 (.call 2 "f" [])]]⟩
    global < s.machine.scopes.size ∧ "clock" ∉ p.names ∧
    (∀ y w, y ≠ "clock" → s.machine.scopes.get? global y = some w → "clock" ∉ w.names) ∧
    ((s.define "clock" clock).run 9 true p).1 = (s.run 9 true p).1 := by
  intro f clock s p
  have hglobal : global < s.machine.scopes.size := by decide
  have hp : "clock" ∉ p.names := by decide
  have hs : ∀ y w, y ≠ "clock" → s.machine.scopes.get? global y = some w → "clock" ∉ w.names := by
    intro y w _ hw
    rw [Machine.get?_global] at hw
    have hf : (if "f" = y then some f else none) = some w := hw
    split at hf
    · obtain rfl := Option.some.inj hf
      decide
    · cases hf
  exact ⟨hglobal, hp, hs, (run_unmentioned s "clock" clock p hglobal hp hs 9 true).1⟩

end Session

end Lox

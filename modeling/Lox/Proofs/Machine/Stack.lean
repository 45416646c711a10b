import Lox.Machine.Evaluate
import Lox.Proofs.Value.Meaning

/-!
# Evaluation on a stack of frames

The meaning of expressions and statements as relations over an explicit stack.  A frame binds names
to values, the innermost one comes first, and nothing refers to a frame from outside.  A block and a
call push one frame and pop it again however they end; what happened to the frames below stays.  A
function carries no frames, so its body runs on those of its caller.

`Stack.Evaluates st e out st'` says that `e`, evaluated on `st`, ends with `out` and leaves `st'`.
There is no fuel, and what does not end is simply not related to anything.  Nor does anything else
of the evaluator occur in the rules: operators have a meaning of their own (`BinaryOp.Means`), and
the output takes a text or refuses it as a whole (`Output.Accepts`).
-/

namespace Lox

/-! ## Output -/

namespace Output

/-- The output takes a text that there is room for. -/
inductive Accepts : Output → String → Output → Prop
  | unlimited {text s : String} : Accepts ⟨text, none⟩ s ⟨text ++ s, none⟩
  | limited {text s : String} {n : Nat} (h : s.utf8ByteSize ≤ n) :
      Accepts ⟨text, some n⟩ s ⟨text ++ s, some (n - s.utf8ByteSize)⟩

/-- The output has no room for all of a text. -/
inductive Refuses : Output → String → Prop
  | full {text s : String} {n : Nat} (h : n < s.utf8ByteSize) : Refuses ⟨text, some n⟩ s

variable {o o' : Output} {s : String}

theorem accepts_iff : o.Accepts s o' ↔ o.hasRoom s = true ∧ o.append s = o' := by
  obtain ⟨text, _ | n⟩ := o
  · exact ⟨fun | .unlimited => ⟨rfl, rfl⟩, fun ⟨_, h⟩ => h ▸ .unlimited⟩
  · exact ⟨fun | .limited h => ⟨decide_eq_true h, rfl⟩,
      fun ⟨hroom, h⟩ => h ▸ .limited (of_decide_eq_true hroom)⟩

theorem refuses_iff : o.Refuses s ↔ o.hasRoom s = false := by
  obtain ⟨text, _ | n⟩ := o
  · exact iff_of_false nofun nofun
  · exact ⟨fun | .full h => decide_eq_false (Nat.not_le_of_gt h),
      fun h => .full (Nat.lt_of_not_le (of_decide_eq_false h))⟩

end Output

/-! ## Frames -/

/-- What a scope binds: each name to a value or to nothing. -/
abbrev Frame (α : Type) := String → Option α

namespace Frame

variable {α : Type}

/-- The frame that binds nothing. -/
def empty : Frame α := fun _ => none

/-- A frame with one name bound anew. -/
def set (f : Frame α) (x : String) (v : α) : Frame α := fun y => if y = x then some v else f y

/-- The frame that binds names one after the other. -/
def ofList (bindings : List (String × α)) : Frame α :=
  bindings.foldl (fun f b => f.set b.1 b.2) empty

/-- The value of a name in the first of some frames that binds it. -/
def lookup (x : String) (fs : List (Frame α)) : Option α := fs.findSome? (· x)

/-- Binds a name in the first of some frames. -/
def define (x : String) (v : α) : List (Frame α) → List (Frame α)
  | [] => []
  | f :: fs => f.set x v :: fs

/-- Gives a name a new value in the first of some frames that binds it; none if no one does. -/
def assign? (x : String) (v : α) : List (Frame α) → Option (List (Frame α))
  | [] => none
  | f :: fs => if (f x).isSome then some (f.set x v :: fs) else (assign? x v fs).map (f :: ·)

end Frame

/-! ## Stacks -/

/-- What a running program changes: the frames, the innermost first, and what it shares with the
outside. -/
structure Stack where
  frames : List (Frame Value)
  output : Output
  /-- The names of the host functions called, the latest first. -/
  hostCalls : List String
  /-- The number of functions made so far. -/
  functions : Nat

namespace Stack

/-- The value of a name. -/
def lookup (st : Stack) (x : String) : Option Value := Frame.lookup x st.frames

/-- Binds a name in the innermost frame. -/
def define (st : Stack) (x : String) (v : Value) : Stack :=
  { st with frames := Frame.define x v st.frames }

/-- Puts a frame on top. -/
def push (st : Stack) (f : Frame Value) : Stack := { st with frames := f :: st.frames }

/-- Drops the frame on top. -/
def pop (st : Stack) : Stack := { st with frames := st.frames.tail }

/-- The value of a call, from how the body of the function ended. -/
def result : Flow → Value
  | .next _ => .nil
  | .giveBack v => v

/-! ## The rules -/

/-- What a native function does. -/
inductive Answers : Stack → Native → Except Failure Value → Stack → Prop
  | refused {st : Stack} {name : String}
      (hroom : st.output.Refuses ("called " ++ name ++ "\n")) :
      Answers st ⟨name, .announce⟩ (.error (.native name "sink full")) st
  | announce {st : Stack} {name : String} {o : Output}
      (hroom : st.output.Accepts ("called " ++ name ++ "\n") o) :
      Answers st ⟨name, .announce⟩ (.ok .nil) { st with output := o }
  | hostFails {st : Stack} {name message : String} :
      Answers st ⟨name, .host (some message)⟩ (.error (.native name message))
        { st with hostCalls := name :: st.hostCalls }
  | host {st : Stack} {name : String} :
      Answers st ⟨name, .host none⟩ (.ok .nil) { st with hostCalls := name :: st.hostCalls }

mutual

/-- The evaluation of an expression. -/
inductive Evaluates : Stack → Expr → Except Failure Value → Stack → Prop
  | number {st : Stack} {l : Int} {x : Float} :
      Evaluates st (.number l x) (.ok (.number x)) st
  | string {st : Stack} {l : Int} {s : String} :
      Evaluates st (.string l s) (.ok (.string s)) st
  | bool {st : Stack} {l : Int} {b : Bool} : Evaluates st (.bool l b) (.ok (.bool b)) st
  | nil {st : Stack} {l : Int} : Evaluates st (.nil l) (.ok .nil) st
  | name {st : Stack} {l : Int} {x : String} {v : Value} (h : st.lookup x = some v) :
      Evaluates st (.name l x) (.ok v) st
  | unbound {st : Stack} {l : Int} {x : String} (h : st.lookup x = none) :
      Evaluates st (.name l x) (.error (.fault ⟨l, .undefinedVariable x⟩)) st
  | group {st st' : Stack} {l : Int} {e : Expr} {out : Except Failure Value}
      (h : Evaluates st e out st') : Evaluates st (.group l e) out st'
  -- Operators
  | unaryFails {st st' : Stack} {l : Int} {op : UnaryOp} {e : Expr} {f : Failure}
      (h : Evaluates st e (.error f) st') : Evaluates st (.unary l op e) (.error f) st'
  | unary {st st' : Stack} {l : Int} {op : UnaryOp} {e : Expr} {v : Value}
      {out : Except Failure Value} (h : Evaluates st e (.ok v) st') (hop : op.Means l v out) :
      Evaluates st (.unary l op e) out st'
  | binaryLeftFails {st st' : Stack} {l : Int} {op : BinaryOp} {left right : Expr} {f : Failure}
      (hleft : Evaluates st left (.error f) st') :
      Evaluates st (.binary l op left right) (.error f) st'
  | binaryRightFails {st st₁ st' : Stack} {l : Int} {op : BinaryOp} {left right : Expr}
      {v : Value} {f : Failure} (hleft : Evaluates st left (.ok v) st₁)
      (hright : Evaluates st₁ right (.error f) st') :
      Evaluates st (.binary l op left right) (.error f) st'
  | binary {st st₁ st' : Stack} {l : Int} {op : BinaryOp} {left right : Expr} {v w : Value}
      {out : Except Failure Value} (hleft : Evaluates st left (.ok v) st₁)
      (hright : Evaluates st₁ right (.ok w) st') (hop : op.Means l v w out) :
      Evaluates st (.binary l op left right) out st'
  | logicalLeftFails {st st' : Stack} {l : Int} {op : LogicalOp} {left right : Expr} {f : Failure}
      (hleft : Evaluates st left (.error f) st') :
      Evaluates st (.logical l op left right) (.error f) st'
  | logicalRightFails {st st₁ st' : Stack} {l : Int} {op : LogicalOp} {left right : Expr}
      {v : Value} {f : Failure} (hleft : Evaluates st left (.ok v) st₁)
      (hright : Evaluates st₁ right (.error f) st') :
      Evaluates st (.logical l op left right) (.error f) st'
  | logical {st st₁ st' : Stack} {l : Int} {op : LogicalOp} {left right : Expr} {v w : Value}
      {out : Except Failure Value} (hleft : Evaluates st left (.ok v) st₁)
      (hright : Evaluates st₁ right (.ok w) st') (hop : op.Means l v w out) :
      Evaluates st (.logical l op left right) out st'
  -- Assignments
  | assignFails {st st' : Stack} {l : Int} {x : String} {e : Expr} {f : Failure}
      (h : Evaluates st e (.error f) st') : Evaluates st (.assign l x e) (.error f) st'
  | assignUnbound {st st' : Stack} {l : Int} {x : String} {e : Expr} {v : Value}
      (h : Evaluates st e (.ok v) st') (hx : Frame.assign? x v st'.frames = none) :
      Evaluates st (.assign l x e) (.error (.fault ⟨l, .undefinedVariable x⟩)) st'
  | assign {st st' : Stack} {l : Int} {x : String} {e : Expr} {v : Value}
      {frames : List (Frame Value)} (h : Evaluates st e (.ok v) st')
      (hx : Frame.assign? x v st'.frames = some frames) :
      Evaluates st (.assign l x e) (.ok v) { st' with frames := frames }
  -- Calls: the callee, then the arguments, then their number, then what is called
  | callUnbound {st : Stack} {l : Int} {g : String} {args : List Expr} (hg : st.lookup g = none) :
      Evaluates st (.call l g args) (.error (.fault ⟨l, .undefinedFunction g⟩)) st
  | callOther {st : Stack} {l : Int} {g : String} {args : List Expr} {callee : Value}
      {k : Value.Kind} (hg : st.lookup g = some callee) (hcallee : ∀ n, ¬ callee.Takes n)
      (hk : callee.HasKind k) :
      Evaluates st (.call l g args) (.error (.fault ⟨l, .notCallable g k⟩)) st
  | callFails {st st' : Stack} {l : Int} {g : String} {args : List Expr} {callee : Value}
      {arity : Nat} {f : Failure} (hg : st.lookup g = some callee)
      (harity : callee.Takes arity) (hargs : EvaluatesAll st args (.error f) st') :
      Evaluates st (.call l g args) (.error f) st'
  | callArity {st st' : Stack} {l : Int} {g : String} {args : List Expr} {callee : Value}
      {arity : Nat} {vs : List Value} (hg : st.lookup g = some callee)
      (harity : callee.Takes arity) (hargs : EvaluatesAll st args (.ok vs) st')
      (hne : vs.length ≠ arity) :
      Evaluates st (.call l g args) (.error (.fault ⟨l, .arity g arity vs.length⟩)) st'
  | call {st st₁ st' : Stack} {l : Int} {g : String} {args : List Expr} {callee : Value}
      {arity : Nat} {vs : List Value} {out : Except Failure Value}
      (hg : st.lookup g = some callee) (harity : callee.Takes arity)
      (hargs : EvaluatesAll st args (.ok vs) st₁) (heq : vs.length = arity)
      (happly : Applies st₁ callee vs out st') : Evaluates st (.call l g args) out st'

/-- The evaluation of expressions from left to right. -/
inductive EvaluatesAll : Stack → List Expr → Except Failure (List Value) → Stack → Prop
  | nil {st : Stack} : EvaluatesAll st [] (.ok []) st
  | headFails {st st' : Stack} {e : Expr} {es : List Expr} {f : Failure}
      (hhead : Evaluates st e (.error f) st') : EvaluatesAll st (e :: es) (.error f) st'
  | tailFails {st st₁ st' : Stack} {e : Expr} {es : List Expr} {v : Value} {f : Failure}
      (hhead : Evaluates st e (.ok v) st₁) (htail : EvaluatesAll st₁ es (.error f) st') :
      EvaluatesAll st (e :: es) (.error f) st'
  | cons {st st₁ st' : Stack} {e : Expr} {es : List Expr} {v : Value} {vs : List Value}
      (hhead : Evaluates st e (.ok v) st₁) (htail : EvaluatesAll st₁ es (.ok vs) st') :
      EvaluatesAll st (e :: es) (.ok (v :: vs)) st'

/-- What becomes of a call with its arguments.  The body of a function runs on the frames of the
caller, with one more on top that binds the parameters. -/
inductive Applies : Stack → Value → List Value → Except Failure Value → Stack → Prop
  | function {st st' : Stack} {g : Function} {vs : List Value} {out : Except Failure Flow}
      (hbody : ExecutesAll (st.push (Frame.ofList (g.params.zip vs))) g.body out st') :
      Applies st (.function g) vs (out.map result) st'.pop
  | native {st st' : Stack} {n : Native} {vs : List Value} {out : Except Failure Value}
      (hn : Answers st n out st') : Applies st (.native n) vs out st'

/-- The evaluation of a condition, which has to be a truth value; `keyword` names the statement that
asks for it. -/
inductive Tests : String → Stack → Expr → Except Failure Bool → Stack → Prop
  | fails {keyword : String} {st st' : Stack} {e : Expr} {f : Failure}
      (h : Evaluates st e (.error f) st') : Tests keyword st e (.error f) st'
  | other {keyword : String} {st st' : Stack} {e : Expr} {v : Value} {k : Value.Kind}
      (h : Evaluates st e (.ok v) st') (hv : v.HasKind k) (hk : k ≠ .bool) :
      Tests keyword st e (.error (.fault ⟨e.line, .operandType keyword k⟩)) st'
  | bool {keyword : String} {st st' : Stack} {e : Expr} {b : Bool}
      (h : Evaluates st e (.ok (.bool b)) st') :
      Tests keyword st e (.ok b) st'

/-- The execution of a statement. -/
inductive Executes : Stack → Stmt → Except Failure Flow → Stack → Prop
  | expressionFails {st st' : Stack} {l : Int} {e : Expr} {f : Failure}
      (h : Evaluates st e (.error f) st') : Executes st (.expression l e) (.error f) st'
  | expression {st st' : Stack} {l : Int} {e : Expr} {v : Value}
      (h : Evaluates st e (.ok v) st') : Executes st (.expression l e) (.ok (.next v)) st'
  | printFails {st st' : Stack} {l : Int} {e : Expr} {f : Failure}
      (h : Evaluates st e (.error f) st') : Executes st (.print l e) (.error f) st'
  | printRefused {st st' : Stack} {l : Int} {e : Expr} {v : Value} {text : String}
      (h : Evaluates st e (.ok v) st') (hv : v.Shown text)
      (hroom : st'.output.Refuses (text ++ "\n")) :
      Executes st (.print l e) (.error (.print "sink full")) st'
  | print {st st' : Stack} {l : Int} {e : Expr} {v : Value} {text : String} {o : Output}
      (h : Evaluates st e (.ok v) st') (hv : v.Shown text)
      (hroom : st'.output.Accepts (text ++ "\n") o) :
      Executes st (.print l e) (.ok (.next .nil)) { st' with output := o }
  | declareNil {st : Stack} {l : Int} {x : String} :
      Executes st (.declare l x none) (.ok (.next .nil)) (st.define x .nil)
  | declareFails {st st' : Stack} {l : Int} {x : String} {e : Expr} {f : Failure}
      (h : Evaluates st e (.error f) st') : Executes st (.declare l x (some e)) (.error f) st'
  | declare {st st' : Stack} {l : Int} {x : String} {e : Expr} {v : Value}
      (h : Evaluates st e (.ok v) st') :
      Executes st (.declare l x (some e)) (.ok (.next .nil)) (st'.define x v)
  | function {st : Stack} {l bodyLine : Int} {g : String} {params : List String}
      {body : List Stmt} :
      Executes st (.function l g params bodyLine body) (.ok (.next .nil))
        ({ st with functions := st.functions + 1 }.define g
          (.function ⟨st.functions, g, params, body⟩))
  | block {st st' : Stack} {l : Int} {body : List Stmt} {out : Except Failure Flow}
      (h : ExecutesAll (st.push Frame.empty) body out st') :
      Executes st (.block l body) out st'.pop
  | ifThenFails {st st' : Stack} {l : Int} {test : Expr} {yes : Stmt} {f : Failure}
      (htest : Tests "if" st test (.error f) st') :
      Executes st (.ifThen l test yes) (.error f) st'
  | ifThenSkips {st st' : Stack} {l : Int} {test : Expr} {yes : Stmt}
      (htest : Tests "if" st test (.ok false) st') :
      Executes st (.ifThen l test yes) (.ok (.next .nil)) st'
  | ifThen {st st₁ st' : Stack} {l : Int} {test : Expr} {yes : Stmt} {out : Except Failure Flow}
      (htest : Tests "if" st test (.ok true) st₁) (hyes : Executes st₁ yes out st') :
      Executes st (.ifThen l test yes) out st'
  | ifElseFails {st st' : Stack} {l : Int} {test : Expr} {yes no : Stmt} {f : Failure}
      (htest : Tests "if" st test (.error f) st') :
      Executes st (.ifElse l test yes no) (.error f) st'
  | ifElse {st st₁ st' : Stack} {l : Int} {test : Expr} {yes no : Stmt} {b : Bool}
      {out : Except Failure Flow} (htest : Tests "if" st test (.ok b) st₁)
      (hbranch : Executes st₁ (if b then yes else no) out st') :
      Executes st (.ifElse l test yes no) out st'
  -- A loop is its condition, then its body, then the same loop again
  | loopFails {st st' : Stack} {l : Int} {test : Expr} {body : Stmt} {f : Failure}
      (htest : Tests "while" st test (.error f) st') :
      Executes st (.loop l test body) (.error f) st'
  | loopEnds {st st' : Stack} {l : Int} {test : Expr} {body : Stmt}
      (htest : Tests "while" st test (.ok false) st') :
      Executes st (.loop l test body) (.ok (.next .nil)) st'
  | loopBodyFails {st st₁ st' : Stack} {l : Int} {test : Expr} {body : Stmt} {f : Failure}
      (htest : Tests "while" st test (.ok true) st₁) (hbody : Executes st₁ body (.error f) st') :
      Executes st (.loop l test body) (.error f) st'
  | loopGivesBack {st st₁ st' : Stack} {l : Int} {test : Expr} {body : Stmt} {v : Value}
      (htest : Tests "while" st test (.ok true) st₁)
      (hbody : Executes st₁ body (.ok (.giveBack v)) st') :
      Executes st (.loop l test body) (.ok (.giveBack v)) st'
  | loopRepeats {st st₁ st₂ st' : Stack} {l : Int} {test : Expr} {body : Stmt} {v : Value}
      {out : Except Failure Flow} (htest : Tests "while" st test (.ok true) st₁)
      (hbody : Executes st₁ body (.ok (.next v)) st₂)
      (hagain : Executes st₂ (.loop l test body) out st') :
      Executes st (.loop l test body) out st'
  | giveBackNil {st : Stack} {l : Int} :
      Executes st (.giveBack l none) (.ok (.giveBack .nil)) st
  | giveBackFails {st st' : Stack} {l : Int} {e : Expr} {f : Failure}
      (h : Evaluates st e (.error f) st') : Executes st (.giveBack l (some e)) (.error f) st'
  | giveBack {st st' : Stack} {l : Int} {e : Expr} {v : Value} (h : Evaluates st e (.ok v) st') :
      Executes st (.giveBack l (some e)) (.ok (.giveBack v)) st'

/-- The execution of statements in order, up to the first one that fails or gives a value back. -/
inductive ExecutesAll : Stack → List Stmt → Except Failure Flow → Stack → Prop
  | nil {st : Stack} : ExecutesAll st [] (.ok (.next .nil)) st
  | fails {st st' : Stack} {s : Stmt} {ss : List Stmt} {f : Failure}
      (h : Executes st s (.error f) st') : ExecutesAll st (s :: ss) (.error f) st'
  | givesBack {st st' : Stack} {s : Stmt} {ss : List Stmt} {v : Value}
      (h : Executes st s (.ok (.giveBack v)) st') :
      ExecutesAll st (s :: ss) (.ok (.giveBack v)) st'
  | next {st st₁ st' : Stack} {s : Stmt} {ss : List Stmt} {v : Value}
      {out : Except Failure Flow} (h : Executes st s (.ok (.next v)) st₁)
      (hrest : ExecutesAll st₁ ss out st') : ExecutesAll st (s :: ss) out st'

end

end Stack

end Lox

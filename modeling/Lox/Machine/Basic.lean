import Lox.Scope
import Lox.Value.Operation

/-!
# The machine

The state that a running program changes, and computations on it.  A computation ends with a
result or stops, and the state it leaves behind counts in both cases.
-/

namespace Lox

/-- The text written so far, and the number of bytes that there is still room for, if the room is
limited. -/
structure Output where
  text : String
  room : Option Nat

namespace Output

/-- There is room for a text. -/
def hasRoom (o : Output) (s : String) : Bool :=
  match o.room with
  | none => true
  | some n => Text.Utf8.size s ≤ n

/-- Writes a text that there is room for. -/
def append (o : Output) (s : String) : Output :=
  ⟨o.text ++ s, o.room.map (· - Text.Utf8.size s)⟩

/-- The wording of a refused write. -/
def refusal : String := "sink full"

end Output

/-- The state of a running program. -/
structure Machine where
  scopes : Scopes Value
  output : Output
  /-- The names of the host functions called, the latest first. -/
  hostCalls : List String
  /-- The number of functions made so far. -/
  functions : Nat

/-- Why a computation stopped without a result. -/
inductive Stop where
  | failed (f : Failure)
  /-- The computation was longer than its fuel allowed. -/
  | outOfFuel

namespace Stop

/-- A stop as it is reported. -/
def text : Stop → String
  | failed f => f.text
  | outOfFuel => "evaluation ran out of fuel"

end Stop

/-- A computation on the machine. -/
def Eval (α : Type) : Type := Machine → Except Stop α × Machine

namespace Eval

variable {α β : Type}

/-- A computation that is over. -/
@[inline] def done (a : α) : Eval α := fun m => (.ok a, m)

/-- A computation that goes on with the result of another one. -/
@[inline] def andThen (x : Eval α) (f : α → Eval β) : Eval β := fun m =>
  match x m with
  | (.ok a, m) => f a m
  | (.error stop, m) => (.error stop, m)

instance : Monad Eval where
  pure := done
  bind := andThen

/-- Stops. -/
@[inline] def stop (s : Stop) : Eval α := fun m => (.error s, m)

/-- Fails. -/
@[inline] def fail (f : Failure) : Eval α := stop (.failed f)

/-- The result of a calculation that leaves the machine alone. -/
@[inline] def ofExcept : Except Failure α → Eval α
  | .ok a => done a
  | .error f => fail f

/-- A value that has to be there. -/
@[inline] def require (failure : Failure) : Option α → Eval α
  | some a => done a
  | none => fail failure

/-- The value of a name as seen from a scope. -/
def lookup (scope : ScopeId) (name : String) : Eval (Option Value) := fun m =>
  (.ok (m.scopes.get? scope name), m)

/-- Binds a name in a scope. -/
def define (scope : ScopeId) (name : String) (value : Value) : Eval Unit := fun m =>
  (.ok (), { m with scopes := m.scopes.define scope name value })

/-- Binds names in a scope, one after the other. -/
def defineAll (scope : ScopeId) : List (String × Value) → Eval Unit
  | [] => done ()
  | (name, value) :: rest => andThen (define scope name value) fun _ => defineAll scope rest

/-- Gives a name a new value where it is bound as seen from a scope. -/
def assign (line : Int) (scope : ScopeId) (name : String) (value : Value) : Eval Unit := fun m =>
  match m.scopes.owner? scope name with
  | some owner => (.ok (), { m with scopes := m.scopes.define owner name value })
  | none => (.error (.failed (.fault ⟨line, .undefinedVariable name⟩)), m)

/-- Makes a scope inside another one. -/
def extend (scope : ScopeId) : Eval ScopeId := fun m =>
  (.ok m.scopes.size, { m with scopes := m.scopes.add (some scope) })

/-- Makes a function. -/
def newFunction (name : String) (params : List String) (body : List Stmt) : Eval Value := fun m =>
  (.ok (.function ⟨m.functions, name, params, body⟩), { m with functions := m.functions + 1 })

/-- Writes a text; one that there is no room for is refused as a whole, and `refused` says what that
means. -/
def write (refused : String → Failure) (s : String) : Eval Unit := fun m =>
  if m.output.hasRoom s then (.ok (), { m with output := m.output.append s })
  else (.error (.failed (refused Output.refusal)), m)

/-- Notes that a host function is called. -/
def noteCall (name : String) : Eval Unit := fun m =>
  (.ok (), { m with hostCalls := name :: m.hostCalls })

/-- Calls a native function. -/
def callNative (n : Native) : Eval Value :=
  match n.action with
  | .announce => do
    write (.native n.name) ("called " ++ n.name ++ "\n")
    return .nil
  | .host failure => do
    noteCall n.name
    match failure with
    | some message => fail (.native n.name message)
    | none => return .nil

end Eval

end Lox

import Lox.Machine.Evaluate
import Lox.Source

/-!
# Sessions

A session is a machine with a global scope that lasts from one program to the next.  The
statements of a program are executed one by one; one that fails is reported and the next one runs
on what it left behind.
-/

namespace Lox

namespace Native

/-- The natives that a session can have from the start, in the byte order of their names. -/
def builtins : List Native := [⟨"clock", .announce⟩]

/-- The names of the built-in natives. -/
def builtinNames : List String := builtins.map Native.name

/-- The name is that of a built-in native. -/
def isBuiltin (name : String) : Bool := builtinNames.contains name

end Native

/-- A machine whose scope number 0 is the global scope. -/
structure Session where
  machine : Machine

/-- The outcome of one statement at the top level, with what it wrote. -/
structure StatementResult where
  statement : Stmt
  outcome : Except Stop Value
  output : String

namespace StatementResult

/-- The statement failed. -/
def failed (r : StatementResult) : Bool :=
  match r.outcome with
  | .ok _ => false
  | .error _ => true

/-- The report of a failed statement. -/
def report? (r : StatementResult) : Option String :=
  match r.outcome with
  | .ok _ => none
  | .error stop => some stop.text

end StatementResult

namespace Session

/-- The global scope. -/
def global : ScopeId := 0

/-- Fuel that no program run to its end in practice uses up. -/
def ampleFuel : Nat := Nat.pow 2 62

/-- Binds a native in the global scope. -/
def bind (s : Session) (n : Native) : Session :=
  ⟨{ s.machine with scopes := s.machine.scopes.define global n.name (.native n) }⟩

/-- A session with the named built-in natives; names that are not built in are passed over.  `room`
limits the bytes that it can write. -/
def start (natives : List String) (room : Option Nat) : Session :=
  let machine : Machine := ⟨Scopes.empty.add none, ⟨"", room⟩, [], 0⟩
  let chosen := natives.filterMap fun name => Native.builtins.find? fun n => n.name == name
  chosen.foldl bind ⟨machine⟩

/-- The bindings of the global scope in the byte order of the names. -/
def globals (s : Session) : Bindings Value :=
  s.machine.scopes.snapshot global

/-- How often each host function was called; functions that were not called are left out. -/
def hostCalls (s : Session) : List (String × Nat) :=
  s.machine.hostCalls.eraseDups.map fun name => (name, s.machine.hostCalls.count name)

/-- The value of a statement at the top level, where giving a value back ends the statement. -/
def flowValue : Flow → Value
  | .next v => v
  | .giveBack v => v

/-- Executes a statement in the global scope; `output` is what it wrote. -/
def execute (fuel : Nat) (s : Session) (stmt : Stmt) : StatementResult × Session :=
  let fresh := { s.machine with output := ⟨"", s.machine.output.room⟩ }
  let (outcome, machine) := Eval.statement fuel global stmt fresh
  (⟨stmt, outcome.map flowValue, machine.output.text⟩, ⟨machine⟩)

/-- The text that shows the value of an expression statement, if there is something to show. -/
def echo? (r : StatementResult) : Option String :=
  match r.statement, r.outcome with
  | .expression _ _, .ok v => if v.isNil then none else some (v.text ++ "\n")
  | _, _ => none

/-- Writes the value of an expression statement behind what the statement wrote, if there is room
for it. -/
def echo (r : StatementResult) (s : Session) : StatementResult × Session :=
  match (echo? r).filter s.machine.output.hasRoom with
  | some text =>
    let output := s.machine.output.append text
    ({ r with output := output.text }, ⟨{ s.machine with output }⟩)
  | none => (r, s)

/-- Executes statements one after the other in the global scope. -/
def executeAll (fuel : Nat) (echoing : Bool) (s : Session) :
    List Stmt → List StatementResult × Session
  | [] => ([], s)
  | stmt :: rest =>
    let (r, s) := execute fuel s stmt
    let (r, s) := if echoing then echo r s else (r, s)
    let (rs, s) := executeAll fuel echoing s rest
    (r :: rs, s)

/-- Runs a program; with `echoing` the values of expression statements are written too. -/
def run (fuel : Nat) (echoing : Bool) (s : Session) (p : Program) :
    List StatementResult × Session :=
  executeAll fuel echoing s p.body

end Session

end Lox

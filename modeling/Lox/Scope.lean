import Lox.Text.Utf8

/-!
# Scopes

A store of scopes.  Each scope binds names to values and may lie in a parent scope that was made
before it, so that every chain of parents ends.  Scopes are known by the number under which they
were made, and a change to a scope shows in every scope that reaches it through its parents.
-/

namespace Lox

/-- The bindings of one scope, each name once, in the order in which they were first made. -/
abbrev Bindings (α : Type) := List (String × α)

namespace Bindings

variable {α : Type}

/-- Binds a name, in place of its earlier binding if it has one. -/
def insert (name : String) (value : α) : Bindings α → Bindings α
  | [] => [(name, value)]
  | (n, v) :: rest => if n = name then (name, value) :: rest else (n, v) :: insert name value rest

/-- The value that a name is bound to. -/
def find? (name : String) : Bindings α → Option α
  | [] => none
  | (n, v) :: rest => if n = name then some v else find? name rest

/-- The bindings in the byte order of their names. -/
def sorted (b : Bindings α) : Bindings α :=
  b.mergeSort fun x y => Text.Utf8.le x.1 y.1

end Bindings

/-- The number of a scope in a store. -/
abbrev ScopeId := Nat

/-- One scope. -/
structure Scope (α : Type) where
  parent : Option ScopeId
  bindings : Bindings α

/-- A store of scopes; the parent of a scope was made before it. -/
structure Scopes (α : Type) where
  scopes : Array (Scope α)
  parent_lt : ∀ (i : Nat) (s : Scope α) (p : ScopeId),
    scopes[i]? = some s → s.parent = some p → p < i

namespace Scopes

variable {α : Type}

/-- The store without scopes. -/
def empty : Scopes α where
  scopes := #[]
  parent_lt := by simp

/-- The number of scopes made so far, which is the number of the next one. -/
def size (s : Scopes α) : Nat := s.scopes.size

/-- Makes a scope without bindings; a parent that is not there counts as none. -/
def add (s : Scopes α) (parent : Option ScopeId) : Scopes α where
  scopes := s.scopes.push ⟨parent.filter (· < s.size), []⟩
  parent_lt := by
    intro i scope p hi hp
    rw [Array.getElem?_push] at hi
    split at hi
    · cases hi
      simp only [Option.filter_eq_some_iff, decide_eq_true_eq] at hp
      simpa [size, *] using hp.2
    · exact s.parent_lt i scope p hi hp

/-- The parent of a scope. -/
def parent? (s : Scopes α) (id : ScopeId) : Option ScopeId :=
  s.scopes[id]? >>= Scope.parent

/-- The bindings of a scope. -/
def bindings (s : Scopes α) (id : ScopeId) : Bindings α :=
  ((s.scopes[id]?).map Scope.bindings).getD []

/-- The scope itself binds the name. -/
def has (s : Scopes α) (id : ScopeId) (name : String) : Bool :=
  ((s.bindings id).find? name).isSome

/-- Binds a name in a scope. -/
def define (s : Scopes α) (id : ScopeId) (name : String) (value : α) : Scopes α where
  scopes := s.scopes.modify id fun scope =>
    { scope with bindings := scope.bindings.insert name value }
  parent_lt := by
    intro i scope p hi hp
    rw [Array.getElem?_modify] at hi
    split at hi
    · obtain ⟨old, hold, rfl⟩ := Option.map_eq_some_iff.1 hi
      exact s.parent_lt i old p hold hp
    · exact s.parent_lt i scope p hi hp

/-- The first scope on the way out from `id` that binds the name, among `bound` scopes. -/
def ownerWithin (s : Scopes α) (name : String) : (bound : Nat) → ScopeId → Option ScopeId
  | 0, _ => none
  | bound + 1, id =>
    if s.has id name then some id
    else match s.parent? id with
      | some p => s.ownerWithin name bound p
      | none => none

/-- The first scope on the way out from `id` that binds the name.  Parents have smaller numbers,
so there are at most `id + 1` scopes on the way. -/
def owner? (s : Scopes α) (id : ScopeId) (name : String) : Option ScopeId :=
  s.ownerWithin name (id + 1) id

/-- The value of a name as seen from a scope. -/
def get? (s : Scopes α) (id : ScopeId) (name : String) : Option α :=
  s.owner? id name >>= fun owner => (s.bindings owner).find? name

/-- Gives a name a new value where it is bound as seen from a scope; none if it is not bound. -/
def assign? (s : Scopes α) (id : ScopeId) (name : String) (value : α) : Option (Scopes α) :=
  (s.owner? id name).map fun owner => s.define owner name value

/-- The number of scopes around a scope, at most `bound`. -/
def depthWithin (s : Scopes α) : (bound : Nat) → ScopeId → Nat
  | 0, _ => 0
  | bound + 1, id =>
    match s.parent? id with
    | some p => s.depthWithin bound p + 1
    | none => 0

/-- The number of scopes around a scope. -/
def depth (s : Scopes α) (id : ScopeId) : Nat :=
  s.depthWithin (id + 1) id

/-- A copy of the bindings of a scope, in the byte order of the names. -/
def snapshot (s : Scopes α) (id : ScopeId) : Bindings α :=
  (s.bindings id).sorted

/-- The names that a scope binds, in byte order. -/
def keys (s : Scopes α) (id : ScopeId) : List String :=
  (s.snapshot id).map Prod.fst

end Scopes

end Lox

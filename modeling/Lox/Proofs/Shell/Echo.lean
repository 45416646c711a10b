import Lox.Proofs.Erasure.Session
import Lox.Proofs.Machine.Induction

/-!
# Echoing

Where there is room for all that is written, showing the values of expression statements has no
influence on the statements that come after: with echoing a program has the same results, and the
texts of the values stand behind what their statements wrote (`Session.executeAll_echoing`).
-/

namespace Lox

namespace Eval

/-- Where the room for output is not limited, it is not limited afterwards. -/
def Unlimiting {α : Type} (x : ScopeId → Eval α) : Prop :=
  ∀ scope m, m.output.room = none → (x scope m).2.output.room = none

variable {α β : Type}

theorem unlimiting_of_output {x : ScopeId → Eval α}
    (h : ∀ scope m, (x scope m).2.output = m.output) : Unlimiting x :=
  fun scope m hm => by rw [h, hm]

theorem Unlimiting.bind {x : ScopeId → Eval α} {f : α → ScopeId → Eval β} (hx : Unlimiting x)
    (hf : ∀ a, Unlimiting (f a)) : Unlimiting fun scope => x scope >>= fun a => f a scope := by
  intro scope m hm
  have hroom := hx scope m hm
  show (Eval.andThen (x scope) (fun a => f a scope) m).2.output.room = none
  unfold Eval.andThen
  split
  · rename_i a m₁ hrun
    rw [hrun] at hroom
    exact hf a scope m₁ hroom
  · rename_i stop m₁ hrun
    rwa [hrun] at hroom

theorem unlimiting_assign (line : Int) (x : String) (v : Value) :
    Unlimiting fun scope => assign line scope x v :=
  unlimiting_of_output fun scope m => by
    unfold assign
    split <;> rfl

theorem unlimiting_write (refused : String → Failure) (s : String) :
    Unlimiting fun _ => write refused s := by
  intro scope m hm
  simp only [write]
  split
  · show m.output.room.map _ = none
    rw [hm, Option.map_none]
  · exact hm

theorem inductive_unlimiting : Inductive fun _ _ x => Unlimiting x where
  mono h _ := h
  bind := Unlimiting.bind
  extend hbody scope m hm := hbody m.scopes.size { m with scopes := m.scopes.add (some scope) } hm
  pure _ := unlimiting_of_output fun _ _ => rfl
  stop _ := unlimiting_of_output fun _ _ => rfl
  lookup _ := unlimiting_of_output fun _ _ => rfl
  define _ _ := unlimiting_of_output fun _ _ => rfl
  assign := unlimiting_assign
  newFunction _ _ _ := unlimiting_of_output fun _ _ => rfl
  write := unlimiting_write
  noteCall _ := unlimiting_of_output fun _ _ => rfl

end Eval

namespace Session

variable {s s' : Session} {r : StatementResult}

/-- There is room for all that the session writes. -/
def Unlimited (s : Session) : Prop := s.machine.output.room = none

theorem unlimited_start (natives : List String) : (start natives none).Unlimited := by
  refine List.foldlRecOn (motive := Unlimited) _ bind ?_ fun s hs n _ => ?_
  · exact rfl
  · exact hs

theorem Unlimited.execute (h : s.Unlimited) (fuel : Nat) (stmt : Stmt) :
    (s.execute fuel stmt).2.Unlimited :=
  (Eval.inductive_unlimiting.evaluated fuel).statement stmt global s.fresh h

/-- The result with the text that shows it behind what the statement wrote. -/
def echoed (r : StatementResult) : StatementResult :=
  { r with output := r.output ++ (echo? r).getD "" }

theorem Unlimited.echo_eq (h : s.Unlimited) (hr : r.output = s.machine.output.text) :
    (echo r s).1 = echoed r ∧ (echo r s).2.fresh = s.fresh ∧ (echo r s).2.Unlimited := by
  have hroom : s.machine.output.room = none := h
  have hfits : s.machine.output.hasRoom = fun _ => true := by
    funext text
    rw [Output.hasRoom, hroom]
  unfold echo echoed
  rw [hfits]
  cases hecho : echo? r with
  | none => exact ⟨by rw [Option.getD_none, String.append_empty]; rfl, rfl, h⟩
  | some text =>
    simp only [Option.filter, if_true, Option.getD_some, Output.append, hroom, Option.map_none]
    exact ⟨by rw [hr], by simp only [fresh, hroom], rfl⟩

/-- Statements that follow on each other do not see what was echoed. -/
theorem executeAll_echoing (fuel : Nat) {ss : List Stmt} (hs : s.Unlimited)
    (hfresh : s.fresh = s'.fresh) :
    (executeAll fuel true s ss).1 = (executeAll fuel false s' ss).1.map echoed := by
  -- The sessions differ in the text of the output at most, which every statement starts anew.
  induction ss generalizing s s' with
  | nil => rfl
  | cons stmt ss ih =>
    have hsame : s.execute fuel stmt = s'.execute fuel stmt := by
      rw [execute_eq, execute_eq, hfresh]
    obtain ⟨hresult, hleft, hroom⟩ :=
      (hs.execute fuel stmt).echo_eq (r := (s.execute fuel stmt).1) rfl
    rw [executeAll_cons, executeAll_cons, List.map_cons, ← hsame]
    exact List.cons_eq_cons.mpr ⟨hresult, ih hroom hleft⟩

end Session

end Lox

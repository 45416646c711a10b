import Lox.Grammar.Complaint

/-!
# Reading tokens

A rule of the grammar looks at a list of tokens and either makes something of the tokens at its
front or gets stuck.  In both cases it says how many tokens it went past, so what it works on is
always the front of the list and what comes next is the list with that many tokens dropped.  The
end of the input is the end of the list.

The combinators hand the rest of the list on together with the fact that it is no longer than what
was there before, and these facts carry the termination of the rules.
-/

namespace Lox

/-- What a rule makes of the tokens in front of it. -/
inductive Reading (α : Type) where
  /-- The rule took `taken` tokens and made `result` of them. -/
  | made (result : α) (taken : Nat)
  /-- The rule got stuck after `passed` tokens. -/
  | stuck (complaint : Complaint) (passed : Nat)

namespace Reading

variable {α β : Type}

/-- A result that takes no further token. -/
def done (result : α) : Reading α := made result 0

/-- The reading of a rule that starts `n` tokens further on. -/
def shift (n : Nat) : Reading α → Reading α
  | made result taken => made result (n + taken)
  | stuck complaint passed => stuck complaint (n + passed)

/-- A reading with its result changed. -/
def map (f : α → β) : Reading α → Reading β
  | made result taken => made (f result) taken
  | stuck complaint passed => stuck complaint passed

/-- Goes on behind the tokens of `ts` that a reading took. -/
def andThen (r : Reading α) (ts : List Token)
    (f : α → (rest : List Token) → rest.length ≤ ts.length → Reading β) : Reading β :=
  match r with
  | made result taken =>
    (f result (ts.drop taken) (by simp only [List.length_drop]; omega)).shift taken
  | stuck complaint passed => stuck complaint passed

/-- Goes on behind the tokens that a reading took of a list with the tail `tail`, and behind the
first token in any case. -/
def past (r : Reading α) (tail : List Token)
    (f : α → (rest : List Token) → rest.length ≤ tail.length → Reading β) : Reading β :=
  match r with
  | made result taken =>
    (f result (tail.drop (taken - 1)) (by simp only [List.length_drop]; omega)).shift (max 1 taken)
  | stuck complaint passed => stuck complaint passed

/-- Takes a token of a certain kind and goes on behind it. -/
def take (kind : Token.Kind) (place : Place) (ts : List Token)
    (f : Token → (rest : List Token) → rest.length < ts.length → Reading β) : Reading β :=
  match ts with
  | [] => stuck ⟨.missing kind place, none⟩ 0
  | t :: rest =>
    if t.kind = kind then (f t rest (Nat.lt_succ_self _)).shift 1
    else stuck ⟨.missing kind place, some t⟩ 0

/-- Takes a token of a certain kind with nothing behind it. -/
def close (kind : Token.Kind) (place : Place) (ts : List Token) (result : α) : Reading α :=
  take kind place ts fun _ _ _ => done result

end Reading

/-- The first token of a list is of a certain kind. -/
def startsWith (kind : Token.Kind) : List Token → Bool
  | [] => false
  | t :: _ => t.kind == kind

end Lox

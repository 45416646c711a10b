import Lox.Grammar.Complaint
import Lox.Tree.Outline

/-!
# Places in tokens and trees

The lines in a tree and the offset and line of a token say where something stands; they serve
messages only.  `renumber f` puts `f n` in the place of every such number `n`.  With a constant `f`
it erases them, so two trees with the same bare form are equal up to their lines.
-/

namespace Lox

/-! ## Renumbering -/

mutual

/-- An expression with other lines. -/
def Expr.renumber (f : Int → Int) : Expr → Expr
  | .number l x => .number (f l) x
  | .string l s => .string (f l) s
  | .bool l b => .bool (f l) b
  | .nil l => .nil (f l)
  | .name l x => .name (f l) x
  | .unary l op operand => .unary (f l) op (operand.renumber f)
  | .binary l op left right => .binary (f l) op (left.renumber f) (right.renumber f)
  | .logical l op left right => .logical (f l) op (left.renumber f) (right.renumber f)
  | .group l inner => .group (f l) (inner.renumber f)
  | .assign l x value => .assign (f l) x (value.renumber f)
  | .call l g args => .call (f l) g (Expr.renumberAll f args)

/-- Expressions with other lines. -/
def Expr.renumberAll (f : Int → Int) : List Expr → List Expr
  | [] => []
  | e :: es => e.renumber f :: Expr.renumberAll f es

end

mutual

/-- A statement with other lines. -/
def Stmt.renumber (f : Int → Int) : Stmt → Stmt
  | .expression l value => .expression (f l) (value.renumber f)
  | .print l value => .print (f l) (value.renumber f)
  | .declare l x initializer => .declare (f l) x (initializer.map (Expr.renumber f))
  | .function l g params bodyLine body =>
    .function (f l) g params (f bodyLine) (Stmt.renumberAll f body)
  | .block l body => .block (f l) (Stmt.renumberAll f body)
  | .ifThen l test yes => .ifThen (f l) (test.renumber f) (yes.renumber f)
  | .ifElse l test yes no => .ifElse (f l) (test.renumber f) (yes.renumber f) (no.renumber f)
  | .loop l test body => .loop (f l) (test.renumber f) (body.renumber f)
  | .giveBack l value => .giveBack (f l) (value.map (Expr.renumber f))

/-- Statements with other lines. -/
def Stmt.renumberAll (f : Int → Int) : List Stmt → List Stmt
  | [] => []
  | s :: ss => s.renumber f :: Stmt.renumberAll f ss

end

/-- A program with other lines. -/
def Program.renumber (f : Int → Int) (p : Program) : Program :=
  ⟨f p.line, Stmt.renumberAll f p.body⟩

/-- A token at another place. -/
def Token.renumber (f : Int → Int) (t : Token) : Token :=
  { t with offset := f t.offset, line := f t.line }

/-- A complaint about a token at another place. -/
def Complaint.renumber (f : Int → Int) (c : Complaint) : Complaint :=
  { c with token? := c.token?.map (Token.renumber f) }

variable (f : Int → Int)

theorem Expr.renumberAll_eq_map (es : List Expr) :
    Expr.renumberAll f es = es.map (Expr.renumber f) := by
  induction es with
  | nil => rfl
  | cons e es ih => rw [Expr.renumberAll, ih, List.map_cons]

theorem Stmt.renumberAll_eq_map (ss : List Stmt) :
    Stmt.renumberAll f ss = ss.map (Stmt.renumber f) := by
  induction ss with
  | nil => rfl
  | cons s ss ih => rw [Stmt.renumberAll, ih, List.map_cons]

@[simp] theorem Expr.line_renumber (e : Expr) : (e.renumber f).line = f e.line := by
  cases e <;> rfl

/-! ## Outlines -/

mutual

/-- An outline shows no lines. -/
@[simp] theorem Expr.outline_renumber : (e : Expr) → (e.renumber f).outline = e.outline
  | .number _ _ | .string _ _ | .bool _ _ | .nil _ | .name _ _ => rfl
  | .unary _ _ operand => by rw [Expr.renumber, Expr.outline, operand.outline_renumber]; rfl
  | .binary _ _ left right | .logical _ _ left right => by
    rw [Expr.renumber, Expr.outline, left.outline_renumber, right.outline_renumber]; rfl
  | .group _ inner => by rw [Expr.renumber, Expr.outline, inner.outline_renumber]; rfl
  | .assign _ _ value => by rw [Expr.renumber, Expr.outline, value.outline_renumber]; rfl
  | .call _ _ args => by rw [Expr.renumber, Expr.outline, Expr.outlines_renumberAll args]; rfl

theorem Expr.outlines_renumberAll :
    (es : List Expr) → Expr.outlines (Expr.renumberAll f es) = Expr.outlines es
  | [] => rfl
  | e :: es => by
    rw [Expr.renumberAll, Expr.outlines, e.outline_renumber, Expr.outlines_renumberAll es]; rfl

end

theorem Expr.outline_renumber_option (e : Option Expr) :
    (e.map (Expr.renumber f)).map Expr.outline = e.map Expr.outline := by
  cases e with
  | none => rfl
  | some e => rw [Option.map_some, Option.map_some, e.outline_renumber]; rfl

mutual

@[simp] theorem Stmt.outline_renumber : (s : Stmt) → (s.renumber f).outline = s.outline
  | .expression _ value | .print _ value => by
    rw [Stmt.renumber, Stmt.outline, value.outline_renumber]; rfl
  | .declare _ _ value | .giveBack _ value => by
    rw [Stmt.renumber, Stmt.outline, Expr.outline_renumber_option]; rfl
  | .function _ _ _ _ body | .block _ body => by
    rw [Stmt.renumber, Stmt.outline, Stmt.outlines_renumberAll body]; rfl
  | .ifThen _ test yes => by
    rw [Stmt.renumber, Stmt.outline, test.outline_renumber, yes.outline_renumber]; rfl
  | .ifElse _ test yes no => by
    rw [Stmt.renumber, Stmt.outline, test.outline_renumber, yes.outline_renumber,
      no.outline_renumber]; rfl
  | .loop _ test body => by
    rw [Stmt.renumber, Stmt.outline, test.outline_renumber, body.outline_renumber]; rfl

theorem Stmt.outlines_renumberAll :
    (ss : List Stmt) → Stmt.outlines (Stmt.renumberAll f ss) = Stmt.outlines ss
  | [] => rfl
  | s :: ss => by
    rw [Stmt.renumberAll, Stmt.outlines, s.outline_renumber, Stmt.outlines_renumberAll ss]; rfl

end

theorem Program.render_renumber (p : Program) : (p.renumber f).render = p.render := by
  rw [Program.render, Program.outline, Program.renumber, Stmt.outlines_renumberAll]
  rfl

/-! ## The same places -/

mutual

@[simp] theorem Expr.renumber_id : (e : Expr) → e.renumber id = e
  | .number _ _ | .string _ _ | .bool _ _ | .nil _ | .name _ _ => rfl
  | .unary _ _ operand => by rw [Expr.renumber, operand.renumber_id]; rfl
  | .binary _ _ left right => by rw [Expr.renumber, left.renumber_id, right.renumber_id]; rfl
  | .logical _ _ left right => by rw [Expr.renumber, left.renumber_id, right.renumber_id]; rfl
  | .group _ inner => by rw [Expr.renumber, inner.renumber_id]; rfl
  | .assign _ _ value => by rw [Expr.renumber, value.renumber_id]; rfl
  | .call _ _ args => by rw [Expr.renumber, Expr.renumberAll_id args]; rfl

theorem Expr.renumberAll_id : (es : List Expr) → Expr.renumberAll id es = es
  | [] => rfl
  | e :: es => by rw [Expr.renumberAll, e.renumber_id, Expr.renumberAll_id es]

end

theorem Expr.option_renumber_id (e : Option Expr) : e.map (Expr.renumber id) = e := by
  cases e with
  | none => rfl
  | some e => rw [Option.map_some, e.renumber_id]

mutual

@[simp] theorem Stmt.renumber_id : (s : Stmt) → s.renumber id = s
  | .expression _ value => by rw [Stmt.renumber, value.renumber_id]; rfl
  | .print _ value => by rw [Stmt.renumber, value.renumber_id]; rfl
  | .declare _ _ initializer => by rw [Stmt.renumber, Expr.option_renumber_id]; rfl
  | .function _ _ _ _ body => by rw [Stmt.renumber, Stmt.renumberAll_id body]; rfl
  | .block _ body => by rw [Stmt.renumber, Stmt.renumberAll_id body]; rfl
  | .ifThen _ test yes => by rw [Stmt.renumber, test.renumber_id, yes.renumber_id]; rfl
  | .ifElse _ test yes no => by
    rw [Stmt.renumber, test.renumber_id, yes.renumber_id, no.renumber_id]; rfl
  | .loop _ test body => by rw [Stmt.renumber, test.renumber_id, body.renumber_id]; rfl
  | .giveBack _ value => by rw [Stmt.renumber, Expr.option_renumber_id]; rfl

theorem Stmt.renumberAll_id : (ss : List Stmt) → Stmt.renumberAll id ss = ss
  | [] => rfl
  | s :: ss => by rw [Stmt.renumberAll, s.renumber_id, Stmt.renumberAll_id ss]

end

@[simp] theorem Complaint.renumber_id (c : Complaint) : c.renumber id = c := by
  obtain ⟨objection, token?⟩ := c
  cases token? <;> rfl

/-! ## No places -/

/-- An expression without its lines. -/
def Expr.bare : Expr → Expr := Expr.renumber fun _ => 0

/-- A statement without its lines. -/
def Stmt.bare : Stmt → Stmt := Stmt.renumber fun _ => 0

/-- Statements without their lines. -/
def Stmt.bares : List Stmt → List Stmt := Stmt.renumberAll fun _ => 0

/-- A program without its lines. -/
def Program.bare : Program → Program := Program.renumber fun _ => 0

/-- A token without its place. -/
def Token.bare : Token → Token := Token.renumber fun _ => 0

end Lox

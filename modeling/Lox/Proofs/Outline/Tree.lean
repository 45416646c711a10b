import Lox.Proofs.Grammar.Vocabulary
import Lox.Proofs.Lines.Tree
import Lox.Proofs.Outline.Form
import Lox.Proofs.Token.Lexeme

/-!
# Trees as nested lists of words

`Expr.shape` and `Stmt.shape` are what the parenthesised form of a tree says: a nested list that
begins with the heading of the node.  A tree is found again in its shape, lines apart
(`Expr.ofForm_shape`, `Stmt.ofForm_shape`), because the heading and the number of parts tell the
node.  Its names must not be reserved words and its operators must be those of the language; then a
name is never taken for `true`, and `and` is not an operator on numbers.
-/

namespace Lox

open Outline (Form Plain)

/-! ## Names -/

/-- The text is a name as a program can write it. -/
def Token.IsName (x : String) : Prop :=
  Token.Lexeme x.toList (.token .identifier (some (.text x)))

theorem Token.IsName.cases {x : String} (h : Token.IsName x) :
    ∃ c w, x.toList = c :: w ∧ Token.startsName c = true ∧
      (∀ d ∈ w, Token.continuesName d = true) ∧ ∀ k, (x, k) ∉ Token.reservedWords := by
  have hmark : ∀ p ∈ Token.marks, Token.Kind.identifier ≠ p.2 := by decide
  have hword : ∀ p ∈ Token.reservedWords, Token.Kind.identifier ≠ p.2 := by decide
  unfold Token.IsName at h
  generalize hx : x.toList = chars at h
  generalize hcontent : Token.Content.token .identifier (some (.text x)) = content at h
  cases h with
  | mark hk => exact absurd (Token.Content.token.inj hcontent).1 (hmark _ hk)
  | word hk => exact absurd (Token.Content.token.inj hcontent).1 (hword _ hk)
  | @name c w hc hw hwords =>
    have heq : x = String.ofList (c :: w) := by rw [← hx, String.ofList_toList]
    exact ⟨c, w, rfl, Token.startsName_iff.mpr hc,
      fun d hd => Token.continuesName_iff.mpr (hw d hd), heq ▸ hwords⟩
  | string => cases hcontent
  | number => cases hcontent
  | invalidNumber => cases hcontent

theorem Token.IsName.plain {x : String} (h : Token.IsName x) : Plain x.toList := by
  obtain ⟨c, w, hx, hc, hw, -⟩ := h.cases
  have hname : ∀ d : Char, Token.continuesName d = true → Outline.delimiter? d = none := by
    intro d hd
    unfold Outline.delimiter?
    split
    all_goals first
      | exact absurd hd (by decide)
      | rfl
  have hstart : Token.continuesName c = true := by rw [Token.continuesName, hc, Bool.true_or]
  rw [hx]
  refine ⟨Token.isDigit_of_startsName hc, ?_,
    List.forall_mem_cons.mpr ⟨hname c hstart, fun d hd => hname d (hw d hd)⟩⟩
  rintro rfl
  exact absurd hc (by decide)

/-- No name is a reserved word. -/
theorem Token.IsName.ne_word {x s : String} (h : Token.IsName x) {k : Token.Kind}
    (hk : (s, k) ∈ Token.reservedWords) : x ≠ s := by
  obtain ⟨-, -, -, -, -, hwords⟩ := h.cases
  rintro rfl
  exact hwords k hk

/-- What programs can write: names that are lexemes and numbers that are finite and have no
sign. -/
def Vocabulary.written : Vocabulary := ⟨fun _ => True, Token.IsName, Number.Written⟩

/-! ## Trees as nested lists -/

namespace Outline

/-- A list that begins with a word. -/
def Form.headed (head : String) (parts : List Form) : Form := .list (.atom (.word head) :: parts)

end Outline

mutual

/-- What the parenthesised form of an expression says. -/
def Expr.shape : Expr → Form
  | .number _ x => .atom (.number x)
  | .string _ s => .atom (.text s)
  | .bool _ b => .atom (.word (if b then "true" else "false"))
  | .nil _ => .atom (.word "nil")
  | .name _ x => .atom (.word x)
  | .unary _ op operand => .headed op.symbol [operand.shape]
  | .binary _ op left right => .headed op.symbol [left.shape, right.shape]
  | .logical _ op left right => .headed op.symbol [left.shape, right.shape]
  | .group _ inner => .headed "group" [inner.shape]
  | .assign _ x value => .headed "=" [.atom (.word x), value.shape]
  | .call _ f args => .headed "call" (.atom (.word f) :: Expr.shapes args)

/-- What the parenthesised forms of expressions say. -/
def Expr.shapes : List Expr → List Form
  | [] => []
  | e :: es => e.shape :: Expr.shapes es

end

mutual

/-- What the parenthesised form of a statement says. -/
def Stmt.shape : Stmt → Form
  | .expression _ value => .headed "expr" [value.shape]
  | .print _ value => .headed "print" [value.shape]
  | .declare _ x initializer =>
    .headed "var" (.atom (.word x) :: (initializer.map Expr.shape).toList)
  | .function _ f params _ body =>
    .headed "fun" [.atom (.word f), .list (params.map fun x => .atom (.word x)),
      .headed "block" (Stmt.shapes body)]
  | .block _ body => .headed "block" (Stmt.shapes body)
  | .ifThen _ test yes => .headed "if" [test.shape, yes.shape]
  | .ifElse _ test yes no => .headed "if" [test.shape, yes.shape, no.shape]
  | .loop _ test body => .headed "while" [test.shape, body.shape]
  | .giveBack _ value => .headed "return" (value.map Expr.shape).toList

/-- What the parenthesised forms of statements say. -/
def Stmt.shapes : List Stmt → List Form
  | [] => []
  | s :: ss => s.shape :: Stmt.shapes ss

end

/-! ## Nested lists as trees -/

/-- The leaf that a word stands for. -/
def Expr.ofWord (w : String) : Expr :=
  if w = "true" then .bool 0 true
  else if w = "false" then .bool 0 false
  else if w = "nil" then .nil 0
  else .name 0 w

/-- The expression with a heading and parts. -/
def Expr.ofParts : String → List Expr → Option Expr
  | "group", [inner] => some (.group 0 inner)
  | "=", [.name _ x, value] => some (.assign 0 x value)
  | "call", .name _ f :: args => some (.call 0 f args)
  | "and", [left, right] => some (.logical 0 .and left right)
  | "or", [left, right] => some (.logical 0 .or left right)
  | head, [left, right] => some (.binary 0 (.ofSymbol head) left right)
  | head, [operand] => some (.unary 0 (.ofSymbol head) operand)
  | _, _ => none

mutual

/-- The expression that a nested list shows. -/
def Expr.ofForm : Form → Option Expr
  | .atom (.number x) => some (.number 0 x)
  | .atom (.text s) => some (.string 0 s)
  | .atom (.word w) => some (.ofWord w)
  | .list (.atom (.word head) :: parts) => (Expr.ofForms parts).bind (Expr.ofParts head)
  | .list _ => none

/-- The expressions that nested lists show. -/
def Expr.ofForms : List Form → Option (List Expr)
  | [] => some []
  | f :: fs => (Expr.ofForm f).bind fun e => (Expr.ofForms fs).map (e :: ·)

end

/-- The word of a nested list that is just a word. -/
def Outline.Form.word : Form → String
  | .atom (.word w) => w
  | _ => ""

mutual

/-- The statement that a nested list shows. -/
def Stmt.ofForm : Form → Option Stmt
  | .list [.atom (.word "expr"), value] => (Expr.ofForm value).map (.expression 0)
  | .list [.atom (.word "print"), value] => (Expr.ofForm value).map (.print 0)
  | .list [.atom (.word "var"), .atom (.word x)] => some (.declare 0 x none)
  | .list [.atom (.word "var"), .atom (.word x), value] =>
    (Expr.ofForm value).map fun e => .declare 0 x (some e)
  | .list [.atom (.word "fun"), .atom (.word f), .list params, .list (.atom _ :: body)] =>
    (Stmt.ofForms body).map (.function 0 f (params.map Outline.Form.word) 0)
  | .list (.atom (.word "block") :: body) => (Stmt.ofForms body).map (.block 0)
  | .list [.atom (.word "if"), test, yes] =>
    (Expr.ofForm test).bind fun e => (Stmt.ofForm yes).map (.ifThen 0 e)
  | .list [.atom (.word "if"), test, yes, no] =>
    (Expr.ofForm test).bind fun e => (Stmt.ofForm yes).bind fun s =>
      (Stmt.ofForm no).map (.ifElse 0 e s)
  | .list [.atom (.word "while"), test, body] =>
    (Expr.ofForm test).bind fun e => (Stmt.ofForm body).map (.loop 0 e)
  | .list [.atom (.word "return")] => some (.giveBack 0 none)
  | .list [.atom (.word "return"), value] => (Expr.ofForm value).map fun e => .giveBack 0 (some e)
  | _ => none

/-- The statements that nested lists show. -/
def Stmt.ofForms : List Form → Option (List Stmt)
  | [] => some []
  | f :: fs => (Stmt.ofForm f).bind fun s => (Stmt.ofForms fs).map (s :: ·)

end

/-! ## There and back -/

theorem Expr.ofWord_name {x : String} (h : Token.IsName x) : Expr.ofWord x = .name 0 x := by
  have htrue : x ≠ "true" := h.ne_word (k := .trueWord) (by decide)
  have hfalse : x ≠ "false" := h.ne_word (k := .falseWord) (by decide)
  have hnil : x ≠ "nil" := h.ne_word (k := .nilWord) (by decide)
  rw [Expr.ofWord, if_neg htrue, if_neg hfalse, if_neg hnil]

theorem Expr.ofForm_headed (head : String) (parts : List Form) :
    Expr.ofForm (.headed head parts) = (Expr.ofForms parts).bind (Expr.ofParts head) := rfl

theorem Expr.ofForms_cons {f : Form} {fs : List Form} {e : Expr} {es : List Expr}
    (h : Expr.ofForm f = some e) (hs : Expr.ofForms fs = some es) :
    Expr.ofForms (f :: fs) = some (e :: es) := by
  rw [Expr.ofForms, h, hs]
  rfl

theorem Expr.ofParts_unary {op : UnaryOp} (hop : op ∈ UnaryOp.known) (e : Expr) :
    Expr.ofParts op.symbol [e] = some (.unary 0 op e) := by
  simp only [UnaryOp.known, List.mem_cons, List.not_mem_nil, or_false] at hop
  obtain rfl | rfl := hop <;> rfl

theorem Expr.ofParts_binary {op : BinaryOp} (hop : op ∈ BinaryOp.known) (left right : Expr) :
    Expr.ofParts op.symbol [left, right] = some (.binary 0 op left right) := by
  simp only [BinaryOp.known, List.mem_cons, List.not_mem_nil, or_false] at hop
  obtain rfl | rfl | rfl | rfl | rfl | rfl | rfl | rfl | rfl | rfl := hop <;> rfl

theorem Expr.ofParts_logical {op : LogicalOp} (hop : op ∈ LogicalOp.known) (left right : Expr) :
    Expr.ofParts op.symbol [left, right] = some (.logical 0 op left right) := by
  simp only [LogicalOp.known, List.mem_cons, List.not_mem_nil, or_false] at hop
  obtain rfl | rfl := hop <;> rfl

mutual

/-- The shape of an expression shows that expression, lines apart. -/
theorem Expr.ofForm_shape : (e : Expr) → e.Over .written → Expr.ofForm e.shape = some e.bare
  | .number .., _ | .string .., _ | .bool _ true, _ | .bool _ false, _ | .nil _, _ => rfl
  | .name _ _, ⟨_, hx⟩ => congrArg some (Expr.ofWord_name hx)
  | .unary _ _ operand, ⟨_, hop, h⟩ => by
    rw [Expr.shape, ofForm_headed, ofForms_cons (operand.ofForm_shape h) rfl]
    exact ofParts_unary hop _
  | .binary _ _ left right, ⟨_, hop, hleft, hright⟩ => by
    rw [Expr.shape, ofForm_headed, ofForms_cons (left.ofForm_shape hleft)
      (ofForms_cons (right.ofForm_shape hright) rfl)]
    exact ofParts_binary hop _ _
  | .logical _ _ left right, ⟨_, hop, hleft, hright⟩ => by
    rw [Expr.shape, ofForm_headed, ofForms_cons (left.ofForm_shape hleft)
      (ofForms_cons (right.ofForm_shape hright) rfl)]
    exact ofParts_logical hop _ _
  | .group _ inner, ⟨_, h⟩ => by
    rw [Expr.shape, ofForm_headed, ofForms_cons (inner.ofForm_shape h) rfl]
    rfl
  | .assign _ x value, ⟨_, hx, h⟩ => by
    have hname : Expr.ofForm (.atom (.word x)) = some (.name 0 x) :=
      congrArg some (Expr.ofWord_name hx)
    rw [Expr.shape, ofForm_headed, ofForms_cons hname (ofForms_cons (value.ofForm_shape h) rfl)]
    rfl
  | .call _ f args, ⟨_, hf, hargs⟩ => by
    have hname : Expr.ofForm (.atom (.word f)) = some (.name 0 f) :=
      congrArg some (Expr.ofWord_name hf)
    rw [Expr.shape, ofForm_headed, ofForms_cons hname (Expr.ofForms_shapes args hargs)]
    rfl

theorem Expr.ofForms_shapes : (es : List Expr) → Expr.AllOver .written es →
    Expr.ofForms (Expr.shapes es) = some (Expr.renumberAll (fun _ => 0) es)
  | [], _ => rfl
  | e :: es, ⟨h, hs⟩ => Expr.ofForms_cons (e.ofForm_shape h) (Expr.ofForms_shapes es hs)

end

theorem Outline.Form.map_word (xs : List String) :
    (xs.map fun x => Form.atom (.word x)).map Outline.Form.word = xs := by
  rw [List.map_map]
  exact List.map_id' xs

mutual

/-- The shape of a statement shows that statement, lines apart. -/
theorem Stmt.ofForm_shape : (s : Stmt) → s.Over .written → Stmt.ofForm s.shape = some s.bare
  | .expression _ value, ⟨_, h⟩ => by
    rw [Stmt.shape, Outline.Form.headed, Stmt.ofForm, value.ofForm_shape h]
    rfl
  | .print _ value, ⟨_, h⟩ => by
    rw [Stmt.shape, Outline.Form.headed, Stmt.ofForm, value.ofForm_shape h]
    rfl
  | .declare _ _ none, _ => rfl
  | .declare _ _ (some value), ⟨_, _, h⟩ => by
    have hvalue := value.ofForm_shape (h value rfl)
    show (Expr.ofForm value.shape).map _ = _
    rw [hvalue]
    rfl
  | .function _ _ params _ body, ⟨_, _, _, _, h⟩ => by
    have hbody := Stmt.ofForms_shapes body h
    show (Stmt.ofForms (Stmt.shapes body)).map _ = _
    rw [hbody, Outline.Form.map_word]
    rfl
  | .block _ body, ⟨_, h⟩ => by
    have hbody := Stmt.ofForms_shapes body h
    rw [Stmt.shape, Outline.Form.headed, Stmt.ofForm, hbody]
    rfl
  | .ifThen _ test yes, ⟨_, htest, hyes⟩ => by
    show (Expr.ofForm test.shape).bind _ = _
    rw [test.ofForm_shape htest, Option.bind_some, yes.ofForm_shape hyes]
    rfl
  | .ifElse _ test yes no, ⟨_, htest, hyes, hno⟩ => by
    show (Expr.ofForm test.shape).bind _ = _
    rw [test.ofForm_shape htest, Option.bind_some, yes.ofForm_shape hyes, Option.bind_some,
      no.ofForm_shape hno]
    rfl
  | .loop _ test body, ⟨_, htest, hbody⟩ => by
    show (Expr.ofForm test.shape).bind _ = _
    rw [test.ofForm_shape htest, Option.bind_some, body.ofForm_shape hbody]
    rfl
  | .giveBack _ none, _ => rfl
  | .giveBack _ (some value), ⟨_, h⟩ => by
    have hvalue := value.ofForm_shape (h value rfl)
    show (Expr.ofForm value.shape).map _ = _
    rw [hvalue]
    rfl

theorem Stmt.ofForms_shapes : (ss : List Stmt) → Stmt.AllOver .written ss →
    Stmt.ofForms (Stmt.shapes ss) = some (Stmt.bares ss)
  | [], _ => rfl
  | s :: ss, ⟨h, hs⟩ => by
    rw [Stmt.shapes, Stmt.ofForms, s.ofForm_shape h, Option.bind_some, Stmt.ofForms_shapes ss hs]
    rfl

end

end Lox

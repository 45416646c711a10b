import Lox.Grammar.Expression

/-!
# The grammar of statements

```text
declaration = "var" NAME ("=" expression)? ";"
            | "fun" NAME "(" (NAME ("," NAME)*)? ")" "{" declaration* "}"
            | statement
statement   = "print" expression ";"
            | "if" "(" expression ")" statement ("else" statement)?
            | "while" "(" expression ")" statement
            | "for" "(" (";" | variable | expression ";") expression? ";" expression? ")" statement
            | "return" expression? ";"
            | "{" declaration* "}"
            | expression ";"
```

An `else` belongs to the nearest `if`.  A `for` stands for a block with its first clause and a
loop, and every node that it adds has its line.
-/

namespace Lox

/-- The block that a `for` stands for: the first clause, then a loop whose body ends with the last
clause.  Without a condition the loop runs on. -/
def Stmt.forLoop (line : Int) (start : Option Stmt) (condition step : Option Expr) (body : Stmt) :
    Stmt :=
  let body := match step with
    | some e => .block line [body, .expression line e]
    | none => body
  .block line (start.toList ++ [.loop line (condition.getD (.bool line true)) body])

namespace Grammar

open Reading

/-- An expression with the semicolon after it. -/
def expressionStatement (ts : List Token) : Reading Stmt :=
  (expression ts).andThen ts fun value rest _ =>
    close .semicolon .afterExpression rest (.expression ((ts.head?.map Token.line).getD 0) value)

/-- The value of a `print` with the semicolon after it. -/
def printed (line : Int) (ts : List Token) : Reading Stmt :=
  (expression ts).andThen ts fun value rest _ =>
    close .semicolon .afterValue rest (.print line value)

/-- A variable declaration behind its keyword. -/
def declared (line : Int) (ts : List Token) : Reading Stmt :=
  take .identifier .afterVar ts fun name rest _ =>
    match rest with
    | [] => close .semicolon .afterDeclaration [] (.declare line name.lexeme none)
    | t :: rest =>
      if t.kind = .equal then
        ((expression rest).andThen rest fun value rest _ =>
          close .semicolon .afterDeclaration rest
            (.declare line name.lexeme (some value))).shift 1
      else close .semicolon .afterDeclaration (t :: rest) (.declare line name.lexeme none)

/-- An expression that may be missing, with the token that ends it. -/
def optional (stop : Token.Kind) (place : Place) (ts : List Token) : Reading (Option Expr) :=
  if startsWith stop ts then made none 1
  else (expression ts).andThen ts fun value rest _ => close stop place rest (some value)

/-- A `return` behind its keyword. -/
def givenBack (line : Int) (ts : List Token) : Reading Stmt :=
  (optional .semicolon .afterReturnValue ts).map (.giveBack line)

/-- The condition of an `if` or a `while`, in parentheses. -/
def condition (before behind : Place) (ts : List Token) : Reading Expr :=
  take .leftParen before ts fun _ rest _ =>
    (expression rest).andThen rest fun value rest _ => close .rightParen behind rest value

/-- The first clause of a `for`. -/
def forStart (ts : List Token) : Reading (Option Stmt) :=
  match ts with
  | [] => (expressionStatement []).map some
  | t :: rest =>
    match t.kind with
    | .semicolon => made none 1
    | .varWord => ((declared t.line rest).map some).shift 1
    | _ => (expressionStatement (t :: rest)).map some

/-- At least one parameter, with the closing parenthesis. -/
def parameterList : List Token → Reading (List String)
  | [] => stuck ⟨.missing .identifier .asParameter, none⟩ 0
  | [name] =>
    if name.kind = .identifier then
      (close .rightParen .afterParameters [] [name.lexeme]).shift 1
    else stuck ⟨.missing .identifier .asParameter, some name⟩ 0
  | name :: t :: rest =>
    if name.kind = .identifier then
      if t.kind = .comma then ((parameterList rest).map (name.lexeme :: ·)).shift 2
      else (close .rightParen .afterParameters (t :: rest) [name.lexeme]).shift 1
    else stuck ⟨.missing .identifier .asParameter, some name⟩ 0

/-- The parameters of a function, with the closing parenthesis. -/
def parameters (ts : List Token) : Reading (List String) :=
  if startsWith .rightParen ts then made [] 1 else parameterList ts

/-- The name and the parameters of a function, up to the opening brace of its body. -/
def functionHead (ts : List Token) : Reading (String × List String × Int) :=
  take .identifier .afterFun ts fun name rest _ =>
    take .leftParen .afterFunctionName rest fun _ rest _ =>
      (parameters rest).andThen rest fun params rest _ =>
        take .leftBrace .beforeBody rest fun brace _ _ =>
          done (name.lexeme, params.take maxArguments, brace.line)

mutual

/-- A declaration or a statement. -/
def declaration (ts : List Token) : Reading Stmt :=
  match ts with
  | [] => statement []
  | t :: rest =>
    match t.kind with
    | .varWord => (declared t.line rest).shift 1
    | .funWord =>
      ((functionHead rest).andThen rest fun (name, params, bodyLine) rest _ =>
        (blockBody rest).map (.function t.line name params bodyLine)).shift 1
    | _ => statement (t :: rest)
termination_by ts.length * 4 + 1
decreasing_by all_goals (try simp only [List.length_cons] at *); omega

/-- A statement that declares nothing. -/
def statement (ts : List Token) : Reading Stmt :=
  match ts with
  | [] => expressionStatement []
  | t :: rest =>
    match t.kind with
    | .printWord => (printed t.line rest).shift 1
    | .ifWord =>
      ((condition .afterIf .afterIfCondition rest).andThen rest fun test rest _ =>
        (statement rest).andThen rest fun yes rest h =>
          match rest, h with
          | [], _ => done (.ifThen t.line test yes)
          | e :: rest, _ =>
            if e.kind = .elseWord then
              ((statement rest).map (.ifElse t.line test yes)).shift 1
            else done (.ifThen t.line test yes)).shift 1
    | .whileWord =>
      ((condition .afterWhile .afterWhileCondition rest).andThen rest fun test rest _ =>
        (statement rest).map (.loop t.line test)).shift 1
    | .forWord =>
      (take .leftParen .afterFor rest fun _ rest _ =>
        (forStart rest).andThen rest fun start rest _ =>
          (optional .semicolon .afterLoopCondition rest).andThen rest fun test rest _ =>
            (optional .rightParen .afterForClauses rest).andThen rest fun step rest _ =>
              (statement rest).map (Stmt.forLoop t.line start test step)).shift 1
    | .returnWord => (givenBack t.line rest).shift 1
    | .leftBrace => ((blockBody rest).map (.block t.line)).shift 1
    | _ => expressionStatement (t :: rest)
termination_by ts.length * 4
decreasing_by all_goals (try simp only [List.length_cons] at *); omega

/-- The declarations of a block, with the closing brace. -/
def blockBody (ts : List Token) : Reading (List Stmt) :=
  match ts with
  | [] => close .rightBrace .afterBlock [] []
  | t :: rest =>
    if t.kind = .rightBrace then made [] 1
    else
      (declaration (t :: rest)).past rest fun first rest _ => (blockBody rest).map (first :: ·)
termination_by ts.length * 4 + 2
decreasing_by all_goals (try simp only [List.length_cons] at *); omega

end

end Grammar

end Lox

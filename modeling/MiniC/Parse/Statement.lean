import MiniC.Parse.Expression

/-! Reading declarations, statements and programs. -/

namespace MiniC.Parse

def typeWords : List String :=
  ["int", "float", "char", "void", "double", "long", "short", "unsigned", "signed"]

def qualifierWords : List String := ["const", "static", "extern", "register", "volatile", "auto"]

def isTypeWord (t : Token) : Bool :=
  t.kind = .keyword && (typeWords ++ qualifierWords).contains t.text

def startsExpression (t : Token) : Bool :=
  match t.kind with
  | .identifier | .number | .string | .char | .increment | .decrement | .lparen | .ampersand => true
  | .operator => t.text = "+" || t.text = "-" || t.text = "*"
  | .logical => t.text = "!"
  | _ => false

namespace Parser

def typeName : Parser String := do
  let words ← many isTypeWord advance
  return " ".intercalate (words.map (·.text))

def stars : Parser Nat := do
  let ts ← many (·.is .operator "*") advance
  return ts.length

def parameter : Parser Parameter := do
  if !isTypeWord (← current) then fail .parameterType
  else
    let type ← typeName
    let depth ← stars
    let x ← expect .identifier (.parameterName type)
    return ⟨type, x.text, 0 < depth⟩

def parametersOver : List Token → Parser (List Parameter)
  | [] => return []
  | _ :: left => do
    let p ← parameter
    if ← accept .comma then
      let ps ← parametersOver left
      return p :: ps
    else return [p]

def parameters : Parser (List Parameter) := do
  let c ← get
  if c.current.is .keyword "void" && c.next.current.kind = .rparen then
    let _ ← advance
    return []
  else if c.current.kind = .rparen then return []
  else parametersOver (c.current :: c.rest)

def isBlockEnd (t : Token) : Bool := t.kind = .rbrace || t.kind = .eof

def block (stmt : Parser Stmt) : Parser (List Stmt) := do
  let _ ← advance
  let body ← many (!isBlockEnd ·) stmt
  let _ ← expect .rbrace .blockEnd
  return body

def starText (n : Nat) : String := String.ofList (List.replicate n '*')

def function (stmt : Parser Stmt) (type name : String) (depth : Nat) : Parser Stmt := do
  let _ ← advance
  let params ← parameters
  let _ ← expect .rparen .parametersEnd
  if (← current).kind = .lbrace then
    return .function (type ++ starText depth) name params (← block stmt)
  else fail (.functionBody name)

def arrayLength : Parser (Option Number) := do
  if (← current).kind = .number then return some (← number (← advance)) else return none

def arrayPart : Parser (Option (Option Number)) := do
  if ← accept .lbracket then
    let size ← arrayLength
    let _ ← expect .rbracket .sizeEnd
    return some size
  else return none

def initialiser (expr : Parser Expr) : Parser (Option Expr) := do
  if ← accept .assign then return some (← expr) else return none

def variableDeclaration (expr : Parser Expr) (type name : String) (depth : Nat) : Parser Stmt := do
  let size ← arrayPart
  let init ← initialiser expr
  let _ ← expect .semicolon (.declarationEnd size.isSome)
  return .declare ⟨type, name, depth, size.isSome, size.join, init⟩

def declaration (expr : Parser Expr) (stmt : Parser Stmt) : Parser Stmt := do
  let type ← typeName
  let depth ← stars
  let x ← expect .identifier (.variableName type)
  if (← current).kind = .lparen then function stmt type x.text depth
  else variableDeclaration expr type x.text depth

def assignOp (t : Token) : Parser AssignOp :=
  match AssignOp.ofSymbol? t.text with
  | some op => return op
  | none => throw (.noOperator .assign t.text)

def target (expr : Parser Expr) : Parser Target := do
  let x := (← advance).text
  if ← accept .lbracket then return .element x (← index expr) else return .name x

/-- The assignment to a place that has been read. If none follows, the expression at the start is
read instead. -/
def assignment (expr : Parser Expr) (start : Cursor) (place : Target) : Parser Stmt := do
  let t ← current
  if t.kind = .assign || t.kind = .compoundAssign then
    let op ← assignOp (← advance)
    return .assign place op (← expr)
  else
    set start
    return .expr (← expr)

/-- An assignment or an expression. What begins like an assignment and is none is read again from
its start. -/
def simple (expr : Parser Expr) : Parser Stmt := do
  let start ← get
  if start.current.kind = .identifier then assignment expr start (← target expr)
  else return .expr (← expr)

def simpleStatement (expr : Parser Expr) : Parser Stmt := do
  let s ← simple expr
  let _ ← expect .semicolon .statementEnd
  return s

def condition (expr : Parser Expr) (word : String) : Parser Expr := do
  let _ ← expect .lparen (.conditionStart word)
  let e ← expr
  let _ ← expect .rparen (.conditionEnd word)
  return e

def branch (expr : Parser Expr) (stmt : Parser Stmt) : Parser Stmt := do
  let _ ← advance
  let c ← condition expr "if"
  let yes ← stmt
  if ← acceptText .keyword "else" then return .branch c yes (some (← stmt))
  else return .branch c yes none

def whileLoop (expr : Parser Expr) (stmt : Parser Stmt) : Parser Stmt := do
  let _ ← advance
  let c ← condition expr "while"
  return .whileLoop c (← stmt)

def doLoop (expr : Parser Expr) (stmt : Parser Stmt) : Parser Stmt := do
  let _ ← advance
  let body ← stmt
  if ← acceptText .keyword "while" then
    let c ← condition expr "while"
    let _ ← expect .semicolon .doEnd
    return .doLoop body c
  else fail .doCondition

def before {α : Type} (close : Token.Kind) (p : Parser α) : Parser (Option α) := do
  if (← current).kind = close then return none else return some (← p)

def forInit (expr : Parser Expr) (stmt : Parser Stmt) : Parser (Option Stmt) := do
  if ← accept .semicolon then return none
  else if isTypeWord (← current) then return some (← declaration expr stmt)
  else return some (← simpleStatement expr)

def forLoop (expr : Parser Expr) (stmt : Parser Stmt) : Parser Stmt := do
  let _ ← advance
  let _ ← expect .lparen .forStart
  let init ← forInit expr stmt
  let c ← before .semicolon expr
  let _ ← expect .semicolon .forConditionEnd
  let step ← before .rparen (simple expr)
  let _ ← expect .rparen .forEnd
  return .forLoop init c step (← stmt)

def isCaseEnd (t : Token) : Bool := isBlockEnd t || t.is .keyword "case" || t.is .keyword "default"

def labelEnd : Parser Bool := do
  if ← accept .colon then return true else accept .semicolon

def labelled (stmt : Parser Stmt) (cause : Cause) : Parser (List Stmt) := do
  if ← labelEnd then many (!isCaseEnd ·) stmt else fail cause

def sectionsOver (expr : Parser Expr) (stmt : Parser Stmt) :
    List Token → List SwitchCase → Option (List Stmt) →
    Parser (List SwitchCase × Option (List Stmt))
  | [], cases, otherwise => return (cases, otherwise)
  | _ :: left, cases, otherwise => do
    let t ← current
    if isBlockEnd t then return (cases, otherwise)
    else if t.is .keyword "case" then
      let _ ← advance
      let value ← expr
      let body ← labelled stmt .caseColon
      sectionsOver expr stmt left (cases ++ [.mk value body]) otherwise
    else if t.is .keyword "default" then
      if otherwise.isSome then fail .secondDefault
      else
        let _ ← advance
        let body ← labelled stmt .defaultColon
        sectionsOver expr stmt left cases (some body)
    else fail (.noLabel t.text)

def switch (expr : Parser Expr) (stmt : Parser Stmt) : Parser Stmt := do
  let _ ← advance
  let _ ← expect .lparen .switchStart
  if (← current).kind = .rparen then fail .switchTest
  else
    let test ← expr
    let _ ← expect .rparen .switchTestEnd
    let _ ← expect .lbrace .switchBody
    let (cases, otherwise) ← sectionsOver expr stmt (← get).rest [] none
    let _ ← expect .rbrace .switchEnd
    return .switch test cases otherwise

def returnStatement (expr : Parser Expr) : Parser Stmt := do
  let _ ← advance
  let value ← before .semicolon expr
  let _ ← expect .semicolon .returnEnd
  return .ret value

def jump (make : Stmt) : Parser Stmt := do
  let t ← advance
  let _ ← expect .semicolon (.jumpEnd t.text)
  return make

def plainStatement (expr : Parser Expr) (stmt : Parser Stmt) : Parser Stmt := do
  let t ← current
  if t.kind = .lbrace then return .block (← block stmt)
  else if t.kind = .semicolon then
    let _ ← advance
    return .block []
  else if startsExpression t then simpleStatement expr
  else fail (.noStatement t.text)

def worded (expr : Parser Expr) (stmt : Parser Stmt) : List (String × Parser Stmt) :=
  [("if", branch expr stmt), ("while", whileLoop expr stmt), ("do", doLoop expr stmt),
    ("for", forLoop expr stmt), ("switch", switch expr stmt), ("return", returnStatement expr),
    ("break", jump .breakOut), ("continue", jump .continueOn)]

def statementOf (expr : Parser Expr) (stmt : Parser Stmt) : Parser Stmt := do
  let t ← current
  if isTypeWord t then declaration expr stmt
  else if t.kind = .keyword then ((worded expr stmt).lookup t.text).getD (plainStatement expr stmt)
  else plainStatement expr stmt

def statement : Nat → Parser Stmt
  | 0 => tooDeep
  | n + 1 => statementOf (expression n .or) (statement n)

def item (n : Nat) : Parser Stmt := do
  let t ← current
  if t.kind = .preprocessor then
    let _ ← advance
    return .preprocessor t.text
  else statement n

def program (n : Nat) : Parser (List Stmt) := many (·.kind ≠ .eof) (item n)

end Parser

end MiniC.Parse

import MiniC.Number

/-! Syntax trees. An expression has a value, a statement an effect; a program is a sequence of
statements. Literals keep their text as written, quotes included. -/

namespace MiniC

inductive BinaryOp
  | add | sub | mul | div | mod | pow
  | lt | gt | le | ge
  | eq | ne
  | and | or
deriving DecidableEq

inductive UnaryOp
  | neg | pos | not
deriving DecidableEq

inductive UpdateOp
  | inc | dec
deriving DecidableEq

inductive AssignOp
  | set | add | sub | mul | div | mod
deriving DecidableEq

namespace BinaryOp

def all : List BinaryOp := [add, sub, mul, div, mod, pow, lt, gt, le, ge, eq, ne, and, or]

def symbol : BinaryOp → String
  | add => "+" | sub => "-" | mul => "*" | div => "/" | mod => "%" | pow => "^"
  | lt => "<" | gt => ">" | le => "<=" | ge => ">="
  | eq => "==" | ne => "!="
  | and => "&&" | or => "||"

def ofSymbol? (s : String) : Option BinaryOp := all.find? (·.symbol = s)

def isArithmetic : BinaryOp → Bool
  | add | sub | mul | div | mod | pow => true
  | _ => false

theorem ofSymbol?_symbol (op : BinaryOp) : ofSymbol? op.symbol = some op := by cases op <;> rfl

end BinaryOp

namespace UnaryOp

def all : List UnaryOp := [neg, pos, not]

def symbol : UnaryOp → String
  | neg => "-" | pos => "+" | not => "!"

def label : UnaryOp → String
  | neg => "unary_neg" | pos => "unary_pos" | not => "!"

end UnaryOp

namespace UpdateOp

def all : List UpdateOp := [inc, dec]

def symbol : UpdateOp → String
  | inc => "++" | dec => "--"

def ofSymbol? (s : String) : Option UpdateOp := all.find? (·.symbol = s)

theorem ofSymbol?_symbol (op : UpdateOp) : ofSymbol? op.symbol = some op := by cases op <;> rfl

end UpdateOp

namespace AssignOp

def all : List AssignOp := [set, add, sub, mul, div, mod]

def symbol : AssignOp → String
  | set => "=" | add => "+=" | sub => "-=" | mul => "*=" | div => "/=" | mod => "%="

def ofSymbol? (s : String) : Option AssignOp := all.find? (·.symbol = s)

def binary? : AssignOp → Option BinaryOp
  | set => none
  | add => some .add | sub => some .sub | mul => some .mul | div => some .div | mod => some .mod

theorem ofSymbol?_symbol (op : AssignOp) : ofSymbol? op.symbol = some op := by cases op <;> rfl

end AssignOp

/-- An expression. Literals that are not a number equal nothing but themselves; the mark of a
literal says which one it is. -/
inductive Expr
  | number (value : Number) (mark : Nat)
  | string (text : String)
  | char (text : String)
  | name (x : String)
  | binary (op : BinaryOp) (left right : Expr)
  | unary (op : UnaryOp) (operand : Expr)
  | update (op : UpdateOp) (x : String) (before : Bool)
  | addressOf (operand : Expr)
  | deref (operand : Expr)
  | element (array : String) (index : Expr)
  | call (function : String) (args : List Expr)
  | braces (items : List Expr)

inductive Target
  | name (x : String)
  | element (array : String) (index : Expr)

structure Parameter where
  type : String
  name : String
  isPointer : Bool

structure Declaration where
  type : String
  name : String
  stars : Int
  isArray : Bool
  size : Option Number
  init : Option Expr

mutual

inductive Stmt
  | expr (e : Expr)
  | declare (d : Declaration)
  | assign (target : Target) (op : AssignOp) (value : Expr)
  | function (returnType name : String) (params : List Parameter) (body : List Stmt)
  | block (body : List Stmt)
  | branch (condition : Expr) (yes : Stmt) (no : Option Stmt)
  | whileLoop (condition : Expr) (body : Stmt)
  | doLoop (body : Stmt) (condition : Expr)
  | forLoop (init : Option Stmt) (condition : Option Expr) (step : Option Stmt) (body : Stmt)
  | switch (test : Expr) (cases : List SwitchCase) (otherwise : Option (List Stmt))
  | ret (value : Option Expr)
  | breakOut
  | continueOn
  | preprocessor (text : String)

inductive SwitchCase
  | mk (value : Expr) (body : List Stmt)

end

namespace SwitchCase

def value : SwitchCase → Expr
  | mk value _ => value

def body : SwitchCase → List Stmt
  | mk _ body => body

end SwitchCase

inductive Tree
  | program (body : List Stmt)
  | stmt (s : Stmt)
  | switchCase (c : SwitchCase)
  | parameter (p : Parameter)

namespace Target

def arrayOrName : Target → String
  | name x => x
  | element x _ => x

def toExpr : Target → Expr
  | name x => .name x
  | element x i => .element x i

end Target

namespace Declaration

def isPointer (d : Declaration) : Bool := 0 < d.stars

end Declaration

namespace Expr

def form : Expr → String
  | number .. => "NumberLiteral"
  | string _ => "StringLiteral"
  | char _ => "CharLiteral"
  | name _ => "Identifier"
  | binary .. => "BinaryExpr"
  | unary .. => "UnaryExpr"
  | update .. => "UpdateExpr"
  | addressOf _ => "AddressOf"
  | deref _ => "Dereference"
  | element .. => "ArrayAccess"
  | call .. => "FunctionCall"
  | braces _ => "InitializerList"

end Expr

namespace Stmt

def form : Stmt → String
  | expr e => e.form
  | declare _ => "Declaration"
  | assign .. => "Assignment"
  | function .. => "FunctionDef"
  | block _ => "Block"
  | branch .. => "IfStmt"
  | whileLoop .. => "WhileStmt"
  | doLoop .. => "DoWhileStmt"
  | forLoop .. => "ForStmt"
  | switch .. => "SwitchStmt"
  | ret _ => "ReturnStmt"
  | breakOut => "BreakStmt"
  | continueOn => "ContinueStmt"
  | preprocessor _ => "Preprocessor"

end Stmt

namespace Tree

def expr (e : Expr) : Tree := .stmt (.expr e)

def form : Tree → String
  | program _ => "Program"
  | stmt s => s.form
  | switchCase _ => "SwitchCase"
  | parameter _ => "Parameter"

end Tree

end MiniC

import MiniC.Tree

/-! Expressions as text. Operations on two operands are put in parentheses, so that reading the text
again needs no precedence. -/

namespace MiniC

mutual

def Expr.text : Expr → String
  | .number n _ => n.text
  | .string s => s
  | .char s => s
  | .name x => x
  | .binary op l r => "(" ++ l.text ++ " " ++ op.symbol ++ " " ++ r.text ++ ")"
  | .unary op e => op.symbol ++ e.text
  | .update op x before => if before then op.symbol ++ x else x ++ op.symbol
  | .addressOf e => "&" ++ e.text
  | .deref e => "*" ++ e.text
  | .element x i => x ++ "[" ++ i.text ++ "]"
  | .call f args => f ++ "(" ++ Expr.listText args ++ ")"
  | .braces items => "\x7b" ++ Expr.listText items ++ "\x7d"

def Expr.listText : List Expr → String
  | [] => ""
  | e :: es => e.text ++ Expr.tailText es

def Expr.tailText : List Expr → String
  | [] => ""
  | e :: es => ", " ++ e.text ++ Expr.tailText es

end

mutual

def Expr.isWritable : Expr → Bool
  | .number n _ => n.isWritable
  | .string _ | .char _ | .name _ | .update .. => true
  | .binary _ l r => l.isWritable && r.isWritable
  | .unary _ e | .addressOf e | .deref e | .element _ e => e.isWritable
  | .call _ es | .braces es => Expr.areWritable es

def Expr.areWritable : List Expr → Bool
  | [] => true
  | e :: es => e.isWritable && Expr.areWritable es

end

mutual

def Expr.depth : Expr → Nat
  | .number .. | .string _ | .char _ | .name _ | .update .. => 1
  | .binary _ l r => max l.depth r.depth + 1
  | .unary _ e | .addressOf e | .deref e | .element _ e => e.depth + 1
  | .call _ es | .braces es => Expr.listDepth es + 1

def Expr.listDepth : List Expr → Nat
  | [] => 0
  | e :: es => max e.depth (Expr.listDepth es)

end

namespace Expr

def write (e : Expr) : Except Number.Fault String :=
  if e.isWritable then .ok e.text else .error .tooManyDigits

end Expr

namespace Parameter

def text (p : Parameter) : String := p.type ++ (if p.isPointer then "*" else "") ++ " " ++ p.name

end Parameter

namespace Stmt

def write? : Stmt → Option (Except Number.Fault String)
  | expr e => some e.write
  | assign target op value =>
    some do return (← target.toExpr.write) ++ " " ++ op.symbol ++ " " ++ (← value.write)
  | preprocessor s => some (.ok s)
  | _ => none

end Stmt

namespace Tree

def write? : Tree → Option (Except Number.Fault String)
  | stmt s => s.write?
  | parameter p => some (.ok p.text)
  | _ => none

end Tree

end MiniC

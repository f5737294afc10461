import MiniC.Tree.Text

/-! Outlines: a tree as indented lines, two spaces for each level. What lies below the deepest level
shown is cut to one line of dots. -/

namespace MiniC

structure Line where
  depth : Nat
  label : Except Number.Fault String

namespace Line

def text (l : Line) : Except Number.Fault String :=
  l.label.map (String.ofList (List.replicate (2 * l.depth) ' ') ++ ·)

end Line

namespace Outline

def maxDepth : Nat := 200

def line (depth : Nat) (label : String) : Line := ⟨depth, .ok label⟩

def dots (depth : Nat) : List Line := [line depth "..."]

end Outline

open Outline

mutual

def Expr.outline (depth : Nat) (e : Expr) : List Line :=
  if maxDepth < depth then dots depth
  else match e with
    | .number n _ => [⟨depth, n.write.map ("Number: " ++ ·)⟩]
    | .string s => [line depth ("String: " ++ s)]
    | .char s => [line depth ("Char: " ++ s)]
    | .name x => [line depth ("Identifier: " ++ x)]
    | .binary op l r =>
      line depth ("Operation: " ++ op.symbol) :: l.outline (depth + 1) ++ r.outline (depth + 1)
    | .unary op e => line depth ("Operation: " ++ op.label) :: e.outline (depth + 1)
    | .update op x before =>
      [line depth (if before then "Prefix: " ++ op.symbol ++ x else "Postfix: " ++ x ++ op.symbol)]
    | .addressOf e => line depth "Address Of (&)" :: e.outline (depth + 1)
    | .deref e => line depth "Dereference (*)" :: e.outline (depth + 1)
    | .element x i =>
      line depth ("Array Access: " ++ x ++ "[") :: i.outline (depth + 1) ++ [line depth "]"]
    | .call f [] => [line depth ("Function Call: " ++ f ++ "()")]
    | .call f (a :: as) =>
      line depth ("Function Call: " ++ f ++ "(") ::
        (a.outline (depth + 1) ++ Expr.outlines (depth + 1) as) ++ [line depth ")"]
    | .braces items => line depth "Initializer List" :: Expr.outlines (depth + 1) items

def Expr.outlines (depth : Nat) : List Expr → List Line
  | [] => []
  | e :: es => e.outline depth ++ Expr.outlines depth es

end

namespace Outline

def labelled (depth : Nat) (label : String) (e : Option Expr) : List Line :=
  match e with
  | none => []
  | some e => line (depth + 1) label :: e.outline (depth + 2)

def declarationHead (d : Declaration) : Except Number.Fault String := do
  let stars := String.ofList (List.replicate d.stars.toNat '*')
  let head := "Declaration: " ++ d.type ++ stars ++ " " ++ d.name
  if d.isArray then
    match d.size with
    | some n => return head ++ "[" ++ (← n.write) ++ "]"
    | none => return head ++ "[]"
  else return head

def declaration (depth : Nat) (d : Declaration) : List Line :=
  ⟨depth, declarationHead d⟩ :: labelled depth "=" d.init

def assignment (depth : Nat) (target : Target) (op : AssignOp) (value : Expr) : List Line :=
  let mark := if op = .set then "" else " (" ++ op.symbol ++ ")"
  let place := match target with
    | .name _ => none
    | .element x i => some (Expr.element x i)
  line depth ("Assignment" ++ mark ++ ": " ++ target.arrayOrName) ::
    labelled depth "Target:" place ++ labelled depth "Value:" (some value)

def functionHead (type name : String) (params : List Parameter) : String :=
  "Function: " ++ type ++ " " ++ name ++ "(" ++ ", ".intercalate (params.map (·.text)) ++ ")"

end Outline

mutual

def Stmt.outline (depth : Nat) (s : Stmt) : List Line :=
  if maxDepth < depth then dots depth
  else match s with
    | .expr e => e.outline depth
    | .declare d => declaration depth d
    | .assign target op value => assignment depth target op value
    | .function type name params body =>
      line depth (functionHead type name params) ::
        (if maxDepth < depth + 1 then dots (depth + 1)
          else line (depth + 1) "Block" :: Stmt.outlines (depth + 2) body)
    | .block body => line depth "Block" :: Stmt.outlines (depth + 1) body
    | .branch c yes no =>
      line depth "If Statement" :: labelled depth "Condition:" (some c) ++
        line (depth + 1) "Then:" :: yes.outline (depth + 2) ++ Stmt.labelled depth "Else:" no
    | .whileLoop c body =>
      line depth "While Loop" :: labelled depth "Condition:" (some c) ++
        line (depth + 1) "Body:" :: body.outline (depth + 2)
    | .doLoop body c =>
      line depth "Do-While Loop" :: line (depth + 1) "Body:" :: body.outline (depth + 2) ++
        labelled depth "Condition:" (some c)
    | .forLoop init c step body =>
      line depth "For Loop" :: Stmt.labelled depth "Init:" init ++ labelled depth "Condition:" c ++
        Stmt.labelled depth "Increment:" step ++
        line (depth + 1) "Body:" :: body.outline (depth + 2)
    | .switch test cases otherwise =>
      line depth "Switch Statement" :: labelled depth "Expression:" (some test) ++
        SwitchCase.outlines depth 1 cases ++ Stmt.otherwise depth otherwise
    | .ret none => [line depth "Return"]
    | .ret (some e) => line depth "Return" :: e.outline (depth + 1)
    | .breakOut => [line depth "Break"]
    | .continueOn => [line depth "Continue"]
    | .preprocessor s => [line depth ("Preprocessor: " ++ s)]

def Stmt.outlines (depth : Nat) : List Stmt → List Line
  | [] => []
  | s :: ss => s.outline depth ++ Stmt.outlines depth ss

def Stmt.labelled (depth : Nat) (label : String) : Option Stmt → List Line
  | none => []
  | some s => line (depth + 1) label :: s.outline (depth + 2)

def Stmt.otherwise (depth : Nat) : Option (List Stmt) → List Line
  | none => []
  | some ss => line (depth + 1) "Default:" :: Stmt.outlines (depth + 3) ss

def SwitchCase.outlines (depth number : Nat) : List SwitchCase → List Line
  | [] => []
  | .mk value body :: cs =>
    line (depth + 1) s!"Case {number}:" :: value.outline (depth + 2) ++
      Stmt.outlines (depth + 3) body ++
      SwitchCase.outlines depth (number + 1) cs

end

namespace Tree

def outline : Tree → List Line
  | program body => line 0 "Program" :: Stmt.outlines 1 body
  | stmt s => s.outline 0
  | t => [line 0 ("Unknown: " ++ t.form)]

def render (t : Tree) : Except Number.Fault String := do
  return "\n".intercalate (← t.outline.mapM (·.text))

end Tree

end MiniC

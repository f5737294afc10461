import MiniC.Tree

/-! What stands in a tree: the variables that it can write, outside the bodies of the functions it
defines, and the numbers, in these bodies too. A scope says which of both are allowed. -/

namespace MiniC

mutual

def Expr.writes : Expr → List String
  | .update _ x _ => [x]
  | .binary _ l r => l.writes ++ r.writes
  | .unary _ e | .addressOf e | .deref e | .element _ e => e.writes
  | .call _ es | .braces es => Expr.listWrites es
  | _ => []

def Expr.listWrites : List Expr → List String
  | [] => []
  | e :: es => e.writes ++ Expr.listWrites es

end

def Expr.optionWrites : Option Expr → List String
  | none => []
  | some e => e.writes

def Target.writes : Target → List String
  | .name x => [x]
  | .element _ i => i.writes

mutual

/-- The variables that a statement can write: those it declares, assigns to or updates, outside the
bodies of the functions it defines. -/
def Stmt.writes : Stmt → List String
  | .expr e => e.writes
  | .declare d => d.name :: Expr.optionWrites d.init
  | .assign target _ value => target.writes ++ value.writes
  | .block body => Stmt.listWrites body
  | .branch c yes no => c.writes ++ yes.writes ++ Stmt.optionWrites no
  | .whileLoop c body | .doLoop body c => c.writes ++ body.writes
  | .forLoop init c step body =>
    Stmt.optionWrites init ++ Expr.optionWrites c ++ Stmt.optionWrites step ++ body.writes
  | .switch test cases otherwise =>
    test.writes ++ SwitchCase.listWrites cases ++ Stmt.bodyWrites otherwise
  | .ret value => Expr.optionWrites value
  | .function .. | .breakOut | .continueOn | .preprocessor _ => []

def Stmt.listWrites : List Stmt → List String
  | [] => []
  | s :: ss => s.writes ++ Stmt.listWrites ss

def Stmt.optionWrites : Option Stmt → List String
  | none => []
  | some s => s.writes

def Stmt.bodyWrites : Option (List Stmt) → List String
  | none => []
  | some ss => Stmt.listWrites ss

def SwitchCase.listWrites : List SwitchCase → List String
  | [] => []
  | .mk value body :: cs => value.writes ++ Stmt.listWrites body ++ SwitchCase.listWrites cs

end

def Tree.writes : Tree → List String
  | .program body => Stmt.listWrites body
  | .stmt s => s.writes
  | .switchCase _ | .parameter _ => []

mutual

def Expr.numbers : Expr → List Number
  | .number n _ => [n]
  | .binary _ l r => l.numbers ++ r.numbers
  | .unary _ e | .addressOf e | .deref e | .element _ e => e.numbers
  | .call _ es | .braces es => Expr.listNumbers es
  | _ => []

def Expr.listNumbers : List Expr → List Number
  | [] => []
  | e :: es => e.numbers ++ Expr.listNumbers es

end

def Expr.optionNumbers : Option Expr → List Number
  | none => []
  | some e => e.numbers

def Target.numbers : Target → List Number
  | .name _ => []
  | .element _ i => i.numbers

mutual

def Stmt.numbers : Stmt → List Number
  | .expr e => e.numbers
  | .declare d => Expr.optionNumbers d.init
  | .assign target _ value => target.numbers ++ value.numbers
  | .function _ _ _ body | .block body => Stmt.listNumbers body
  | .branch c yes no => c.numbers ++ yes.numbers ++ Stmt.optionNumbers no
  | .whileLoop c body | .doLoop body c => c.numbers ++ body.numbers
  | .forLoop init c step body =>
    Stmt.optionNumbers init ++ Expr.optionNumbers c ++ Stmt.optionNumbers step ++ body.numbers
  | .switch test cases otherwise =>
    test.numbers ++ SwitchCase.listNumbers cases ++ Stmt.bodyNumbers otherwise
  | .ret value => Expr.optionNumbers value
  | .breakOut | .continueOn | .preprocessor _ => []

def Stmt.listNumbers : List Stmt → List Number
  | [] => []
  | s :: ss => s.numbers ++ Stmt.listNumbers ss

def Stmt.optionNumbers : Option Stmt → List Number
  | none => []
  | some s => s.numbers

def Stmt.bodyNumbers : Option (List Stmt) → List Number
  | none => []
  | some ss => Stmt.listNumbers ss

def SwitchCase.listNumbers : List SwitchCase → List Number
  | [] => []
  | .mk value body :: cs => value.numbers ++ Stmt.listNumbers body ++ SwitchCase.listNumbers cs

end

def Tree.numbers : Tree → List Number
  | .program body => Stmt.listNumbers body
  | .stmt s => s.numbers
  | .switchCase _ | .parameter _ => []

structure Scope where
  writes : String → Prop
  numbers : Number → Prop

namespace Scope

variable (S : Scope)

def Covers (writes : List String) (numbers : List Number) : Prop :=
  (∀ x ∈ writes, S.writes x) ∧ ∀ n ∈ numbers, S.numbers n

def expr (e : Expr) : Prop := S.Covers e.writes e.numbers

def exprs (es : List Expr) : Prop := S.Covers (Expr.listWrites es) (Expr.listNumbers es)

def optionExpr (o : Option Expr) : Prop := S.Covers (Expr.optionWrites o) (Expr.optionNumbers o)

def target (t : Target) : Prop := S.Covers t.writes t.numbers

def stmt (s : Stmt) : Prop := S.Covers s.writes s.numbers

def stmts (ss : List Stmt) : Prop := S.Covers (Stmt.listWrites ss) (Stmt.listNumbers ss)

def optionStmt (o : Option Stmt) : Prop := S.Covers (Stmt.optionWrites o) (Stmt.optionNumbers o)

def optionStmts (o : Option (List Stmt)) : Prop := S.Covers (Stmt.bodyWrites o) (Stmt.bodyNumbers o)

def cases (cs : List SwitchCase) : Prop :=
  S.Covers (SwitchCase.listWrites cs) (SwitchCase.listNumbers cs)

def tree (t : Tree) : Prop := S.Covers t.writes t.numbers

def body (ss : List Stmt) : Prop := ∀ n ∈ Stmt.listNumbers ss, S.numbers n

variable {S}

theorem covers_nil : S.Covers [] [] := ⟨by simp, by simp⟩

theorem covers_append {W W' : List String} {N N' : List Number} :
    S.Covers (W ++ W') (N ++ N') ↔ S.Covers W N ∧ S.Covers W' N' := by
  unfold Covers
  rw [List.forall_mem_append, List.forall_mem_append, and_and_and_comm]

theorem covers_cons {x : String} {W : List String} {N : List Number} :
    S.Covers (x :: W) N ↔ S.writes x ∧ S.Covers W N := by
  unfold Covers
  rw [List.forall_mem_cons, and_assoc]

theorem stmts_getD {o : Option (List Stmt)} (h : S.optionStmts o) : S.stmts (o.getD []) := by
  cases o with
  | none => exact covers_nil
  | some ss => exact h

end Scope

end MiniC

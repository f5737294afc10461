import MiniC.Tree.Outline

/-! Outlines are cut off. What lies deeper than the deepest level shown is one line of dots and
nothing else. The name of the array that an assignment writes to is an exception: the element is
shown two levels below the line that names it. Main statement: trees that differ only in what is
hidden, in elements of the same arrays, have the same outline, no line of which is indented further
than three levels below the deepest one. -/

namespace MiniC

namespace Outline

/-- A part of a tree as an outline shows it: an expression or a statement, several of them or one
that may be missing, or the sections of a switch. -/
inductive Part
  | expr (e : Expr)
  | exprs (es : List Expr)
  | optional (e : Option Expr)
  | stmt (s : Stmt)
  | stmts (ss : List Stmt)
  | optionalStmt (s : Option Stmt)
  | cases (number : Nat) (cs : List SwitchCase)
  | otherwise (body : Option (List Stmt))

def Part.outline (depth : Nat) : Part → List Line
  | expr e => e.outline depth
  | exprs es => Expr.outlines depth es
  | optional e => e.elim [] (·.outline depth)
  | stmt s => s.outline depth
  | stmts ss => Stmt.outlines depth ss
  | optionalStmt s => s.elim [] (·.outline depth)
  | cases number cs => SwitchCase.outlines depth number cs
  | otherwise body => Stmt.otherwise depth body

def isLeaf : Expr → Bool
  | .number .. | .string _ | .char _ | .name _ | .update .. => true
  | _ => false

def isLeafStmt : Stmt → Bool
  | .ret none | .breakOut | .continueOn | .preprocessor _ => true
  | _ => false

section

variable (renames : String → String → Prop)

/-- Two parts, shown at a depth, are the same but for what is hidden: subtrees that lie too deep may
be any others. The list has their depths, from the first to the last. Where a hidden element is
assigned to, `renames` says which arrays may stand for which. -/
inductive SameAbove : Nat → Part → Part → List Nat → Prop
  | hidden {d : Nat} {e e' : Expr} : maxDepth < d → SameAbove d (.expr e) (.expr e') [d]
  | leaf {d : Nat} {e : Expr} : d ≤ maxDepth → isLeaf e = true → SameAbove d (.expr e) (.expr e) []
  | binary {d : Nat} {op : BinaryOp} {l l' r r' : Expr} {u v : List Nat} : d ≤ maxDepth →
      SameAbove (d + 1) (.expr l) (.expr l') u → SameAbove (d + 1) (.expr r) (.expr r') v →
      SameAbove d (.expr (.binary op l r)) (.expr (.binary op l' r')) (u ++ v)
  | unary {d : Nat} {op : UnaryOp} {e e' : Expr} {u : List Nat} : d ≤ maxDepth →
      SameAbove (d + 1) (.expr e) (.expr e') u → SameAbove d (.expr (.unary op e))
        (.expr (.unary op e')) u
  | addressOf {d : Nat} {e e' : Expr} {u : List Nat} :
      d ≤ maxDepth → SameAbove (d + 1) (.expr e) (.expr e') u →
      SameAbove d (.expr (.addressOf e)) (.expr (.addressOf e')) u
  | deref {d : Nat} {e e' : Expr} {u : List Nat} :
      d ≤ maxDepth → SameAbove (d + 1) (.expr e) (.expr e') u →
      SameAbove d (.expr (.deref e)) (.expr (.deref e')) u
  | element {d : Nat} {x : String} {i i' : Expr} {u : List Nat} : d ≤ maxDepth →
      SameAbove (d + 1) (.expr i) (.expr i') u → SameAbove d (.expr (.element x i))
        (.expr (.element x i')) u
  | call {d : Nat} {f : String} {es es' : List Expr} {u : List Nat} : d ≤ maxDepth →
      SameAbove (d + 1) (.exprs es) (.exprs es') u → SameAbove d (.expr (.call f es))
        (.expr (.call f es')) u
  | braces {d : Nat} {es es' : List Expr} {u : List Nat} : d ≤ maxDepth →
      SameAbove (d + 1) (.exprs es) (.exprs es') u → SameAbove d (.expr (.braces es))
        (.expr (.braces es')) u
  | nil {d : Nat} : SameAbove d (.exprs []) (.exprs []) []
  | cons {d : Nat} {e e' : Expr} {es es' : List Expr} {u v : List Nat} :
      SameAbove d (.expr e) (.expr e') u →
      SameAbove d (.exprs es) (.exprs es') v → SameAbove d (.exprs (e :: es))
        (.exprs (e' :: es')) (u ++ v)
  | none {d : Nat} : SameAbove d (.optional none) (.optional none) []
  | some {d : Nat} {e e' : Expr} {u : List Nat} : SameAbove d (.expr e) (.expr e') u →
      SameAbove d (.optional (some e)) (.optional (some e')) u
  | hiddenStmt {d : Nat} {s s' : Stmt} : maxDepth < d → SameAbove d (.stmt s) (.stmt s') [d]
  | leafStmt {d : Nat} {s : Stmt} : d ≤ maxDepth → isLeafStmt s = true →
      SameAbove d (.stmt s) (.stmt s) []
  | expr {d : Nat} {e e' : Expr} {u : List Nat} :
      d ≤ maxDepth → SameAbove d (.expr e) (.expr e') u →
      SameAbove d (.stmt (.expr e)) (.stmt (.expr e')) u
  | declare {d : Nat} {x : Declaration} {init : Option Expr} {u : List Nat} : d ≤ maxDepth →
      SameAbove (d + 2) (.optional x.init) (.optional init) u →
      SameAbove d (.stmt (.declare x)) (.stmt (.declare { x with init := init })) u
  | assign {d : Nat} {x : String} {op : AssignOp} {e e' : Expr} {u : List Nat} : d ≤ maxDepth →
      SameAbove (d + 2) (.expr e) (.expr e') u →
      SameAbove d (.stmt (.assign (.name x) op e)) (.stmt (.assign (.name x) op e')) u
  | assignElement {d : Nat} {x x' : String} {op : AssignOp} {i i' e e' : Expr} {u v : List Nat} :
      d ≤ maxDepth → renames x x' →
      SameAbove (d + 2) (.expr (.element x i)) (.expr (.element x' i')) u →
      SameAbove (d + 2) (.expr e) (.expr e') v →
      SameAbove d (.stmt (.assign (.element x i) op e)) (.stmt (.assign (.element x' i') op e'))
        (u ++ v)
  | function {d : Nat} {type f : String} {params : List Parameter} {body body' : List Stmt}
      {u : List Nat} :
      d ≤ maxDepth → SameAbove (d + 1) (.stmt (.block body)) (.stmt (.block body')) u →
      SameAbove d (.stmt (.function type f params body)) (.stmt (.function type f params body')) u
  | block {d : Nat} {body body' : List Stmt} {u : List Nat} : d ≤ maxDepth →
      SameAbove (d + 1) (.stmts body) (.stmts body') u →
      SameAbove d (.stmt (.block body)) (.stmt (.block body')) u
  | branch {d : Nat} {c c' : Expr} {yes yes' : Stmt} {no no' : Option Stmt} {u v w : List Nat} :
      d ≤ maxDepth → SameAbove (d + 2) (.expr c) (.expr c') u →
      SameAbove (d + 2) (.stmt yes) (.stmt yes') v →
      SameAbove (d + 2) (.optionalStmt no) (.optionalStmt no') w →
      SameAbove d (.stmt (.branch c yes no)) (.stmt (.branch c' yes' no')) (u ++ v ++ w)
  | whileLoop {d : Nat} {c c' : Expr} {body body' : Stmt} {u v : List Nat} : d ≤ maxDepth →
      SameAbove (d + 2) (.expr c) (.expr c') u → SameAbove (d + 2) (.stmt body) (.stmt body') v →
      SameAbove d (.stmt (.whileLoop c body)) (.stmt (.whileLoop c' body')) (u ++ v)
  | doLoop {d : Nat} {c c' : Expr} {body body' : Stmt} {u v : List Nat} : d ≤ maxDepth →
      SameAbove (d + 2) (.stmt body) (.stmt body') u → SameAbove (d + 2) (.expr c) (.expr c') v →
      SameAbove d (.stmt (.doLoop body c)) (.stmt (.doLoop body' c')) (u ++ v)
  | forLoop {d : Nat} {init init' step step' : Option Stmt} {c c' : Option Expr} {body body' : Stmt}
      {u v w x : List Nat} :
      d ≤ maxDepth → SameAbove (d + 2) (.optionalStmt init) (.optionalStmt init') u →
      SameAbove (d + 2) (.optional c) (.optional c') v →
      SameAbove (d + 2) (.optionalStmt step) (.optionalStmt step') w →
      SameAbove (d + 2) (.stmt body) (.stmt body') x →
      SameAbove d (.stmt (.forLoop init c step body)) (.stmt (.forLoop init' c' step' body'))
        (u ++ v ++ w ++ x)
  | switch {d : Nat} {test test' : Expr} {cs cs' : List SwitchCase}
      {body body' : Option (List Stmt)} {u v w : List Nat} :
      d ≤ maxDepth → SameAbove (d + 2) (.expr test) (.expr test') u →
      SameAbove d (.cases 1 cs) (.cases 1 cs') v →
      SameAbove d (.otherwise body) (.otherwise body') w →
      SameAbove d (.stmt (.switch test cs body)) (.stmt (.switch test' cs' body')) (u ++ v ++ w)
  | ret {d : Nat} {e e' : Expr} {u : List Nat} :
      d ≤ maxDepth → SameAbove (d + 1) (.expr e) (.expr e') u →
      SameAbove d (.stmt (.ret (some e))) (.stmt (.ret (some e'))) u
  | nilStmts {d : Nat} : SameAbove d (.stmts []) (.stmts []) []
  | consStmts {d : Nat} {s s' : Stmt} {ss ss' : List Stmt} {u v : List Nat} :
      SameAbove d (.stmt s) (.stmt s') u →
      SameAbove d (.stmts ss) (.stmts ss') v →
      SameAbove d (.stmts (s :: ss)) (.stmts (s' :: ss')) (u ++ v)
  | noneStmt {d : Nat} : SameAbove d (.optionalStmt none) (.optionalStmt none) []
  | someStmt {d : Nat} {s s' : Stmt} {u : List Nat} : SameAbove d (.stmt s) (.stmt s') u →
      SameAbove d (.optionalStmt (some s)) (.optionalStmt (some s')) u
  | noCases {d number : Nat} : SameAbove d (.cases number []) (.cases number []) []
  | consCases {d number : Nat} {e e' : Expr} {body body' : List Stmt} {cs cs' : List SwitchCase}
      {u v w : List Nat} :
      d ≤ maxDepth → SameAbove (d + 2) (.expr e) (.expr e') u →
      SameAbove (d + 3) (.stmts body) (.stmts body') v →
      SameAbove d (.cases (number + 1) cs) (.cases (number + 1) cs') w →
      SameAbove d (.cases number (.mk e body :: cs)) (.cases number (.mk e' body' :: cs'))
        (u ++ v ++ w)
  | noDefault {d : Nat} : SameAbove d (.otherwise none) (.otherwise none) []
  | default {d : Nat} {body body' : List Stmt} {u : List Nat} : d ≤ maxDepth →
      SameAbove (d + 3) (.stmts body) (.stmts body') u →
      SameAbove d (.otherwise (some body)) (.otherwise (some body')) u

end

/-! ### The lines of a part -/

def Begins (label : String) : Prop := label.toList.head?.any (fun c => c ≠ ' ' ∧ c ≠ '.') = true

theorem Begins.append {a : String} (h : Begins a) (b : String) : Begins (a ++ b) := by
  rw [Begins, Option.any_eq_true] at h ⊢
  obtain ⟨c, hc, hne⟩ := h
  exact ⟨c, by rw [String.toList_append, List.head?_append, hc, Option.some_or], hne⟩

def Titled (label : Except Number.Fault String) : Prop := ∀ s, label = .ok s → Begins s

theorem titled_ok {label : String} (h : Begins label) : Titled (.ok label) := by
  intro s hs
  cases hs
  exact h

theorem titled_map {a : String} (h : Begins a) (n : Except Number.Fault String) :
    Titled (n.map (a ++ ·)) := by
  intro s hs
  cases n with
  | error e => cases hs
  | ok b =>
    cases hs
    exact h.append b

theorem begins_functionHead (type name : String) (params : List Parameter) :
    Begins (functionHead type name params) := by
  have h : Begins "Function: " := rfl
  exact (((((h.append _).append _).append _).append _).append _).append _

theorem begins_assignment (mark x : String) : Begins ("Assignment" ++ mark ++ ": " ++ x) := by
  have h : Begins "Assignment" := rfl
  exact ((h.append _).append _).append _

theorem begins_update (op : UpdateOp) (x : String) (before : Bool) :
    Begins (if before then "Prefix: " ++ op.symbol ++ x else "Postfix: " ++ x ++ op.symbol) := by
  have hp : Begins "Prefix: " := rfl
  have hq : Begins "Postfix: " := rfl
  cases before with
  | true => exact (hp.append _).append _
  | false => exact (hq.append _).append _

theorem titled_declarationHead (d : Declaration) : Titled (declarationHead d) := by
  have h : Begins "Declaration: " := rfl
  have hstars := (h.append d.type).append (.ofList (List.replicate d.stars.toNat '*'))
  have hhead := (hstars.append " ").append d.name
  intro s hs
  rw [declarationHead] at hs
  split at hs
  · split at hs
    · rename_i n _
      cases hw : n.write with
      | error e => simp [hw, bind, Except.bind] at hs
      | ok w =>
        rw [hw] at hs
        cases hs
        exact ((hhead.append _).append _).append _
    · cases hs
      exact hhead.append _
  · cases hs
    exact hhead

end Outline

def Line.isDots (l : Line) : Bool :=
  match l.label with
  | .ok s => s == "..."
  | .error _ => false

namespace Outline

theorem isDots_titled {d : Nat} {label : Except Number.Fault String} (h : Titled label) :
    Line.isDots ⟨d, label⟩ = false := by
  cases label with
  | error e => rfl
  | ok s =>
    rw [Line.isDots, beq_eq_false_iff_ne]
    intro hs
    subst hs
    have hb : Begins "..." := h _ rfl
    cases hb

/-- Lines that stand no deeper than the cut reaches, whose labels are not indented further, and of
which those of dots have the depths listed. -/
structure Shown (lines : List Line) (cuts : List Nat) : Prop where
  depth_le : ∀ l ∈ lines, l.depth ≤ maxDepth + 3
  label_head : ∀ l ∈ lines, ∀ s, l.label = .ok s → s.toList.head? ≠ some ' '
  dots_eq : lines.filter Line.isDots = cuts.map (line · "...")

namespace Shown

variable {a b : List Line} {u v : List Nat} {d : Nat}

theorem nil : Shown [] [] := ⟨by simp, by simp, rfl⟩

theorem append (ha : Shown a u) (hb : Shown b v) : Shown (a ++ b) (u ++ v) where
  depth_le l hl := (List.mem_append.1 hl).elim (ha.depth_le l) (hb.depth_le l)
  label_head l hl := (List.mem_append.1 hl).elim (ha.label_head l) (hb.label_head l)
  dots_eq := by rw [List.filter_append, ha.dots_eq, hb.dots_eq, List.map_append]

theorem titled {label : Except Number.Fault String} (hd : d ≤ maxDepth + 3) (h : Titled label) :
    Shown [⟨d, label⟩] [] where
  depth_le l hl := by
    rw [List.mem_singleton.1 hl]
    exact hd
  label_head l hl s hs hsp := by
    rw [List.mem_singleton.1 hl] at hs
    have hb := h s hs
    rw [Begins, hsp] at hb
    cases hb
  dots_eq := by simp [isDots_titled h]

theorem cut (hd : d ≤ maxDepth + 3) : Shown (dots d) [d] where
  depth_le l hl := by
    rw [List.mem_singleton.1 hl]
    exact hd
  label_head l hl s hs := by
    rw [List.mem_singleton.1 hl] at hs
    cases hs
    decide
  dots_eq := rfl

theorem under {label : String} (hd : d ≤ maxDepth + 3) (hl : Begins label) (h : Shown a u) :
    Shown (line d label :: a) u :=
  append (titled hd (titled_ok hl)) h

theorem close {label : String} (hd : d ≤ maxDepth + 3) (hl : Begins label) (h : Shown a u) :
    Shown (a ++ [line d label]) u := by
  have hx := append h (titled hd (titled_ok hl))
  rwa [List.append_nil] at hx

theorem labelled (label : String) (hd : d ≤ maxDepth) (hl : Begins label) {e : Option Expr}
    (h : Shown (Part.outline (d + 2) (.optional e)) u) : Shown (Outline.labelled d label e) u := by
  cases e with
  | none => exact h
  | some e => exact under (by omega) hl h

theorem labelledStmt (label : String) (hd : d ≤ maxDepth) (hl : Begins label) {s : Option Stmt}
    (h : Shown (Part.outline (d + 2) (.optionalStmt s)) u) : Shown (Stmt.labelled d label s) u := by
  cases s with
  | none => exact h
  | some s => exact under (by omega) hl h

end Shown

attribute [local simp] Expr.outline Stmt.outline

theorem outline_deep {d : Nat} (h : maxDepth < d) (e : Expr) : e.outline d = dots d := by
  rw [Expr.outline.eq_def, if_pos h]

theorem outline_deep_stmt {d : Nat} (h : maxDepth < d) (s : Stmt) : s.outline d = dots d := by
  rw [Stmt.outline.eq_def, if_pos h]

theorem outline_function {d : Nat} (h : d ≤ maxDepth) (type f : String) (params : List Parameter)
    (body : List Stmt) :
    (Stmt.function type f params body).outline d =
      line d (functionHead type f params) :: (Stmt.block body).outline (d + 1) := by
  rw [Stmt.outline, if_neg (Nat.not_lt.2 h), Stmt.outline]

namespace Shown

variable {a : List Line} {u v w : List Nat} {d : Nat}

section Forms

variable (h : d ≤ maxDepth)
include h

theorem part {label : String} (hl : Begins label) (ha : Shown a u) :
    Shown (line (d + 1) label :: a) u :=
  .under (by omega) hl ha

theorem title {label : String} (hl : Begins label) (ha : Shown a u) : Shown (line d label :: a) u :=
  .under (by omega) hl ha

theorem leaf {e : Expr} (he : isLeaf e = true) : Shown (e.outline d) [] := by
  rw [Expr.outline.eq_def, if_neg (Nat.not_lt.2 h)]
  cases e with
  | number n mark => exact .titled (by omega) (titled_map (by rfl) _)
  | update op x before => exact .title h (begins_update op x before) .nil
  | string s | char s | name s => exact .title h (.append (by rfl) _) .nil
  | _ => cases he

theorem binary {op : BinaryOp} {l r : Expr} (hl : Shown (l.outline (d + 1)) u)
    (hr : Shown (r.outline (d + 1)) v) :
    Shown ((Expr.binary op l r).outline d) (u ++ v) := by
  rw [Expr.outline, if_neg (Nat.not_lt.2 h)]
  exact (Shown.title h (.append (by rfl) _) hl).append hr

theorem element {x : String} {i : Expr} (hi : Shown (i.outline (d + 1)) u) :
    Shown ((Expr.element x i).outline d) u := by
  rw [Expr.outline, if_neg (Nat.not_lt.2 h)]
  exact .close (by omega) rfl (.title h (.append (.append (by rfl) _) _) hi)

theorem call {f : String} {es : List Expr} (hes : Shown (Expr.outlines (d + 1) es) u) :
    Shown ((Expr.call f es).outline d) u := by
  cases es with
  | nil =>
    rw [Expr.outline, if_neg (Nat.not_lt.2 h)]
    exact .title h (.append (.append (by rfl) _) _) hes
  | cons e es =>
    rw [Expr.outline, if_neg (Nat.not_lt.2 h)]
    exact .close (by omega) rfl (.title h (.append (.append (by rfl) _) _) hes)

theorem leafStmt {s : Stmt} (hs : isLeafStmt s = true) : Shown (s.outline d) [] := by
  rw [Stmt.outline.eq_def, if_neg (Nat.not_lt.2 h)]
  cases s with
  | ret value =>
    cases value with
    | none => exact .title h rfl .nil
    | some e => cases hs
  | breakOut | continueOn => exact .title h rfl .nil
  | preprocessor text => exact .title h (.append (by rfl) _) .nil
  | _ => cases hs

theorem declare {x : Declaration} (hx : Shown (Part.outline (d + 2) (.optional x.init)) u) :
    Shown ((Stmt.declare x).outline d) u := by
  rw [Stmt.outline, if_neg (Nat.not_lt.2 h)]
  exact .append (.titled (by omega) (titled_declarationHead x)) (.labelled "=" h rfl hx)

theorem assign {x : String} {op : AssignOp} {e : Expr} (he : Shown (e.outline (d + 2)) u) :
    Shown ((Stmt.assign (.name x) op e).outline d) u := by
  rw [Stmt.outline, if_neg (Nat.not_lt.2 h)]
  exact .title h (begins_assignment _ _) (.part h rfl he)

theorem assignElement {x : String} {op : AssignOp} {i e : Expr}
    (hi : Shown ((Expr.element x i).outline (d + 2)) u) (he : Shown (e.outline (d + 2)) v) :
    Shown ((Stmt.assign (.element x i) op e).outline d) (u ++ v) := by
  rw [Stmt.outline, if_neg (Nat.not_lt.2 h)]
  exact .append (.title h (begins_assignment _ _) (.part h rfl hi)) (.part h rfl he)

theorem branch {e : Expr} {yes : Stmt} {no : Option Stmt} (he : Shown (e.outline (d + 2)) u)
    (hy : Shown (yes.outline (d + 2)) v) (hn : Shown (Part.outline (d + 2) (.optionalStmt no)) w) :
    Shown ((Stmt.branch e yes no).outline d) (u ++ v ++ w) := by
  rw [Stmt.outline, if_neg (Nat.not_lt.2 h)]
  have helse := Shown.labelledStmt "Else:" h rfl hn
  exact .append (.append (.title h rfl (.part h rfl he)) (.part h rfl hy)) helse

theorem whileLoop {e : Expr} {body : Stmt} (he : Shown (e.outline (d + 2)) u)
    (hb : Shown (body.outline (d + 2)) v) : Shown ((Stmt.whileLoop e body).outline d) (u ++ v) := by
  rw [Stmt.outline, if_neg (Nat.not_lt.2 h)]
  exact .append (.title h rfl (.part h rfl he)) (.part h rfl hb)

theorem doLoop {e : Expr} {body : Stmt} (hb : Shown (body.outline (d + 2)) u)
    (he : Shown (e.outline (d + 2)) v) : Shown ((Stmt.doLoop body e).outline d) (u ++ v) := by
  rw [Stmt.outline, if_neg (Nat.not_lt.2 h)]
  exact .append (.title h rfl (.part h rfl hb)) (.part h rfl he)

theorem forLoop {init step : Option Stmt} {e : Option Expr} {body : Stmt} {x : List Nat}
    (hi : Shown (Part.outline (d + 2) (.optionalStmt init)) u)
    (he : Shown (Part.outline (d + 2) (.optional e)) v)
    (hs : Shown (Part.outline (d + 2) (.optionalStmt step)) w)
    (hb : Shown (body.outline (d + 2)) x) :
    Shown ((Stmt.forLoop init e step body).outline d) (u ++ v ++ w ++ x) := by
  rw [Stmt.outline, if_neg (Nat.not_lt.2 h)]
  have hinit := Shown.labelledStmt "Init:" h rfl hi
  have hcond := Shown.labelled "Condition:" h rfl he
  have hstep := Shown.labelledStmt "Increment:" h rfl hs
  exact .append (.append (.append (.title h rfl hinit) hcond) hstep) (.part h rfl hb)

theorem switch {e : Expr} {cs : List SwitchCase} {body : Option (List Stmt)}
    (he : Shown (e.outline (d + 2)) u) (hcs : Shown (SwitchCase.outlines d 1 cs) v)
    (hb : Shown (Stmt.otherwise d body) w) :
    Shown ((Stmt.switch e cs body).outline d) (u ++ v ++ w) := by
  rw [Stmt.outline, if_neg (Nat.not_lt.2 h)]
  exact .append (.append (.title h rfl (.part h rfl he)) hcs) hb

theorem consCases {number : Nat} {e : Expr} {body : List Stmt} {cs : List SwitchCase}
    (he : Shown (e.outline (d + 2)) u) (hb : Shown (Stmt.outlines (d + 3) body) v)
    (hcs : Shown (SwitchCase.outlines d (number + 1) cs) w) :
    Shown (SwitchCase.outlines d number (.mk e body :: cs)) (u ++ v ++ w) :=
  .append (.append (.part h (.append (.append (by rfl) _) _) he) hb) hcs

end Forms

end Shown

namespace SameAbove

variable {R : String → String → Prop} {d : Nat} {u : List Nat}

theorem labelled_eq {e e' : Option Expr} (h : SameAbove R (d + 2) (.optional e) (.optional e') u)
    (he : Part.outline (d + 2) (.optional e') = Part.outline (d + 2) (.optional e))
    (label : String) :
    Outline.labelled d label e' = Outline.labelled d label e := by
  cases h with
  | none => rfl
  | some h => exact congrArg (line (d + 1) label :: ·) he

theorem labelledStmt_eq {s s' : Option Stmt}
    (h : SameAbove R (d + 2) (.optionalStmt s) (.optionalStmt s') u)
    (hs : Part.outline (d + 2) (.optionalStmt s') = Part.outline (d + 2) (.optionalStmt s))
    (label : String) :
    Stmt.labelled d label s' = Stmt.labelled d label s := by
  cases h with
  | noneStmt => rfl
  | someStmt h => exact congrArg (line (d + 1) label :: ·) hs

theorem outline_eq {d : Nat} {p p' : Part} {u : List Nat} (h : SameAbove Eq d p p' u) :
    p'.outline d = p.outline d := by
  induction h with
  | @hidden d e e' hd => exact (outline_deep hd e').trans (outline_deep hd e).symm
  | @hiddenStmt d s s' hd => exact (outline_deep_stmt hd s').trans (outline_deep_stmt hd s).symm
  | declare hd h ih =>
    simp only [Part.outline, Stmt.outline, declaration, labelled_eq h ih]
    rfl
  | function hd h ih =>
    simp only [Part.outline] at ih
    simp only [Part.outline, outline_function hd, ih]
  | branch hd hc hy hn ihc ihy ihn =>
    simp only [Part.outline] at ihc ihy
    simp only [Part.outline, Stmt.outline, Outline.labelled, ihc, ihy, labelledStmt_eq hn ihn]
  | forLoop hd hi hc hs hb ihi ihc ihs ihb =>
    simp only [Part.outline] at ihb
    simp only [Part.outline, Stmt.outline, labelledStmt_eq hi ihi, labelled_eq hc ihc,
      labelledStmt_eq hs ihs, ihb]
  -- a call of nothing is one line, so the two must agree on whether there is an argument
  | call hd h ih =>
    cases h with
    | nil => rfl
    | cons he hes => simp_all [Part.outline, Expr.outlines]
  | _ =>
    simp_all [Part.outline, Expr.outlines, Stmt.outlines, Outline.labelled, assignment,
      Stmt.otherwise, SwitchCase.outlines, Target.arrayOrName]

/-- Whatever is not hidden stands at the deepest level or above it, and its parts at most three
levels below. -/
theorem shown {R : String → String → Prop} {d : Nat} {p p' : Part} {u : List Nat}
    (h : SameAbove R d p p' u) (hd : d ≤ maxDepth + 3) : Shown (p.outline d) u := by
  induction h with
  | hidden h =>
    rw [Part.outline, outline_deep h]
    exact .cut hd
  | leaf h he => exact .leaf h he
  | binary h _ _ ihl ihr => exact .binary h (ihl (by omega)) (ihr (by omega))
  | unary h _ ih =>
    rw [Part.outline, Expr.outline, if_neg (Nat.not_lt.2 h)]
    exact .title h (.append (by rfl) _) (ih (by omega))
  | addressOf h _ ih | deref h _ ih | braces h _ ih =>
    rw [Part.outline, Expr.outline, if_neg (Nat.not_lt.2 h)]
    exact .title h rfl (ih (by omega))
  | element h _ ih => exact .element h (ih (by omega))
  | call h _ ih => exact .call h (ih (by omega))
  | nil => exact .nil
  | cons _ _ ih ihs => exact .append (ih hd) (ihs hd)
  | none => exact .nil
  | some _ ih => exact ih hd
  | hiddenStmt h =>
    rw [Part.outline, outline_deep_stmt h]
    exact .cut hd
  | leafStmt h hs => exact .leafStmt h hs
  | expr h _ ih =>
    rw [Part.outline, Stmt.outline, if_neg (Nat.not_lt.2 h)]
    exact ih hd
  | declare h _ ih => exact .declare h (ih (by omega))
  | assign h _ ih => exact .assign h (ih (by omega))
  | assignElement h _ _ _ ihi ihe => exact .assignElement h (ihi (by omega)) (ihe (by omega))
  | function h _ ih =>
    rw [Part.outline, outline_function h]
    exact .title h (begins_functionHead _ _ _) (ih (by omega))
  | block h _ ih | ret h _ ih =>
    rw [Part.outline, Stmt.outline, if_neg (Nat.not_lt.2 h)]
    exact .title h rfl (ih (by omega))
  | branch h _ _ _ ihc ihy ihn => exact .branch h (ihc (by omega)) (ihy (by omega)) (ihn (by omega))
  | whileLoop h _ _ ihc ihb => exact .whileLoop h (ihc (by omega)) (ihb (by omega))
  | doLoop h _ _ ihb ihc => exact .doLoop h (ihb (by omega)) (ihc (by omega))
  | forLoop h _ _ _ _ ihi ihc ihs ihb =>
    exact .forLoop h (ihi (by omega)) (ihc (by omega)) (ihs (by omega)) (ihb (by omega))
  | switch h _ _ _ iht ihcs ihb => exact .switch h (iht (by omega)) (ihcs hd) (ihb hd)
  | nilStmts => exact .nil
  | consStmts _ _ ih ihs => exact .append (ih hd) (ihs hd)
  | noneStmt => exact .nil
  | someStmt _ ih => exact ih hd
  | noCases => exact .nil
  | consCases h _ _ _ ihe ihb ihcs => exact .consCases h (ihe (by omega)) (ihb (by omega)) (ihcs hd)
  | noDefault => exact .nil
  | default h _ ih => exact .part h rfl (ih (by omega))

/-! ### Every part is the same as itself -/

mutual

theorem refl_expr (d : Nat) (e : Expr) : ∃ u, SameAbove Eq d (.expr e) (.expr e) u := by
  rcases Nat.lt_or_ge maxDepth d with hd | hd
  · exact ⟨_, .hidden hd⟩
  cases e with
  | number n mark => exact ⟨_, .leaf hd rfl⟩
  | string s => exact ⟨_, .leaf hd rfl⟩
  | char s => exact ⟨_, .leaf hd rfl⟩
  | name x => exact ⟨_, .leaf hd rfl⟩
  | update op x before => exact ⟨_, .leaf hd rfl⟩
  | binary op l r =>
    obtain ⟨u, hl⟩ := refl_expr (d + 1) l
    obtain ⟨v, hr⟩ := refl_expr (d + 1) r
    exact ⟨_, .binary hd hl hr⟩
  | unary op e => exact (refl_expr (d + 1) e).imp fun u he => .unary hd he
  | addressOf e => exact (refl_expr (d + 1) e).imp fun u he => .addressOf hd he
  | deref e => exact (refl_expr (d + 1) e).imp fun u he => .deref hd he
  | element x i => exact (refl_expr (d + 1) i).imp fun u hi => .element hd hi
  | call f es => exact (refl_exprs (d + 1) es).imp fun u hes => .call hd hes
  | braces es => exact (refl_exprs (d + 1) es).imp fun u hes => .braces hd hes

theorem refl_exprs (d : Nat) (es : List Expr) : ∃ u, SameAbove Eq d (.exprs es) (.exprs es) u := by
  cases es with
  | nil => exact ⟨_, .nil⟩
  | cons e es =>
    obtain ⟨u, he⟩ := refl_expr d e
    obtain ⟨v, hes⟩ := refl_exprs d es
    exact ⟨_, .cons he hes⟩

end

theorem refl_optional (d : Nat) (e : Option Expr) :
    ∃ u, SameAbove Eq d (.optional e) (.optional e) u := by
  cases e with
  | none => exact ⟨_, .none⟩
  | some e => exact (refl_expr d e).imp fun u he => .some he

mutual

theorem refl_stmt (d : Nat) (s : Stmt) : ∃ u, SameAbove Eq d (.stmt s) (.stmt s) u := by
  rcases Nat.lt_or_ge maxDepth d with hd | hd
  · exact ⟨_, .hiddenStmt hd⟩
  cases s with
  | expr e => exact (refl_expr d e).imp fun u he => .expr hd he
  | declare x => exact (refl_optional (d + 2) x.init).imp fun u hx => .declare hd hx
  | assign target op e =>
    obtain ⟨v, he⟩ := refl_expr (d + 2) e
    cases target with
    | name x => exact ⟨_, .assign hd he⟩
    | element x i =>
      exact (refl_expr (d + 2) (.element x i)).elim fun u hi => ⟨_, .assignElement hd rfl hi he⟩
  -- the body is shown as a block of its own, which may be the first thing hidden
  | function type f params body =>
    rcases Nat.lt_or_ge maxDepth (d + 1) with hd' | hd'
    · exact ⟨_, .function hd (.hiddenStmt hd')⟩
    · exact (refl_stmts (d + 2) body).imp fun u hb => .function hd (.block hd' hb)
  | block body => exact (refl_stmts (d + 1) body).imp fun u hb => .block hd hb
  | branch c yes no =>
    obtain ⟨u, hc⟩ := refl_expr (d + 2) c
    obtain ⟨v, hy⟩ := refl_stmt (d + 2) yes
    obtain ⟨w, hn⟩ := refl_optionalStmt (d + 2) no
    exact ⟨_, .branch hd hc hy hn⟩
  | whileLoop c body =>
    obtain ⟨u, hc⟩ := refl_expr (d + 2) c
    obtain ⟨v, hb⟩ := refl_stmt (d + 2) body
    exact ⟨_, .whileLoop hd hc hb⟩
  | doLoop body c =>
    obtain ⟨u, hb⟩ := refl_stmt (d + 2) body
    obtain ⟨v, hc⟩ := refl_expr (d + 2) c
    exact ⟨_, .doLoop hd hb hc⟩
  | forLoop init c step body =>
    obtain ⟨u, hi⟩ := refl_optionalStmt (d + 2) init
    obtain ⟨v, hc⟩ := refl_optional (d + 2) c
    obtain ⟨w, hs⟩ := refl_optionalStmt (d + 2) step
    obtain ⟨x, hb⟩ := refl_stmt (d + 2) body
    exact ⟨_, .forLoop hd hi hc hs hb⟩
  | switch test cs body =>
    obtain ⟨u, ht⟩ := refl_expr (d + 2) test
    obtain ⟨v, hcs⟩ := refl_cases hd 1 cs
    obtain ⟨w, hb⟩ := refl_otherwise hd body
    exact ⟨_, .switch hd ht hcs hb⟩
  | ret e =>
    cases e with
    | none => exact ⟨_, .leafStmt hd rfl⟩
    | some e => exact (refl_expr (d + 1) e).imp fun u he => .ret hd he
  | breakOut => exact ⟨_, .leafStmt hd rfl⟩
  | continueOn => exact ⟨_, .leafStmt hd rfl⟩
  | preprocessor text => exact ⟨_, .leafStmt hd rfl⟩

theorem refl_stmts (d : Nat) (ss : List Stmt) : ∃ u, SameAbove Eq d (.stmts ss) (.stmts ss) u := by
  cases ss with
  | nil => exact ⟨_, .nilStmts⟩
  | cons s ss =>
    obtain ⟨u, hs⟩ := refl_stmt d s
    obtain ⟨v, hss⟩ := refl_stmts d ss
    exact ⟨_, .consStmts hs hss⟩

theorem refl_optionalStmt (d : Nat) (s : Option Stmt) :
    ∃ u, SameAbove Eq d (.optionalStmt s) (.optionalStmt s) u := by
  cases s with
  | none => exact ⟨_, .noneStmt⟩
  | some s => exact (refl_stmt d s).imp fun u hs => .someStmt hs

theorem refl_otherwise {d : Nat} (hd : d ≤ maxDepth) (body : Option (List Stmt)) :
    ∃ u, SameAbove Eq d (.otherwise body) (.otherwise body) u := by
  cases body with
  | none => exact ⟨_, .noDefault⟩
  | some body => exact (refl_stmts (d + 3) body).imp fun u hb => .default hd hb

theorem refl_cases {d : Nat} (hd : d ≤ maxDepth) (number : Nat) (cs : List SwitchCase) :
    ∃ u, SameAbove Eq d (.cases number cs) (.cases number cs) u := by
  cases cs with
  | nil => exact ⟨_, .noCases⟩
  | cons c cs =>
    obtain ⟨e, body⟩ := c
    obtain ⟨u, he⟩ := refl_expr (d + 2) e
    obtain ⟨v, hb⟩ := refl_stmts (d + 3) body
    obtain ⟨w, hcs⟩ := refl_cases hd (number + 1) cs
    exact ⟨_, .consCases hd he hb hcs⟩

end

end SameAbove

end Outline

open Outline

namespace Tree

/-- Two trees that are the same but for what their outlines hide. -/
inductive SameAbove (renames : String → String → Prop) : Tree → Tree → List Nat → Prop
  | program {body body' : List Stmt} {u : List Nat} :
      Outline.SameAbove renames 1 (.stmts body) (.stmts body') u →
      SameAbove renames (.program body) (.program body') u
  | stmt {s s' : Stmt} {u : List Nat} : Outline.SameAbove renames 0 (.stmt s) (.stmt s') u →
      SameAbove renames (.stmt s) (.stmt s') u
  | switchCase {c : SwitchCase} : SameAbove renames (.switchCase c) (.switchCase c) []
  | parameter {p : Parameter} : SameAbove renames (.parameter p) (.parameter p) []

theorem SameAbove.refl (t : Tree) : ∃ u, t.SameAbove Eq t u := by
  cases t with
  | program body => exact (Outline.SameAbove.refl_stmts 1 body).imp fun u h => .program h
  | stmt s => exact (Outline.SameAbove.refl_stmt 0 s).imp fun u h => .stmt h
  | switchCase c => exact ⟨_, .switchCase⟩
  | parameter p => exact ⟨_, .parameter⟩

theorem SameAbove.outline_eq {t t' : Tree} {u : List Nat} (h : t.SameAbove Eq t' u) :
    t'.outline = t.outline := by
  cases h with
  | program h => exact congrArg (line 0 "Program" :: ·) h.outline_eq
  | stmt h => exact h.outline_eq
  | switchCase => rfl
  | parameter => rfl

theorem SameAbove.shown {R : String → String → Prop} {t t' : Tree} {u : List Nat}
    (h : t.SameAbove R t' u) :
    Shown t.outline u := by
  cases h with
  | program h => exact .under (Nat.zero_le _) rfl (h.shown (by decide))
  | stmt h => exact h.shown (Nat.zero_le _)
  | switchCase => exact .under (Nat.zero_le _) (.append (by rfl) _) .nil
  | parameter => exact .under (Nat.zero_le _) (.append (by rfl) _) .nil

end Tree

def indentation (s : String) : Nat := (s.toList.takeWhile (· = ' ')).length

theorem Line.indentation_text {l : Line} {s : String}
    (hl : ∀ r, l.label = .ok r → r.toList.head? ≠ some ' ') (h : l.text = .ok s) :
    indentation s = 2 * l.depth := by
  rw [Line.text] at h
  cases hr : l.label with
  | error e =>
    rw [hr] at h
    cases h
  | ok r =>
    rw [hr] at h
    cases h
    have hrest : r.toList.takeWhile (· = ' ') = [] := by
      have hne := hl r hr
      cases hc : r.toList with
      | nil => rfl
      | cons c cs =>
        rw [hc] at hne
        exact List.takeWhile_cons_of_neg (by simpa using hne)
    rw [indentation, String.toList_append, String.toList_ofList, List.takeWhile_append_of_pos
      (by simp), hrest]
    simp

/-! ### An element hidden below its array -/

def Stmt.nested : Nat → Stmt → Stmt
  | 0, s => s
  | n + 1, s => .block [nested n s]

theorem sameAbove_nested {R : String → String → Prop} {s s' : Stmt} {u : List Nat} {n d : Nat}
    (hn : d + n ≤ maxDepth) (h : Outline.SameAbove R (d + n) (.stmt s) (.stmt s') u) :
    Outline.SameAbove R d (.stmt (s.nested n)) (.stmt (s'.nested n)) u := by
  induction n generalizing d with
  | zero => exact h
  | succ n ih =>
    rw [← Nat.add_assoc, Nat.add_right_comm] at h
    have hb := Outline.SameAbove.consStmts (ih (by omega) h) .nilStmts
    rw [List.append_nil] at hb
    exact .block (by omega) hb

theorem outline_nested {s : Stmt} {n d : Nat} (hn : d + n ≤ maxDepth) :
    (s.nested n).outline d = (List.range' d n).map (line · "Block") ++ s.outline (d + n) := by
  induction n generalizing d with
  | zero => rfl
  | succ n ih =>
    have hb := ih (d := d + 1) (by omega)
    rw [Stmt.nested, Stmt.outline, if_neg (by omega), Stmt.outlines, Stmt.outlines,
      List.append_nil, hb, Nat.add_right_comm, Nat.add_assoc, List.range'_succ]
    rfl

def deepAssignment (x : String) (i e : Expr) : Tree :=
  .program [(Stmt.assign (.element x i) .set e).nested 198]

theorem sameAbove_deepAssignment {R : String → String → Prop} {x x' : String} (h : R x x')
    (i i' e e' : Expr) :
    (deepAssignment x i e).SameAbove R (deepAssignment x' i' e') [201, 201] := by
  have hs : Outline.SameAbove R (1 + 198) (.stmt (.assign (.element x i) .set e))
      (.stmt (.assign (.element x' i') .set e')) [201, 201] :=
    .assignElement (by decide) h (.hidden (by decide)) (.hidden (by decide))
  exact .program (.consStmts (sameAbove_nested (by decide) hs) .nilStmts)

theorem outline_deepAssignment (x : String) (i e : Expr) : (deepAssignment x i e).outline =
    line 0 "Program" :: (List.range' 1 198).map (line · "Block") ++ line 199
      ("Assignment: " ++ x) ::
      [line 200 "Target:", line 201 "...", line 200 "Value:", line 201 "..."] := by
  have hdeep (e : Expr) : e.outline 201 = [line 201 "..."] := outline_deep (by decide) e
  rw [deepAssignment, Tree.outline, Stmt.outlines, Stmt.outlines, List.append_nil,
    outline_nested (by decide)]
  simp [Stmt.outline, assignment, Outline.labelled, hdeep, maxDepth, Target.arrayOrName]

def padded (d : Nat) (s : String) : String := String.ofList (List.replicate (2 * d) ' ') ++ s

theorem text_line (d : Nat) (s : String) : (line d s).text = pure (padded d s) := rfl

theorem texts_blocks (ds : List Nat) :
    (ds.map (line · "Block")).mapM Line.text = pure (ds.map (padded · "Block")) := by
  rw [List.mapM_map]
  exact List.mapM_pure

theorem render_deepAssignment :
    ∃ before after : List String, ∀ x i e, (deepAssignment x i e).render =
    .ok ("\n".intercalate (before ++ padded 199 ("Assignment: " ++ x) :: after)) := by
  refine ⟨padded 0 "Program" :: (List.range' 1 198).map (padded · "Block"),
    [padded 200 "Target:", padded 201 "...", padded 200 "Value:", padded 201 "..."], ?_⟩
  intro x i e
  rw [Tree.render, outline_deepAssignment]
  simp only [List.mapM_append, List.mapM_cons, List.mapM_nil, texts_blocks, text_line, pure_bind]
  rfl

theorem intercalate_inj {sep s s' : String} {before after : List String}
    (h : sep.intercalate (before ++ s :: after) = sep.intercalate (before ++ s' :: after)) :
    s = s' := by
  induction before with
  | nil =>
    cases after with
    | nil => simpa using h
    | cons t ts =>
      rw [List.nil_append, List.nil_append, String.intercalate_cons_cons,
        String.intercalate_cons_cons, String.append_left_inj, String.append_left_inj] at h
      exact h
  | cons t ts ih =>
    apply ih
    rw [List.cons_append, List.cons_append, String.intercalate_cons_of_ne_nil (by simp),
      String.intercalate_cons_of_ne_nil (by simp), String.append_right_inj] at h
    exact h

/-! ### Outlines of whole trees -/

theorem Tree.outline_cut (t : Tree) :
    (∀ l ∈ t.outline, ∀ s, l.text = .ok s → ∃ n ≤ maxDepth + 3, indentation s = 2 * n) ∧
      (∃ cuts, t.SameAbove Eq t cuts) ∧
      ∀ t' cuts, t.SameAbove Eq t' cuts →
        t'.render = t.render ∧ t.outline.filter Line.isDots = cuts.map (line · "...") := by
  obtain ⟨u, hu⟩ := SameAbove.refl t
  have hlines := hu.shown
  refine ⟨?_, ⟨u, hu⟩, ?_⟩
  · intro l hl s hs
    exact ⟨l.depth, hlines.depth_le l hl, Line.indentation_text (hlines.label_head l hl) hs⟩
  · intro t' cuts h
    have hrender : t'.render = t.render := by rw [Tree.render, Tree.render, h.outline_eq]
    exact ⟨hrender, h.shown.dots_eq⟩

theorem Tree.outline_cut_deepAssignment :
    let t := deepAssignment "a" (.name "i") (.name "i")
    let t' := deepAssignment "a" (.name "j") (.call "f" [.name "k"])
    t.SameAbove Eq t' [201, 201] ∧
      t'.render = t.render ∧ t.outline.filter Line.isDots = [line 201 "...", line 201 "..."] := by
  intro t t'
  have h : t.SameAbove Eq t' [201, 201] := sameAbove_deepAssignment rfl _ _ _ _
  exact ⟨h, t.outline_cut.2.2 t' _ h⟩

/-- What is hidden may not be any other: the line of an assignment names an array whose element is
too deep. -/
theorem Tree.hidden_array_named :
    ¬∀ (t t' : Tree) (cuts : List Nat), t.SameAbove (fun _ _ => True) t' cuts →
    t'.render = t.render := by
  intro h
  obtain ⟨before, after, hrender⟩ := render_deepAssignment
  have hr := h (deepAssignment "a" (.name "i") (.name "i"))
    (deepAssignment "b" (.name "i") (.name "i")) [201, 201]
    (sameAbove_deepAssignment trivial _ _ _ _)
  rw [hrender, hrender, Except.ok.injEq] at hr
  have hline := intercalate_inj hr
  rw [padded, padded, String.append_right_inj, String.append_right_inj] at hline
  revert hline
  decide

end MiniC

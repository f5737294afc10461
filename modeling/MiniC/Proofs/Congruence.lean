import MiniC.Proofs.Structured
import MiniC.Proofs.Walks

/-! Relations between actions that hold of a whole run once they hold of its steps. A relation may
depend on the variables that an expression or a statement can write; it is asked to respect
composition, to hold of quiet actions, and to hold of the few actions that are not quiet or that
read the bounds. Of the values that actions give it says nothing. -/

namespace MiniC.Machine

open Exec

abbrev Relation := List String → ∀ {α : Type}, Exec α → Exec α → Prop

/-- What makes a relation hold of the evaluation of expressions, calls apart. Runners may be set
beside one another that have different levels of the stack left. -/
structure Congruence (cfg cfg' : Bounds) (beside : Nat → Nat → Prop) (rel : Relation) : Prop where
  quiet : ∀ {W : List String} {α : Type} {a : Exec α}, Quiet a → rel W a a
  bind : ∀ {W : List String} {α β : Type} {a a' : Exec α} {f f' : α → Exec β}, rel W a a' →
    (∀ x, rel W (f x) (f' x)) → rel W (a >>= f) (a' >>= f')
  tick : ∀ {W : List String} {k k' : Nat}, beside k k' → rel W (tick cfg k) (tick cfg' k')
  noAddress : ∀ {W : List String} {k k' : Nat} (e : Expr), beside k k' →
    rel W (Runner.noAddress k e) (Runner.noAddress k' e)
  binary : ∀ {W : List String} (op : BinaryOp) (v w : Value),
    rel W (binary cfg op v w) (binary cfg' op v w)
  filledArray : ∀ {W : List String} (x : String) (length : Int) (items : List Value),
    rel W (Runner.filledArray cfg x length items) (Runner.filledArray cfg' x length items)
  write : ∀ {W : List String} {x : String} (v : Value), x ∈ W →
    rel W (Exec.bind x v) (Exec.bind x v)

structure Evaluates (beside : Nat → Nat → Prop) (rel : Relation) (r r' : Runner) : Prop where
  eval : ∀ {W : List String} (e : Expr), e.writes ⊆ W → rel W (r.eval e) (r'.eval e)
  levels : beside r.levels r'.levels

namespace Congruence

variable {cfg cfg' : Bounds} {beside : Nat → Nat → Prop} {rel : Relation}
  (h : Congruence cfg cfg' beside rel) {W : List String}
include h

theorem carries {α : Type} {P : α → Prop} {a a' : Exec α} (ha : rel W a a') (hP : ∀ x, P x) :
    Carries (rel W) P a a' := fun _ _ _ hf => h.bind ha fun x => hf x (hP x)

omit h in
def walk (h : Congruence cfg cfg' beside rel) (W : List String) (runs : Runner → Runner → Prop)
    (hruns : ∀ {r r'}, runs r r' → Evaluates beside rel r r') : Walk cfg cfg' where
  scope := ⟨(· ∈ W), fun _ => True⟩
  fine _ := True
  checks _ := True
  checksSteps := True
  rel _ P a a' := Carries (rel W) P a a'
  part _ P a a' := Carries (rel W) P a a'
  runs := runs
  gives := .gives
  throws _ _ f f' _ := h.quiet (quiet_throw _)
  bind := .bind
  mono ha _ hP := ha.mono hP
  ofPart := id
  tick hr ha _ f f' hf := by
    rw [bind_assoc, bind_assoc]
    exact h.bind (h.tick (hruns hr).levels) fun _ => ha _ f f' hf
  eval hr he := h.carries ((hruns hr).eval _ he.1) fun _ => trivial
  literal _ _ := trivial
  text _ := trivial
  small _ := trivial
  lookup x := h.carries (h.quiet (quiet_lookup x)) fun _ => trivial
  element i _ := h.carries (h.quiet (quiet_element _ i)) fun _ => trivial
  checkIndex x ref v := h.carries (h.quiet (quiet_checkIndex x ref v)) fun _ => trivial
  newPointer x i := h.carries (h.quiet (quiet_newPointer x i)) fun _ => trivial
  noAddress e hr := h.carries (h.noAddress e (hruns hr).levels) fun _ => trivial
  dereference _ := h.carries (h.quiet (quiet_dereference _)) fun _ => trivial
  unary op _ := h.carries (h.quiet (quiet_unary op _)) fun _ => trivial
  update op before hx := by
    refine h.carries ?_ fun _ _ => trivial
    exact h.bind (h.quiet (quiet_lookup _)) fun old => h.bind (h.quiet (quiet_stepped op old))
      fun new => h.bind (h.write new hx) fun _ => h.quiet (quiet_pure _)
  binary op _ _ := h.carries (h.binary op _ _) fun _ _ => trivial
  arrayLength d items := h.carries (h.quiet (quiet_arrayLength d items)) fun _ => trivial
  filledArray x length _ := h.carries (h.filledArray x length _) fun _ => trivial
  write hx _ := h.carries (h.write _ hx) fun _ => trivial
  writeElement ref i _ := h.carries (h.quiet (quiet_writeElement ref i _)) fun _ => trivial

theorem of_carries {α : Type} {P : α → Prop} {a a' : Exec α} (ha : Carries (rel W) P a a') :
    rel W a a' := ha.elim fun x => h.quiet (quiet_pure x)

section Expressions

variable {r r' : Runner} (hr : Evaluates beside rel r r')
include hr

theorem evalAll {es : List Expr} (hw : Expr.listWrites es ⊆ W) :
    rel W (r.evalAll es) (r'.evalAll es) :=
  h.of_carries ((h.walk W _ id).evalAll hr ⟨hw, fun _ _ => trivial⟩)

theorem evalStep {e : Expr} (hw : e.writes ⊆ W) (he : ∀ f args, e ≠ .call f args) :
    rel W (r.evalStep cfg e) (r'.evalStep cfg' e) :=
  h.of_carries ((h.walk W _ id).evalForm hr ⟨hw, fun _ _ => trivial⟩ he)

theorem initialValue {d : Declaration} (hw : Expr.optionWrites d.init ⊆ W) :
    rel W (r.initialValue cfg d) (r'.initialValue cfg' d) :=
  h.of_carries ((h.walk W _ id).initialValue hr ⟨hw, fun _ _ => trivial⟩)

theorem assign {target : Target} (op : AssignOp) {value : Expr} (ht : target.writes ⊆ W)
    (hv : value.writes ⊆ W) :
    rel W (r.assign cfg target op value) (r'.assign cfg' target op value) :=
  h.of_carries
    ((h.walk W _ id).assign hr op ⟨ht, fun _ _ => trivial⟩ ⟨hv, fun _ _ => trivial⟩)

end Expressions

end Congruence

structure Executes (beside : Nat → Nat → Prop) (rel : Relation) (r r' : Runner) : Prop
    extends Evaluates beside rel r r' where
  exec : ∀ {W : List String} (s : Stmt), s.writes ⊆ W → rel W (r.exec s) (r'.exec s)

/-- What makes a relation hold of whole runs. The body of a function may write any variable, so
`enter` is to hold for each set of variables. -/
structure RunCongruence (cfg cfg' : Bounds) (beside : Nat → Nat → Prop) (rel : Relation) : Prop
    extends Congruence cfg cfg' beside rel where
  outputFunction : cfg.outputFunction = cfg'.outputFunction
  print : ∀ {W : List String} (line : List Char), rel W (print cfg line) (print cfg' line)
  checkDepth : ∀ {W : List String} {k k' : Nat} (f : String), beside k k' →
    rel W (Runner.checkDepth cfg k f) (Runner.checkDepth cfg' k' f)
  control : ∀ {W : List String} {f : State → State}, (∀ s, (f s).memory = s.memory) →
    rel W (modify f : Exec Unit) (modify f)
  define : ∀ {W : List String} (name : String) (fn : Function),
    rel W (modify (·.define name fn) : Exec Unit) (modify (·.define name fn))
  loop : ∀ {W : List String} {a a' : Exec Bool}, rel W a a' → rel W (loop cfg a) (loop cfg' a')
  enter : ∀ {W : List String} {r r' : Runner} (f : String) (fn : Function) (vs : List Value),
    Executes beside rel r r' → rel W (r.enter f fn vs) (r'.enter f fn vs)

namespace RunCongruence

variable {cfg cfg' : Bounds} {beside : Nat → Nat → Prop} {rel : Relation}
  (h : RunCongruence cfg cfg' beside rel)

def runWalk (W : List String) : RunWalk cfg cfg' where
  toWalk := h.walk W (Executes beside rel) fun hr => hr.toEvaluates
  exec hr hs := h.carries (hr.exec _ hs.1) fun _ => trivial
  prints := h.outputFunction
  output args _ := by
    refine h.carries ?_ fun _ => trivial
    exact h.bind (h.quiet quiet_get) fun s => h.bind (h.quiet (quiet_lift _)) fun line =>
      h.bind (h.print line) fun _ => h.quiet (quiet_pure _)
  defined f ha _ g g' hg := by
    rw [bind_assoc, bind_assoc]
    refine h.bind (h.quiet quiet_get) fun s => ?_
    cases s.function? f with
    | none => exact h.quiet (quiet_throw _)
    | some fn => exact ha fn (fun _ _ => trivial) _ g g' hg
  enter f hr _ _ := by
    refine h.carries ?_ fun _ => trivial
    exact h.bind (h.checkDepth f hr.levels) fun _ => h.enter f _ _ hr
  asks _ := h.carries (h.quiet (quiet_get.bind fun _ => quiet_pure _)) fun _ => trivial
  flags _ _ := h.carries (h.control fun _ => rfl) fun _ => trivial
  returned {v} _ :=
    h.carries (h.control (f := fun s => { s with returnValue := some v }) fun _ => rfl) fun _ =>
      trivial
  define name params _ := by
    refine h.carries ?_ fun _ => trivial
    exact h.bind (h.quiet (quiet_record _)) fun _ => h.define name _
  equal v u := h.carries (h.quiet (quiet_equal v u)) fun _ => trivial
  rounds ha hx hb := by
    refine h.carries (h.loop ?_) fun _ => trivial
    refine h.bind (h.of_carries ha) fun goesOn => ?_
    cases goesOn with
    | true => exact h.bind (h.of_carries hx) fun _ => h.of_carries hb
    | false => exact h.quiet (quiet_pure _)

include h

theorem above {r r' : Runner} (hr : Executes beside rel r r')
    (hlevels : beside (r.levels + 1) (r'.levels + 1)) :
    Executes beside rel (r.above cfg) (r'.above cfg') where
  eval {W} _ hw := h.of_carries ((h.runWalk W).evalStep hr ⟨hw, fun _ _ => trivial⟩)
  exec {W} _ hw := h.of_carries ((h.runWalk W).execStep hr ⟨hw, fun _ _ => trivial⟩)
  levels := hlevels

theorem exhausted (hlevels : beside 0 0) : Executes beside rel .exhausted .exhausted where
  eval _ _ := h.quiet (quiet_throw _)
  exec _ _ := h.quiet (quiet_throw _)
  levels := hlevels

theorem runTree {r r' : Runner} (hr : Executes beside rel r r') {W : List String} {t : Tree}
    (hw : t.writes ⊆ W) : rel W (Machine.runTree cfg r t) (Machine.runTree cfg' r' t) :=
  h.of_carries ((h.runWalk W).runTree hr ⟨hw, fun _ _ => trivial⟩)

end RunCongruence

/-- A relation that the steps respect holds of what runners of as many levels do. -/
theorem RunCongruence.runner {cfg cfg' : Bounds} {rel : Relation}
    (h : RunCongruence cfg cfg' Eq rel) (n : Nat) :
    Executes Eq rel (Machine.runner cfg n) (Machine.runner cfg' n) := by
  induction n with
  | zero => exact h.exhausted rfl
  | succ n ih => exact h.above ih (congrArg (· + 1) ih.levels)

end MiniC.Machine

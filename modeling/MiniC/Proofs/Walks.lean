import MiniC.Proofs.Actions
import MiniC.Proofs.Faults
import MiniC.Proofs.Scopes

/-! One walk over the forms of expressions and statements. Two runners are set side by side, under
bounds of their own. A walk is a relation between actions, together with what is asked of the values
that they give, and a clause for each action that the forms are made of. If the runners are related
in what they do with the parts of a tree, they are in what they do with the tree. Main statements:
`Walk.evalForm`, `RunWalk.evalStep`, `RunWalk.execStep`, `RunWalk.runTree`. -/

namespace MiniC.Machine

open Exec

/-- What is asked of an expression if its value is to be vouched for: that it is not computed by an
operation that may be left unchecked. -/
def Vouched (checks : BinaryOp → Prop) (checksSteps : Prop) : Expr → Prop
  | .update .. => checksSteps
  | .binary op _ _ => checks op
  | _ => True

def Stored (checks : BinaryOp → Prop) : Stmt → Prop
  | .assign _ op _ => ∀ b, op.binary? = some b → checks b
  | _ => True

section Checked

variable {checks : BinaryOp → Prop} {checksSteps : Prop} (h : ∀ op, checks op)
include h

theorem vouched_of_checks (hs : checksSteps) (e : Expr) : Vouched checks checksSteps e := by
  cases e with
  | update op x before => exact hs
  | binary op left right => exact h op
  | _ => trivial

theorem stored_of_checks (s : Stmt) : Stored checks s := by
  cases s with
  | assign target op value => exact fun b _ => h b
  | _ => trivial

end Checked

/-- Two actions are in a relation whatever follows them, if that is for the values they give. -/
def Carries (rel : ∀ {α : Type}, Exec α → Exec α → Prop) {α : Type} (P : α → Prop)
    (a a' : Exec α) : Prop :=
  ∀ (β : Type) (f f' : α → Exec β), (∀ x, P x → rel (f x) (f' x)) → rel (a >>= f) (a' >>= f')

namespace Carries

variable {rel : ∀ {α : Type}, Exec α → Exec α → Prop} {α β : Type} {P : α → Prop} {a a' : Exec α}

theorem gives {x : α} (hx : P x) : Carries rel P (pure x) (pure x) := by
  intro γ f f' hf
  rw [pure_bind, pure_bind]
  exact hf x hx

theorem bind {Q : β → Prop} {f f' : α → Exec β} (ha : Carries rel P a a')
    (hf : ∀ x, P x → Carries rel Q (f x) (f' x)) : Carries rel Q (a >>= f) (a' >>= f') := by
  intro γ g g' hg
  rw [bind_assoc, bind_assoc]
  exact ha γ _ _ fun x hx => hf x hx γ g g' hg

theorem mono {P' : α → Prop} (ha : Carries rel P a a') (hP : ∀ x, P x → P' x) :
    Carries rel P' a a' := fun γ f f' hf => ha γ f f' fun x hx => hf x (hP x hx)

theorem elim (hpure : ∀ {α : Type} (x : α), rel (pure x) (pure x)) (h : Carries rel P a a') :
    rel a a' := by
  have hself := h α pure pure fun x _ => hpure x
  rwa [bind_pure, bind_pure] at hself

end Carries

/-- A relation between actions with a clause for each action that expressions are made of, calls
apart. In `rel c P a a'` the values given have the property `P`, and `c` is what it takes to vouch
for the values in the last state; `part` relates what is done with a whole part of a tree. -/
structure Walk (cfg cfg' : Bounds) where
  scope : Scope
  fine : Value → Prop
  checks : BinaryOp → Prop
  checksSteps : Prop
  rel : ∀ {α : Type}, Prop → (α → Prop) → Exec α → Exec α → Prop
  part : ∀ {α : Type}, Prop → (α → Prop) → Exec α → Exec α → Prop
  runs : Runner → Runner → Prop
  -- how actions are put together
  gives : ∀ {α : Type} {P : α → Prop} {x : α}, P x → rel True P (pure x) (pure x)
  throws : ∀ {α : Type} {c : Prop} {P : α → Prop} {f : Fault}, f.isLimit = false →
    rel c P (throw f) (throw f)
  bind : ∀ {α β : Type} {c : Prop} {P : α → Prop} {Q : β → Prop} {a a' : Exec α}
    {f f' : α → Exec β}, rel True P a a' → (∀ x, P x → rel c Q (f x) (f' x)) →
    rel c Q (a >>= f) (a' >>= f')
  mono : ∀ {α : Type} {c c' : Prop} {P P' : α → Prop} {a a' : Exec α}, rel c P a a' → (c' → c) →
    (∀ x, P x → P' x) → rel c' P' a a'
  ofPart : ∀ {α : Type} {P : α → Prop} {a a' : Exec α}, part True P a a' → rel True P a a'
  tick : ∀ {α : Type} {c : Prop} {P : α → Prop} {a a' : Exec α} {r r' : Runner}, runs r r' →
    rel c P a a' → part c P (tick cfg r.levels >>= fun _ => a) (tick cfg' r'.levels >>= fun _ => a')
  eval : ∀ {r r' : Runner} {e : Expr}, runs r r' → scope.expr e →
    part True fine (r.eval e) (r'.eval e)
  -- values
  literal : ∀ {n : Number} (o : Origin), scope.numbers n → fine (.ofNumber n o)
  text : ∀ s, fine (.text s)
  small : ∀ {n : Nat}, n < 0x110000 → fine (.int n)
  -- expressions
  lookup : ∀ x, rel True fine (lookup x) (lookup x)
  element : ∀ {ref : Nat} (i : Nat), fine (.array ref) →
    rel True fine (element ref i) (element ref i)
  checkIndex : ∀ x ref v, rel True (fun _ => True) (checkIndex x ref v) (checkIndex x ref v)
  newPointer : ∀ x i, rel True fine (newPointer x i) (newPointer x i)
  noAddress : ∀ {r r' : Runner} (e : Expr), runs r r' →
    rel True fine (Runner.noAddress r.levels e) (Runner.noAddress r'.levels e)
  dereference : ∀ {v : Value}, fine v → rel True fine (dereference v) (dereference v)
  unary : ∀ {v : Value} (op : UnaryOp), fine v →
    rel True fine (Runner.unary op v) (Runner.unary op v)
  update : ∀ {x : String} (op : UpdateOp) (before : Bool), scope.writes x →
    rel checksSteps (fun v => checksSteps → fine v) (Runner.update op x before)
      (Runner.update op x before)
  binary : ∀ {v w : Value} (op : BinaryOp), fine v → fine w →
    rel True (fun u => checks op → fine u) (binary cfg op v w) (binary cfg' op v w)
  -- what is stored
  arrayLength : ∀ d items,
    rel True (fun _ => True) (Runner.arrayLength d items) (Runner.arrayLength d items)
  filledArray : ∀ {items : List Value} (x : String) (length : Int), (∀ v ∈ items, fine v) →
    rel True fine (Runner.filledArray cfg x length items) (Runner.filledArray cfg' x length items)
  write : ∀ {c : Prop} {x : String} {v : Value}, scope.writes x → (c → fine v) →
    rel c (fun _ => True) (Exec.bind x v) (Exec.bind x v)
  writeElement : ∀ {c : Prop} {v : Value} (ref i : Nat), (c → fine v) →
    rel c (fun _ => True) (modify (·.writeElement ref i v) : Exec Unit)
      (modify (·.writeElement ref i v))

namespace Walk

variable {cfg cfg' : Bounds} (w : Walk cfg cfg') {r r' : Runner}

theorem fine_zero : w.fine (.int 0) := w.small (n := 0) (by decide)

theorem fine_ofBool (b : Bool) : w.fine (.ofBool b) := by
  cases b with
  | true => exact w.small (n := 1) (by decide)
  | false => exact w.fine_zero

theorem array (x : String) : w.rel True (fun ref => w.fine (.array ref)) (array x) (array x) := by
  apply w.bind (w.lookup x)
  intro v hv
  cases v with
  | array ref => exact w.gives hv
  | _ => exact w.throws rfl

section Parts

variable (h : w.runs r r')
include h

theorem value {e : Expr} (he : w.scope.expr e) : w.rel True w.fine (r.eval e) (r'.eval e) :=
  w.ofPart (w.eval h he)

theorem evalAll {es : List Expr} (hs : w.scope.exprs es) :
    w.rel True (fun vs => ∀ v ∈ vs, w.fine v) (r.evalAll es) (r'.evalAll es) := by
  induction es with
  | nil => exact w.gives (by simp)
  | cons e es ih =>
    obtain ⟨he, hes⟩ := Scope.covers_append.1 hs
    apply w.bind (w.value h he)
    intro v hv
    apply w.bind (ih hes)
    intro vs hvs
    exact w.gives (List.forall_mem_cons.2 ⟨hv, hvs⟩)

theorem index (x : String) (ref : Nat) {i : Expr} (hi : w.scope.expr i) :
    w.rel True (fun _ => True) (r.index x ref i) (r'.index x ref i) :=
  w.bind (w.value h hi) fun v _ => w.checkIndex x ref v

theorem addressOf {e : Expr} (he : w.scope.expr e) :
    w.rel True w.fine (r.addressOf e) (r'.addressOf e) := by
  cases e with
  | name x => exact w.newPointer x none
  | element x i =>
    apply w.bind (w.array x)
    intro ref _
    exact w.bind (w.index h x ref (i := i) he) fun k _ => w.newPointer x _
  | _ => exact w.noAddress _ h

theorem operator (op : BinaryOp) {left right : Expr} (hl : w.scope.expr left)
    (hr : w.scope.expr right) : w.rel True (fun v => w.checks op → w.fine v)
      (r.operator cfg op left right) (r'.operator cfg' op left right) := by
  have htruth {op : BinaryOp} : w.rel True (fun v => w.checks op → w.fine v)
      (r.eval right >>= fun u => pure (.ofBool u.isTrue))
      (r'.eval right >>= fun u => pure (.ofBool u.isTrue)) :=
    w.bind (w.value h hr) fun u _ => w.gives fun _ => w.fine_ofBool _
  apply w.bind (w.value h hl)
  intro v hv
  cases op with
  | and =>
    dsimp only
    split
    · exact htruth
    · exact w.gives fun _ => w.fine_ofBool _
  | or =>
    dsimp only
    split
    · exact w.gives fun _ => w.fine_ofBool _
    · exact htruth
  | _ => exact w.bind (w.value h hr) fun u hu => w.binary _ hv hu

theorem initialItems (x : String) {init : Option Expr} (hi : w.scope.optionExpr init) :
    w.rel True (fun vs => ∀ v ∈ vs, w.fine v) (r.initialItems x init) (r'.initialItems x init) := by
  cases init with
  | none => exact w.gives (by simp)
  | some e =>
    cases e with
    | braces items => exact w.evalAll h hi
    | string s =>
      apply w.bind (w.value h (e := .string s) hi)
      intro v _
      cases v with
      | text t =>
        apply w.gives
        intro v hv
        rcases List.mem_append.1 hv with hv | hv
        · obtain ⟨c, -, rfl⟩ := List.mem_map.1 hv
          exact w.small (Literal.toNat_lt c)
        · rw [List.mem_singleton.1 hv]
          exact w.fine_zero
      | _ => exact w.gives (by simp)
    | _ => exact w.throws rfl

theorem initialValue {d : Declaration} (hd : w.scope.optionExpr d.init) :
    w.rel True w.fine (r.initialValue cfg d) (r'.initialValue cfg' d) := by
  unfold Runner.initialValue
  split
  · apply w.bind (w.initialItems h d.name hd)
    intro items hitems
    exact w.bind (w.arrayLength d items) fun length _ => w.filledArray d.name length hitems
  · cases hi : d.init with
    | none => exact w.gives w.fine_zero
    | some e =>
      rw [hi] at hd
      cases e with
      | braces items => exact w.throws rfl
      | _ => exact w.value h hd

omit h in
theorem assigned (op : AssignOp) {old : Exec Value} (hold : w.rel True w.fine old old) {v : Value}
    (hv : w.fine v) : w.rel True (fun u => (∀ b, op.binary? = some b → w.checks b) → w.fine u)
      (Runner.assigned cfg op old v) (Runner.assigned cfg' op old v) := by
  unfold Runner.assigned
  cases hb : op.binary? with
  | none => exact w.gives fun _ => hv
  | some b =>
    apply w.bind hold
    intro u hu
    exact w.mono (w.binary b hu hv) id fun _ hw hchecks => hw (hchecks b rfl)

theorem assign {target : Target} (op : AssignOp) {value : Expr} (ht : w.scope.target target)
    (hv : w.scope.expr value) :
    w.rel (∀ b, op.binary? = some b → w.checks b) (fun _ => True) (r.assign cfg target op value)
      (r'.assign cfg' target op value) := by
  apply w.bind (w.value h hv)
  intro v hv
  cases target with
  | name x =>
    have hx : w.scope.writes x := ht.1 x List.mem_cons_self
    exact w.bind (w.assigned op (w.lookup x) hv) fun u hu => w.write hx hu
  | element x i =>
    apply w.bind (w.array x)
    intro ref href
    apply w.bind (w.index h x ref (i := i) ht)
    intro k _
    exact w.bind (w.assigned op (w.element k href) hv) fun u hu => w.writeElement ref k hu

/-- Calls apart, no form of expression has statements as parts. -/
theorem evalForm {e : Expr} (he : w.scope.expr e) (hcall : ∀ f args, e ≠ .call f args) :
    w.part (Vouched w.checks w.checksSteps e)
      (fun v => Vouched w.checks w.checksSteps e → w.fine v) (r.evalStep cfg e)
      (r'.evalStep cfg' e) := by
  have hfine {c : Prop} {a a' : Exec Value} (ha : w.rel True w.fine a a') :
      w.rel c (fun v => c → w.fine v) a a' := w.mono ha (fun _ => trivial) fun _ hv _ => hv
  apply w.tick h
  cases e with
  | number n mark => exact hfine (w.gives (w.literal _ (he.2 n List.mem_cons_self)))
  | string s => exact hfine (w.gives (w.text _))
  | char s => exact hfine (w.gives (w.small (Literal.codeOf_lt s)))
  | name x => exact hfine (w.lookup x)
  | binary op left right =>
    obtain ⟨hl, hr⟩ := Scope.covers_append.1 he
    exact w.mono (w.operator h op hl hr) (fun _ => trivial) fun _ hv => hv
  | unary op operand =>
    exact hfine (w.bind (w.value h (e := operand) he) fun v hv => w.unary op hv)
  | update op x before => exact w.update op before (he.1 x List.mem_cons_self)
  | addressOf operand => exact hfine (w.addressOf h (e := operand) he)
  | deref operand =>
    exact hfine (w.bind (w.value h (e := operand) he) fun v hv => w.dereference hv)
  | element x i =>
    apply hfine
    apply w.bind (w.array x)
    intro ref href
    exact w.bind (w.index h x ref (i := i) he) fun k _ => w.element k href
  | call f args => exact absurd rfl (hcall f args)
  | braces items => exact w.throws rfl

end Parts

end Walk

def Bounds.PrintsLike (cfg cfg' : Bounds) : Prop := cfg.outputFunction = cfg'.outputFunction

theorem Bounds.PrintsLike.refl (cfg : Bounds) : cfg.PrintsLike cfg := rfl

def State.flag (breaking continuing : Option Bool) (s : State) : State :=
  { s with breaking := breaking.getD s.breaking, continuing := continuing.getD s.continuing }

structure RunWalk (cfg cfg' : Bounds) extends Walk cfg cfg' where
  exec : ∀ {r r' : Runner} {s : Stmt}, runs r r' → scope.stmt s →
    part True (fun _ => True) (r.exec s) (r'.exec s)
  -- calls
  prints : cfg.PrintsLike cfg'
  output : ∀ {vs : List Value} (args : List Expr), (∀ v ∈ vs, fine v) →
    rel True fine
      (do print cfg (← lift (outputLine (← get) args vs)); return .int 0)
      (do print cfg' (← lift (outputLine (← get) args vs)); return .int 0)
  defined : ∀ {α : Type} {c : Prop} {P : α → Prop} {a a' : Function → Exec α} (f : String),
    (∀ fn : Function, scope.body fn.body → rel c P (a fn) (a' fn)) →
    rel c P
      (do match (← get).function? f with | none => throw (.undefinedFunction f) | some fn => a fn)
      (do match (← get).function? f with | none => throw (.undefinedFunction f) | some fn => a' fn)
  enter : ∀ {r r' : Runner} {fn : Function} {vs : List Value} (f : String), runs r r' →
    scope.body fn.body → (∀ v ∈ vs, fine v) →
    rel True fine (do Runner.checkDepth cfg r.levels f; r.enter f fn vs)
      (do Runner.checkDepth cfg' r'.levels f; r'.enter f fn vs)
  -- statements
  asks : ∀ {q : State → Bool}, (∀ s F k, q { s with frames := F, steps := k } = q s) →
    rel True (fun _ => True) (do return q (← get)) (do return q (← get))
  flags : ∀ breaking continuing : Option Bool,
    rel True (fun _ => True) (modify (·.flag breaking continuing) : Exec Unit)
      (modify (·.flag breaking continuing))
  returned : ∀ {v : Value}, fine v →
    rel True (fun _ => True) (modify fun s => { s with returnValue := some v } : Exec Unit)
      (modify fun s => { s with returnValue := some v })
  define : ∀ {fn : Function} (name : String) (params : Nat), scope.body fn.body →
    rel True (fun _ => True) (do record (.registering name params); modify (·.define name fn))
      (do record (.registering name params); modify (·.define name fn))
  equal : ∀ v u, rel True (fun _ => True) (equal v u) (equal v u)
  rounds : ∀ {a a' b b' : Exec Bool} {x x' : Exec Unit}, rel True (fun _ => True) a a' →
    part True (fun _ => True) x x' → rel True (fun _ => True) b b' →
    rel True (fun _ => True)
      (loop cfg (do if ← a then x; b else return false))
      (loop cfg' (do if ← a' then x'; b' else return false))

namespace RunWalk

variable {cfg cfg' : Bounds} (w : RunWalk cfg cfg') {r r' : Runner}

theorem isInterrupted : w.rel True (fun _ => True) isInterrupted isInterrupted :=
  w.asks fun _ _ _ => rfl

theorem endRound : w.rel True (fun _ => True) endRound endRound := by
  have hendRound : Exec.endRound = (do
      let goesOn ← (do let s ← get; return !(s.breaking || s.returnValue.isSome) : Exec Bool)
      modify fun s => { s with breaking := false, continuing := false }
      return goesOn) := rfl
  rw [hendRound]
  apply w.bind (w.asks fun _ _ _ => rfl)
  intro goesOn _
  exact w.bind (w.flags (some false) (some false)) fun _ _ => w.gives trivial

section Parts

variable (h : w.runs r r')
include h

theorem done {s : Stmt} (hs : w.scope.stmt s) :
    w.rel True (fun _ => True) (r.exec s) (r'.exec s) := w.ofPart (w.exec h hs)

theorem call (f : String) {args : List Expr} (hs : w.scope.exprs args) :
    w.rel True w.fine (r.call cfg f args) (r'.call cfg' f args) := by
  unfold Runner.call
  rw [← show cfg.outputFunction = cfg'.outputFunction from w.prints]
  split
  · exact w.bind (w.evalAll h hs) fun vs hvs => w.output args hvs
  · apply w.defined f
    intro fn hfn
    exact w.bind (w.evalAll h hs) fun vs hvs => w.enter f h hfn hvs

theorem evalStep {e : Expr} (he : w.scope.expr e) :
    w.part (Vouched w.checks w.checksSteps e)
      (fun v => Vouched w.checks w.checksSteps e → w.fine v) (r.evalStep cfg e)
      (r'.evalStep cfg' e) := by
  cases e with
  | call f args =>
    have hargs : w.scope.exprs args := he
    exact w.tick h (w.mono (w.call h f hargs) id fun _ hv _ => hv)
  | _ => exact w.evalForm h he (by simp)

theorem sequence {ss : List Stmt} (hs : w.scope.stmts ss) :
    w.rel True (fun _ => True) (r.sequence ss) (r'.sequence ss) := by
  induction ss with
  | nil => exact w.gives trivial
  | cons s ss ih =>
    obtain ⟨hs, hss⟩ := Scope.covers_append.1 hs
    apply w.bind w.isInterrupted
    intro interrupted _
    cases interrupted with
    | true => exact w.gives trivial
    | false => exact w.bind (w.done h hs) fun _ _ => ih hss

theorem optional {o : Option Stmt} (ho : w.scope.optionStmt o) :
    w.rel True (fun _ => True) (r.optional o) (r'.optional o) := by
  cases o with
  | none => exact w.gives trivial
  | some s => exact w.done h ho

theorem whileRounds {condition : Option Expr} {body : Stmt} {step : Option Stmt}
    (hc : w.scope.optionExpr condition) (hb : w.scope.stmt body) (hs : w.scope.optionStmt step) :
    w.rel True (fun _ => True) (loop cfg (r.round condition body step))
      (loop cfg' (r'.round condition body step)) := by
  have hholds : w.rel True (fun _ => True) (r.holds condition) (r'.holds condition) := by
    cases condition with
    | none => exact w.gives trivial
    | some c => exact w.bind (w.value h hc) fun v _ => w.gives trivial
  apply w.rounds hholds (w.exec h hb)
  apply w.bind w.endRound
  intro goesOn _
  cases goesOn with
  | false => exact w.gives trivial
  | true => exact w.bind (w.optional h hs) fun _ _ => w.gives trivial

theorem doRounds {body : Stmt} {condition : Expr} (hb : w.scope.stmt body)
    (hc : w.scope.expr condition) : w.rel True (fun _ => True) (loop cfg (r.doRound body condition))
      (loop cfg' (r'.doRound body condition)) := by
  have hfirst : w.rel True (fun _ => True) (pure true : Exec Bool) (pure true) := w.gives trivial
  apply w.rounds hfirst (w.exec h hb)
  apply w.bind w.endRound
  intro goesOn _
  cases goesOn with
  | false => exact w.gives trivial
  | true => exact w.bind (w.value h hc) fun v _ => w.gives trivial

theorem runCases (test : Value) (matched : Bool) {cs : List SwitchCase} (hs : w.scope.cases cs) :
    w.rel True (fun _ => True) (r.runCases test matched cs) (r'.runCases test matched cs) := by
  induction cs generalizing matched with
  | nil => exact w.gives trivial
  | cons c cs ih =>
    obtain ⟨value, body⟩ := c
    obtain ⟨hcase, hcs⟩ := Scope.covers_append.1 hs
    obtain ⟨hv, hb⟩ := Scope.covers_append.1 hcase
    have hcase : w.rel True (fun _ => True) (r.isCase test matched value)
        (r'.isCase test matched value) := by
      cases matched with
      | true => exact w.gives trivial
      | false => exact w.bind (w.value h hv) fun v _ => w.equal v test
    apply w.bind hcase
    intro isCase _
    cases isCase with
    | false => exact ih false hcs
    | true =>
      apply w.bind (w.sequence h hb)
      intro _ _
      apply w.bind w.isInterrupted
      intro interrupted _
      cases interrupted with
      | true => exact w.gives trivial
      | false => exact ih true hcs

theorem switch {test : Expr} {cases : List SwitchCase} {otherwise : Option (List Stmt)}
    (ht : w.scope.expr test) (hc : w.scope.cases cases) (ho : w.scope.optionStmts otherwise) :
    w.rel True (fun _ => True) (r.switch test cases otherwise)
      (r'.switch test cases otherwise) := by
  apply w.bind (w.value h ht)
  intro v _
  apply w.bind (w.runCases h v false hc)
  intro matched _
  cases matched with
  | true => exact w.flags (some false) none
  | false => exact w.bind (w.sequence h (Scope.stmts_getD ho)) fun _ _ => w.flags (some false) none

theorem execStep {s : Stmt} (hs : w.scope.stmt s) :
    w.part (Stored w.checks s) (fun _ => True) (r.execStep cfg s) (r'.execStep cfg' s) := by
  have hplain {s : Stmt} {a a' : Exec Unit} (ha : w.rel True (fun _ => True) a a') :
      w.rel (Stored w.checks s) (fun _ => True) a a' :=
    w.mono ha (fun _ => trivial) fun _ _ => trivial
  apply w.tick h
  cases s with
  | expr e => exact hplain (w.bind (w.value h (e := e) hs) fun _ _ => w.gives trivial)
  | declare d =>
    obtain ⟨hx, hd⟩ := Scope.covers_cons.1 hs
    exact hplain (w.bind (w.initialValue h hd) fun v hv => w.write hx fun _ => hv)
  | assign target op value =>
    obtain ⟨ht, hv⟩ := Scope.covers_append.1 hs
    exact w.assign h op ht hv
  | function type name params body => exact hplain (w.define name params.length hs.2)
  | block body =>
    have hbody : w.scope.stmts body := hs
    exact hplain (w.sequence h hbody)
  | branch c yes no =>
    obtain ⟨hcy, hn⟩ := Scope.covers_append.1 hs
    obtain ⟨hc, hy⟩ := Scope.covers_append.1 hcy
    apply hplain
    apply w.bind (w.value h hc)
    intro v _
    split
    · exact w.done h hy
    · exact w.optional h hn
  | whileLoop c body =>
    obtain ⟨hc, hb⟩ := Scope.covers_append.1 hs
    have hcondition : w.scope.optionExpr (some c) := hc
    have hstep : w.scope.optionStmt none := Scope.covers_nil
    exact hplain (w.whileRounds h hcondition hb hstep)
  | doLoop body c =>
    obtain ⟨hc, hb⟩ := Scope.covers_append.1 hs
    exact hplain (w.doRounds h hb hc)
  | forLoop init c step body =>
    obtain ⟨hics, hb⟩ := Scope.covers_append.1 hs
    obtain ⟨hic, hstep⟩ := Scope.covers_append.1 hics
    obtain ⟨hi, hc⟩ := Scope.covers_append.1 hic
    exact hplain (w.bind (w.optional h hi) fun _ _ => w.whileRounds h hc hb hstep)
  | switch test cases otherwise =>
    obtain ⟨htc, ho⟩ := Scope.covers_append.1 hs
    obtain ⟨ht, hc⟩ := Scope.covers_append.1 htc
    exact hplain (w.switch h ht hc ho)
  | ret value =>
    cases value with
    | none => exact hplain (w.returned w.fine_zero)
    | some e => exact hplain (w.bind (w.value h (e := e) hs) fun v hv => w.returned hv)
  | breakOut => exact hplain (w.flags (some true) none)
  | continueOn => exact hplain (w.flags none (some true))
  | preprocessor text => exact hplain (w.gives trivial)

theorem start : w.rel True (fun _ => True) (Machine.start cfg r) (Machine.start cfg' r') := by
  have hstart (cfg : Bounds) (r : Runner) : Machine.start cfg r = (do
      let called ← (do
        let s ← get
        return (s.function? entryPoint).isSome && s.returnValue.isNone : Exec Bool)
      if called then
        modify fun s => { s with breaking := false, continuing := false }
        let v ← r.call cfg entryPoint []
        modify fun s => { s with returnValue := some v }
      else return ()) := rfl
  rw [hstart, hstart]
  apply w.bind (w.asks fun _ _ _ => rfl)
  intro called _
  cases called with
  | false => exact w.gives trivial
  | true =>
    apply w.bind (w.flags (some false) (some false))
    intro _ _
    exact w.bind (w.call h entryPoint Scope.covers_nil) fun v hv => w.returned hv

theorem runTree {t : Tree} (ht : w.scope.tree t) :
    w.rel True (fun _ => True) (Machine.runTree cfg r t) (Machine.runTree cfg' r' t) := by
  have hnone (f : String) : w.rel True (fun _ => True)
      (do tick cfg r.levels; tick cfg r.levels; throw (.noValue f) : Exec Unit)
      (do tick cfg' r'.levels; tick cfg' r'.levels; throw (.noValue f)) :=
    w.ofPart (w.tick h (w.ofPart (w.tick h (w.throws rfl))))
  cases t with
  | program body =>
    have hbody : w.scope.stmts body := ht
    exact w.bind (w.sequence h hbody) fun _ _ => w.start h
  | stmt s =>
    cases s with
    | expr e => exact w.bind (w.value h (e := e) ht) fun v hv => w.returned hv
    | _ => exact w.done h ht
  | switchCase c => exact hnone _
  | parameter p => exact hnone _

end Parts

end RunWalk

end MiniC.Machine

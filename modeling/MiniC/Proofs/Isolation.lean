import MiniC.Proofs.Walks
import MiniC.Proofs.Watermark

/-! Calls do not see their callers. An action is blind at a watermark if in two states beside one
another it does the same: it gives the same value, which refers to nothing below, or the same fault,
and leaves states that are beside one another again. Every part of a run is blind. Main statement: a
call with numbers and texts for arguments is not affected by what the frames that exist bind. -/

namespace MiniC.Machine

open Exec

/-- Two ways to end that are the same but for frames below a watermark, with the stack as it was. -/
inductive Matched (w : Watermark) {α : Type} (P : α → Prop) (stack : List Nat) :
    EStateM.Result Fault State α → EStateM.Result Fault State α → Prop
  | ok {x : α} {s t : State} : P x → Inside w s t → s.stack = stack →
      Matched w P stack (.ok x s) (.ok x t)
  | error {f : Fault} {s t : State} :
      Inside w s t → s.stack = stack → Matched w P stack (.error f s) (.error f t)

def Agree (w : Watermark) {α : Type} (P : α → Prop) (a a' : Exec α) : Prop :=
  ∀ s t, Inside w s t → Matched w P s.stack (a s) (a' t)

abbrev Blind (w : Watermark) {α : Type} (P : α → Prop) (a : Exec α) : Prop := Agree w P a a

abbrev Plainly (w : Watermark) {α : Type} (a : Exec α) : Prop := Blind w (fun _ => True) a

section Composed

variable {w : Watermark} {α β : Type} {P : α → Prop} {Q : β → Prop} {a : Exec α} {f : α → Exec β}

theorem Agree.bind {a a' : Exec α} {f f' : α → Exec β} (h : Agree w P a a')
    (hf : ∀ x, P x → Agree w Q (f x) (f' x)) : Agree w Q (a >>= f) (a' >>= f') := by
  intro s t hst
  have ha := h s t hst
  generalize hs : a s = r, ht : a' t = r' at ha
  cases ha with
  | ok hx huv hstack =>
    rw [bind_of_ok hs f, bind_of_ok ht f', ← hstack]
    exact hf _ hx _ _ huv
  | error huv hstack =>
    rw [bind_of_error hs f, bind_of_error ht f']
    exact .error huv hstack

theorem Agree.mono {P' : α → Prop} {a a' : Exec α} (h : Agree w P a a') (hP : ∀ x, P x → P' x) :
    Agree w P' a a' := by
  intro s t hst
  have ha := h s t hst
  generalize a s = r, a' t = r' at ha
  cases ha with
  | ok hx huv hstack => exact .ok (hP _ hx) huv hstack
  | error huv hstack => exact .error huv hstack

theorem blind_pure {x : α} (hx : P x) : Blind w P (pure x) := by
  intro s t hst
  exact .ok hx hst rfl

theorem plainly_pure (x : α) : Plainly w (pure x) := blind_pure trivial

theorem blind_throw (g : Fault) : Blind w P (throw g : Exec α) := by
  intro s t hst
  exact .error hst rfl

theorem blind_lift (x : Except Fault α) : Plainly w (lift x) := by
  cases x with
  | ok a => exact plainly_pure a
  | error g => exact blind_throw g

theorem blind_liftNumber (x : Except Number.Fault α) : Plainly w (liftNumber x) := by
  cases x with
  | ok a => exact plainly_pure a
  | error g => exact blind_throw (.number g)

/-- A state may be looked at where that shows the same in both. -/
theorem blind_get {f : State → Exec α} (heq : ∀ s t, Inside w s t → f t = f s)
    (hf : ∀ s t, Inside w s t → Blind w P (f s)) : Blind w P (get >>= f) := by
  intro s t hst
  change Matched w P s.stack (f s s) (f t t)
  rw [heq s t hst]
  exact hf s t hst s t hst

theorem blind_rest {f : State → Exec α}
    (heq : ∀ (s : State) (F : Array Frame), f { s with frames := F } = f s)
    (hf : ∀ s t, Inside w s t → Blind w P (f s)) : Blind w P (get >>= f) := by
  apply blind_get _ hf
  intro s t hst
  obtain ⟨F, rfl, -⟩ := hst.same
  exact heq s F

theorem blind_modify {f : State → State}
    (h : ∀ s t, Inside w s t → Inside w (f s) (f t) ∧ (f s).stack = s.stack) :
    Plainly w (modify f : Exec Unit) := by
  intro s t hst
  obtain ⟨hbeside, hstack⟩ := h s t hst
  exact .ok trivial hbeside hstack

theorem blind_control {f : State → State}
    (hf : ∀ (s : State) (F : Array Frame), f { s with frames := F } = { f s with frames := F })
    (h : ∀ s : State, f s = { f s with
      frames := s.frames, arrays := s.arrays, stack := s.stack, returnValue := s.returnValue }) :
    Plainly w (modify f : Exec Unit) := by
  apply blind_modify
  intro s t hst
  have hframes : (f s).frames = s.frames := by rw [h s]
  have harrays : (f s).arrays = s.arrays := by rw [h s]
  have hstack : (f s).stack = s.stack := by rw [h s]
  have hreturn : (f s).returnValue = s.returnValue := by rw [h s]
  refine ⟨hst.map hf hframes hstack (hst.closed.of_eq hframes harrays) ?_, hstack⟩
  rw [hreturn]
  exact hst.returned

end Composed

section Actions

variable {w : Watermark}

theorem blind_record (r : Record) : Plainly w (record r) :=
  blind_control (fun _ _ => rfl) fun _ => rfl

theorem blind_stopAt (cfg : Bounds) (left : Nat) (r : Record) (f : Fault) :
    Plainly w (stopAt cfg left r f) := by
  unfold stopAt
  split
  · exact (blind_record r).bind fun _ _ => blind_throw f
  · exact blind_throw _

theorem blind_tick (cfg : Bounds) (left : Nat) : Plainly w (tick cfg left) := by
  have hcount : Plainly w (modify fun s => { s with steps := s.steps + 1 }) :=
    blind_control (fun _ _ => rfl) fun _ => rfl
  apply hcount.bind
  intro _ _
  apply blind_rest fun _ _ => rfl
  intro s t _
  split
  · exact blind_stopAt cfg left _ _
  · exact plainly_pure ()

theorem blind_fresh : Plainly w fresh := by
  intro s t hst
  have hnext : Inside w { s with fresh := s.fresh + 1 } { t with fresh := t.fresh + 1 } :=
    hst.map (f := fun s => { s with fresh := s.fresh + 1 }) (fun _ _ => rfl) rfl rfl
      (hst.closed.of_eq rfl rfl)
      hst.returned
  obtain ⟨F, rfl, -⟩ := hst.same
  exact .ok trivial hnext rfl

theorem blind_computed (n : Number) : Blind w (Value.Since w) (computed n) := by
  unfold computed
  split
  · exact blind_fresh.bind fun k _ => blind_pure (Value.since_ofNumber w n (.computed k))
  · exact blind_pure trivial

theorem blind_lookup (x : String) : Blind w (Value.Since w) (lookup x) := by
  apply blind_get
  · intro s t hst
    rw [hst.top_eq, hst.read_eq hst.top]
  · intro s t hst
    exact blind_pure (hst.closed.read hst.top x)

theorem blind_bind (x : String) {v : Value} (hv : v.Since w) : Plainly w (Exec.bind x v) := by
  apply blind_modify
  intro s t hst
  exact ⟨hst.bind x hv, rfl⟩

theorem blind_newArray {items : List Value} (hi : ∀ v ∈ items, v.Since w) :
    Blind w (Value.Since w) (newArray items) := by
  intro s t hst
  have hnext : Inside w (s.newArray items.toArray) (t.newArray items.toArray) :=
    hst.map (f := fun s => s.newArray items.toArray) (fun _ _ => rfl) rfl rfl
      (hst.closed.newArray (by simpa using hi)) hst.returned
  obtain ⟨F, rfl, -⟩ := hst.same
  exact .ok hst.closed.arrays hnext rfl

theorem blind_element {ref : Nat} (hr : w.arrays ≤ ref) (i : Nat) :
    Blind w (Value.Since w) (element ref i) := by
  apply blind_get
  · intro s t hst
    rw [hst.elements_eq]
  · intro s t hst
    exact blind_pure (hst.closed.element hr i)

theorem blind_writeElement (ref i : Nat) {v : Value} (hv : v.Since w) :
    Plainly w (modify (·.writeElement ref i v) : Exec Unit) := by
  apply blind_modify
  intro s t hst
  exact ⟨hst.map (f := fun s => s.writeElement ref i v) (fun _ _ => rfl) rfl rfl
    (hst.closed.writeElement ref i hv)
    hst.returned, rfl⟩

theorem blind_checkIndex (x : String) (ref : Nat) (v : Value) : Plainly w (checkIndex x ref v) := by
  unfold checkIndex
  cases indexValue? v with
  | none => exact blind_throw _
  | some i =>
    apply blind_get
    · intro s t hst
      rw [hst.elements_eq]
    · intro s t _
      dsimp only
      split
      · exact plainly_pure _
      · exact (blind_lift _).bind fun _ _ => blind_throw _

theorem blind_newPointer (x : String) (i : Option Int) :
    Blind w (Value.Since w) (newPointer x i) := by
  apply blind_fresh.bind
  intro serial _
  apply blind_get
  · intro s t hst
    rw [hst.top_eq]
  · intro s t hst
    exact blind_pure hst.top

theorem blind_follow {p : Pointer} (hp : w.frames ≤ p.frame) :
    Blind w (Value.Since w) (follow p) := by
  have hdangling : Blind w (Value.Since w) (lift p.text >>= fun t => throw (.dangling t)) :=
    (blind_lift _).bind fun _ _ => blind_throw _
  apply blind_get
  · intro s t hst
    rw [hst.read_eq hp, hst.elements_eq]
  · intro s t hst
    have hread := hst.closed.read hp p.name
    dsimp only
    split
    · exact blind_pure hread
    · rename_i ref hv
      rw [hv] at hread
      split
      · exact blind_pure (hst.closed.element hread _)
      · exact hdangling
    · exact hdangling

theorem blind_dereference {v : Value} (hv : v.Since w) :
    Blind w (Value.Since w) (dereference v) := by
  have hlist : Blind w (Value.Since w) (get >>= fun s => lift (s.list v) >>= fun t =>
      throw (.notPointer t)) := by
    apply blind_get
    · intro s t hst
      rw [State.list, State.list, hst.listing_eq depthBudget _ hv]
    · intro s t _
      exact (blind_lift _).bind fun _ _ => blind_throw _
  cases v with
  | pointer p => exact blind_follow hv
  | array ref =>
    apply blind_get
    · intro s t hst
      rw [hst.elements_eq]
    · intro s t _
      split
      · exact hlist
      · exact blind_element hv 0
  | _ => exact hlist

theorem blind_negate (v : Value) : Blind w (Value.Since w) (negate v) := by
  cases v with
  | number n o => exact blind_computed _
  | _ => exact blind_throw _

theorem blind_stepped (op : UpdateOp) (v : Value) : Blind w (Value.Since w) (stepped op v) := by
  cases v with
  | number n o => exact blind_computed _
  | _ => exact blind_throw _

theorem blind_binary (cfg : Bounds) (op : BinaryOp) (v u : Value) :
    Blind w (Value.Since w) (binary cfg op v u) := by
  unfold binary
  split
  · split
    · exact (blind_liftNumber _).bind fun n _ => blind_computed n
    · exact blind_throw _
  · apply blind_get
    · intro s t hst
      rw [State.relate_eq hst.elements_eq]
    · intro s t _
      exact (blind_lift _).bind fun b _ => blind_pure (Value.since_ofBool w b)

theorem blind_equal (v u : Value) : Plainly w (equal v u) := by
  apply blind_get
  · intro s t hst
    rw [State.equal_eq hst.elements_eq]
  · intro s t _
    exact blind_lift _

theorem blind_print (cfg : Bounds) (line : List Char) : Plainly w (print cfg line) := by
  have hcount : Plainly w (modify fun s => { s with outputChars := s.outputChars + line.length }) :=
    blind_control (fun _ _ => rfl) fun _ => rfl
  apply hcount.bind
  intro _ _
  apply blind_rest fun _ _ => rfl
  intro s t _
  split
  · exact blind_throw _
  · exact blind_control (fun _ _ => rfl) fun _ => rfl

theorem blind_return {v : Value} (hv : v.Since w) :
    Plainly w (modify fun s => { s with returnValue := some v } : Exec Unit) := by
  apply blind_modify
  intro s t hst
  refine ⟨hst.map (f := fun s => { s with returnValue := some v }) (fun _ _ => rfl) rfl rfl
    (hst.closed.of_eq rfl rfl) ?_, rfl⟩
  rintro u ⟨⟩
  exact hv

theorem agree_repeatUpTo (cfg : Bounds) {round round' : Exec Bool}
    (h : Agree w (fun _ => True) round round') (n : Nat) :
    Agree w (fun _ => True) (repeatUpTo cfg round n) (repeatUpTo cfg round' n) := by
  induction n with
  | zero => exact blind_throw _
  | succ n ih =>
    apply h.bind
    intro goesOn _
    cases goesOn with
    | true => exact ih
    | false => exact plainly_pure ()

theorem blind_checkDepth (cfg : Bounds) (left : Nat) (f : String) :
    Plainly w (Runner.checkDepth cfg left f) := by
  apply blind_rest fun _ _ => rfl
  intro s t _
  split
  · exact blind_stopAt cfg left _ _
  · exact plainly_pure ()

theorem blind_noAddress (left : Nat) (e : Expr) :
    Blind w (Value.Since w) (Runner.noAddress left e) := by
  unfold Runner.noAddress
  split
  · exact blind_throw _
  · exact (blind_liftNumber _).bind fun _ _ => blind_throw _

theorem blind_unary (op : UnaryOp) {v : Value} (hv : v.Since w) :
    Blind w (Value.Since w) (Runner.unary op v) := by
  cases op with
  | neg => exact blind_negate v
  | pos => exact blind_pure hv
  | not => exact blind_pure (Value.since_ofBool w _)

theorem blind_update (op : UpdateOp) (x : String) (before : Bool) :
    Blind w (Value.Since w) (Runner.update op x before) := by
  apply (blind_lookup x).bind
  intro old hold
  apply (blind_stepped op old).bind
  intro new hnew
  apply (blind_bind x hnew).bind
  intro _ _
  cases before with
  | true => exact blind_pure hnew
  | false => exact blind_pure hold

theorem blind_arrayLength (d : Declaration) (items : List Value) :
    Plainly w (Runner.arrayLength d items) := by
  unfold Runner.arrayLength
  cases d.size with
  | none => exact plainly_pure _
  | some n => exact blind_liftNumber _

theorem blind_filledArray (cfg : Bounds) (x : String) (length : Int) {items : List Value}
    (hi : ∀ v ∈ items, v.Since w) :
    Blind w (Value.Since w) (Runner.filledArray cfg x length items) := by
  unfold Runner.filledArray
  split
  · exact blind_throw _
  split
  · exact (blind_lift _).bind fun _ _ => blind_throw _
  · apply blind_newArray
    intro v hv
    rcases List.mem_append.1 hv with hv | hv
    · exact hi v hv
    · rw [(List.mem_replicate.1 hv).2]
      exact Value.since_int w 0

theorem blind_output (cfg : Bounds) (args : List Expr) {vs : List Value}
    (hvs : ∀ v ∈ vs, v.Since w) : Blind w (Value.Since w)
      (do print cfg (← lift (outputLine (← get) args vs)); return Value.int 0) := by
  apply blind_get
  · intro s t hst
    rw [hst.outputLine_eq args hvs]
  · intro s t _
    apply (blind_lift _).bind
    intro line _
    exact (blind_print cfg line).bind fun _ _ => blind_pure (Value.since_int w 0)

end Actions

structure Runner.IsBlind (w : Watermark) (r : Runner) : Prop where
  eval : ∀ e : Expr, Blind w (Value.Since w) (r.eval e)
  exec : ∀ s : Stmt, Plainly w (r.exec s)

namespace Runner.IsBlind

variable {w : Watermark} {r : Runner} (h : r.IsBlind w)
include h

theorem body (fn : Function) : Blind w (Value.Since w) (r.body fn) := by
  apply (h.exec (.block fn.body)).bind
  intro _ _
  apply blind_rest fun _ _ => rfl
  intro s t hst
  apply blind_pure
  cases hv : s.returnValue with
  | none => exact Value.since_int w 0
  | some v => exact hst.returned v hv

theorem enter (f : String) (fn : Function) {vs : List Value} (hvs : ∀ v ∈ vs, v.Since w) :
    Blind w (Value.Since w) (r.enter f fn vs) := by
  intro s t hst
  have hbody := h.body fn _ _ (hst.toBeside.enter f fn hvs)
  change Matched w _ s.stack (andThen (r.body fn) (State.leave f s.returnValue) (s.enter f fn vs))
    (andThen (r.body fn) (State.leave f t.returnValue) (t.enter f fn vs))
  unfold andThen
  generalize r.body fn (s.enter f fn vs) = x, r.body fn (t.enter f fn vs) = y at hbody ⊢
  have htail {u : State} (hu : u.stack = (s.enter f fn vs).stack) : u.stack.tail = s.stack := by
    rw [hu]
    rfl
  cases hbody with
  | ok hv huv hstack => exact .ok hv (hst.leave huv hstack) (htail hstack)
  | error huv hstack => exact .error (hst.leave huv hstack) (htail hstack)

end Runner.IsBlind

theorem State.SameButFrames.function?_eq {s t : State} (h : s.SameButFrames t) (f : String) :
    t.function? f = s.function? f := by
  obtain ⟨F, rfl, -⟩ := h
  rfl

theorem agree_defined {w : Watermark} {α : Type} {P : α → Prop} {a a' : Function → Exec α}
    (f : String) (h : ∀ fn, Agree w P (a fn) (a' fn)) :
    Agree w P
      (do match (← get).function? f with
        | none => throw (.undefinedFunction f)
        | some fn => a fn)
      (do match (← get).function? f with
        | none => throw (.undefinedFunction f)
        | some fn => a' fn) := by
  intro s t hst
  change Matched w _ s.stack ((match s.function? f with | none => _ | some fn => _ : Exec _) s)
    ((match t.function? f with | none => _ | some fn => _ : Exec _) t)
  rw [hst.same.function?_eq]
  cases s.function? f with
  | none => exact .error hst rfl
  | some fn => exact h fn s t hst

def blindWalk (cfg : Bounds) (w : Watermark) : RunWalk cfg cfg where
  scope := ⟨fun _ => True, fun _ => True⟩
  fine := Value.Since w
  checks _ := True
  checksSteps := True
  rel c P a a' := c → Agree w P a a'
  part c P a a' := c → Agree w P a a'
  runs r r' := r = r' ∧ r.IsBlind w
  gives hx _ := blind_pure hx
  throws _ _ := blind_throw _
  bind ha hf hc := (ha trivial).bind fun x hx => hf x hx hc
  mono h hc hP hc' := (h (hc hc')).mono hP
  ofPart h := h
  tick := by
    rintro α c P a a' r _ ⟨rfl, -⟩ ha hc
    exact (blind_tick cfg r.levels).bind fun _ _ => ha hc
  eval := by
    rintro r _ e ⟨rfl, h⟩ - -
    exact h.eval e
  literal o _ := Value.since_ofNumber w _ o
  text _ := trivial
  small _ := Value.since_int w _
  lookup x _ := blind_lookup x
  element i hr _ := blind_element hr i
  checkIndex x ref v _ := blind_checkIndex x ref v
  newPointer x i _ := blind_newPointer x i
  noAddress := by
    rintro r _ e ⟨rfl, -⟩ -
    exact blind_noAddress r.levels e
  dereference hv _ := blind_dereference hv
  unary op hv _ := blind_unary op hv
  update op before _ _ := (blind_update op _ before).mono fun _ hv _ => hv
  binary op _ _ _ := (blind_binary cfg op _ _).mono fun _ hv _ => hv
  arrayLength d items _ := blind_arrayLength d items
  filledArray x length hi _ := blind_filledArray cfg x length hi
  write _ hv hc := blind_bind _ (hv hc)
  writeElement ref i hv hc := blind_writeElement ref i (hv hc)
  exec := by
    rintro r _ s ⟨rfl, h⟩ - -
    exact h.exec s
  prints := .refl cfg
  output args hvs _ := blind_output cfg args hvs
  defined f ha hc := agree_defined f fun fn => ha fn (fun _ _ => trivial) hc
  enter := by
    rintro r _ fn vs f ⟨rfl, h⟩ - hvs -
    exact (blind_checkDepth cfg r.levels f).bind fun _ _ => h.enter f fn hvs
  asks hq _ := by
    apply blind_rest
    · intro s F
      exact congrArg pure (hq s F s.steps)
    · intro s t _
      exact plainly_pure _
  flags _ _ _ := blind_control (fun _ _ => rfl) fun _ => rfl
  returned hv _ := blind_return hv
  define name params _ _ :=
    (blind_record _).bind fun _ _ => blind_control (fun _ _ => rfl) fun _ => rfl
  equal v u _ := blind_equal v u
  rounds ha hx hb _ := by
    apply agree_repeatUpTo
    apply (ha trivial).bind
    intro goesOn _
    cases goesOn with
    | true => exact (hx trivial).bind fun _ _ => hb trivial
    | false => exact plainly_pure false

theorem runner_isBlind (cfg : Bounds) (w : Watermark) (n : Nat) : (runner cfg n).IsBlind w := by
  have hscope {W : List String} {N : List Number} : (blindWalk cfg w).scope.Covers W N :=
    ⟨fun _ _ => trivial, fun _ _ => trivial⟩
  have hchecks (op : BinaryOp) : (blindWalk cfg w).checks op := trivial
  induction n with
  | zero => exact ⟨fun _ => blind_throw _, fun _ => blind_throw _⟩
  | succ n ih =>
    refine ⟨fun e => ?_, fun s => ?_⟩
    · have he := vouched_of_checks hchecks trivial e
      exact ((blindWalk cfg w).evalStep ⟨rfl, ih⟩ hscope he).mono fun _ hv => hv he
    · exact (blindWalk cfg w).execStep ⟨rfl, ih⟩ hscope (stored_of_checks hchecks s)

def Value.isPlain : Value → Bool
  | .number .. | .text _ => true
  | .array _ | .pointer _ => false

theorem Value.since_of_isPlain {v : Value} (h : v.isPlain = true) (w : Watermark) : v.Since w := by
  cases v with
  | number n o => trivial
  | text s => trivial
  | array ref => cases h
  | pointer p => cases h

/-- A call whose arguments have been evaluated. How they were written matters to the output function
only. -/
def Runner.callWith (cfg : Bounds) (r : Runner) (f : String) (args : List Expr) (vs : List Value) :
    Exec Value := do
  if f = cfg.outputFunction then
    print cfg (← lift (outputLine (← get) args vs))
    return .int 0
  else match (← get).function? f with
    | none => throw (.undefinedFunction f)
    | some fn =>
      checkDepth cfg r.levels f
      r.enter f fn vs

/-- A call of a defined function evaluates its arguments, and goes on with them alone if that has
not defined the function anew. -/
theorem Runner.call_eq_callWith {cfg : Bounds} {r : Runner} {f : String} {args : List Expr}
    {vs : List Value} {s t : State} {fn : Function} (hs : s.function? f = some fn)
    (ht : t.function? f = some fn) (h : r.evalAll args s = .ok vs t) :
    r.call cfg f args s = r.callWith cfg f args vs t := by
  unfold Runner.call Runner.callWith
  split
  · rw [bind_of_ok h]
  · change (match s.function? f with | none => _ | some fn => _ : Exec Value) s =
      (match t.function? f with | none => _ | some fn => _ : Exec Value) t
    rw [hs, ht]
    exact bind_of_ok h _

/-- Two ways to end that are told apart by nothing but the frames of the last state: with the same
value or the same fault, and the same output, steps and functions. -/
inductive SameEnd {α : Type} : EStateM.Result Fault State α → EStateM.Result Fault State α → Prop
  | ok {x : α} {s t : State} : s.SameButFrames t → SameEnd (.ok x s) (.ok x t)
  | error {f : Fault} {s t : State} : s.SameButFrames t → SameEnd (.error f s) (.error f t)

theorem SameEnd.bind {α β : Type} {a : Exec α} {f : α → Exec β} {s t : State}
    (h : SameEnd (a s) (a t)) (hf : ∀ x u v, u.SameButFrames v → SameEnd (f x u) (f x v)) :
    SameEnd ((a >>= f) s) ((a >>= f) t) := by
  generalize hs : a s = r, ht : a t = r' at h
  cases h with
  | ok huv =>
    rw [bind_of_ok hs f, bind_of_ok ht f]
    exact hf _ _ _ huv
  | error huv =>
    rw [bind_of_error hs f, bind_of_error ht f]
    exact .error huv

section Isolated

variable {s t : State} (h : s.SameButFrames t) (cfg : Bounds)
include h

theorem sameEnd_print (line : List Char) : SameEnd (print cfg line s) (print cfg line t) := by
  obtain ⟨F, rfl, hF⟩ := h
  rcases Nat.lt_or_ge cfg.maxOutputChars (s.outputChars + line.length) with hlt | hle
  · rw [print_of_lt hlt, @print_of_lt cfg line { s with frames := F } hlt]
    exact .error ⟨F, rfl, hF⟩
  · rw [print_of_le hle, @print_of_le cfg line { s with frames := F } hle]
    exact .ok ⟨F, rfl, hF⟩

theorem sameEnd_stopAt (left : Nat) (r : Record) (f : Fault) :
    SameEnd (stopAt cfg left r f s) (stopAt cfg left r f t) := by
  obtain ⟨F, rfl, hF⟩ := h
  unfold stopAt
  split
  · exact .error ⟨F, rfl, hF⟩
  · exact .error ⟨F, rfl, hF⟩

theorem sameEnd_checkDepth (left : Nat) (f : String) :
    SameEnd (Runner.checkDepth cfg left f s) (Runner.checkDepth cfg left f t) := by
  have hstack : t.stack = s.stack := by
    obtain ⟨F, rfl, -⟩ := h
    rfl
  rcases Nat.lt_or_ge cfg.maxCallDepth s.stack.length with hlt | hle
  · rw [checkDepth_of_lt hlt, checkDepth_of_lt (hstack ▸ hlt)]
    exact sameEnd_stopAt h cfg left _ _
  · rw [checkDepth_of_le hle, checkDepth_of_le (hstack ▸ hle)]
    exact .ok h

/-- The call is inside the watermark of what comes next, and when it is left the frames that were
there are not told apart any more than before. -/
theorem sameEnd_enter (n : Nat) (f : String) (fn : Function) {vs : List Value}
    (hvs : ∀ v ∈ vs, v.isPlain = true) :
    SameEnd ((runner cfg n).enter f fn vs s) ((runner cfg n).enter f fn vs t) := by
  have hinside := h.beside.enter f fn fun v hv => Value.since_of_isPlain (hvs v hv) _
  have hbody := (runner_isBlind cfg ⟨s.frames.size, s.arrays.size⟩ n).body fn _ _ hinside
  have hleave {u v : State} (huv : u.SameButFrames v) :
      (u.leave f s.returnValue).SameButFrames (v.leave f t.returnValue) := by
    obtain ⟨F, rfl, -⟩ := h
    obtain ⟨G, rfl, hG⟩ := huv
    exact ⟨G, rfl, hG⟩
  change SameEnd (andThen ((runner cfg n).body fn) (State.leave f s.returnValue) (s.enter f fn vs))
    (andThen ((runner cfg n).body fn) (State.leave f t.returnValue) (t.enter f fn vs))
  unfold andThen
  generalize (runner cfg n).body fn (s.enter f fn vs) = x at hbody ⊢
  generalize (runner cfg n).body fn (t.enter f fn vs) = y at hbody ⊢
  cases hbody with
  | ok _ huv _ => exact .ok (hleave huv.same)
  | error huv _ => exact .error (hleave huv.same)

end Isolated

theorem sameEnd_callWith (cfg : Bounds) (n : Nat) {s t : State} (h : s.SameButFrames t)
    (f : String) (args : List Expr) {vs : List Value} (hvs : ∀ v ∈ vs, v.isPlain = true) :
    SameEnd ((runner cfg n).callWith cfg f args vs s)
      ((runner cfg n).callWith cfg f args vs t) := by
  have hsince : ∀ v ∈ vs, v.Since ⟨s.frames.size, s.arrays.size⟩ := fun v hv =>
    Value.since_of_isPlain (hvs v hv) _
  have hline := h.beside.outputLine_eq args hsince
  unfold Runner.callWith
  split
  · change SameEnd ((lift (outputLine s args vs) >>= fun line => _) s)
      ((lift (outputLine t args vs) >>= fun line => _) t)
    rw [hline]
    cases outputLine s args vs with
    | error g => exact .error h
    | ok line => exact (sameEnd_print h cfg line).bind fun _ _ _ huv => .ok huv
  · change SameEnd ((match s.function? f with | none => _ | some fn => _ : Exec Value) s)
      ((match t.function? f with | none => _ | some fn => _ : Exec Value) t)
    rw [h.function?_eq]
    cases s.function? f with
    | none => exact .error h
    | some fn =>
      apply (sameEnd_checkDepth h cfg _ f).bind
      intro _ _ _ huv
      exact sameEnd_enter huv cfg n f fn hvs

/-- A call that is given numbers and texts does the same whatever the frames bind that there are: it
sees neither the variables of its caller nor the globals. So it is if the arguments are given by
their values, and if they are expressions that have these values in both states. -/
theorem callWith_isolated (cfg : Bounds) (n : Nat) {s t : State} (h : s.SameButFrames t)
    (f : String) (args : List Expr) {vs : List Value} (hvs : ∀ v ∈ vs, v.isPlain = true) :
    SameEnd ((runner cfg n).callWith cfg f args vs s) ((runner cfg n).callWith cfg f args vs t) ∧
      ∀ (s₀ t₀ : State) (fn : Function), s₀.function? f = some fn → t₀.function? f = some fn →
        s.function? f = some fn → (runner cfg n).evalAll args s₀ = .ok vs s →
        (runner cfg n).evalAll args t₀ = .ok vs t →
        SameEnd ((runner cfg n).call cfg f args s₀) ((runner cfg n).call cfg f args t₀) := by
  have hend := sameEnd_callWith cfg n h f args hvs
  refine ⟨hend, ?_⟩
  intro s₀ t₀ fn hs₀ ht₀ hs hargs hargs'
  have ht : t.function? f = some fn := h.function?_eq f ▸ hs
  rw [Runner.call_eq_callWith hs₀ hs hargs, Runner.call_eq_callWith ht₀ ht hargs']
  exact hend

def hiddenGlobal (v : Int) : State :=
  (State.initial.define "f"
    ⟨[⟨"int", "n", false⟩], [.ret (some (.binary .add (.name "x") (.name "n")))]⟩).bind "x" (.int v)

theorem callWith_isolated_hiddenGlobal : (hiddenGlobal 1).SameButFrames (hiddenGlobal 2) ∧
    (∃ u v, (runner {} 9).callWith {} "f" [.name "x"] [.int 5] (hiddenGlobal 1) = .ok (.int 5) u ∧
      (runner {} 9).callWith {} "f" [.name "x"] [.int 5] (hiddenGlobal 2) = .ok (.int 5) v ∧
      u.SameButFrames v) ∧
    ∃ u v, (runner {} 9).call {} "f" [.number (.int 5) 0] (hiddenGlobal 1) = .ok (.int 5) u ∧
      (runner {} 9).call {} "f" [.number (.int 5) 0] (hiddenGlobal 2) = .ok (.int 5) v ∧
      u.SameButFrames v := by
  have h : (hiddenGlobal 1).SameButFrames (hiddenGlobal 2) := ⟨(hiddenGlobal 2).frames, rfl, rfl⟩
  have hplain : ∀ v ∈ [Value.int 5], v.isPlain = true := by decide
  refine ⟨h, ?_, ?_⟩
  · have hend := (callWith_isolated {} 9 h "f" [.name "x"] hplain).1
    obtain ⟨u, hu⟩ :
        ∃ u, (runner {} 9).callWith {} "f" [.name "x"] [.int 5] (hiddenGlobal 1) = .ok (.int 5) u :=
      ⟨_, rfl⟩
    rw [hu] at hend
    generalize (runner {} 9).callWith {} "f" [.name "x"] [.int 5] (hiddenGlobal 2) = r at hend ⊢
    cases hend with
    | ok huv => exact ⟨u, _, hu, rfl, huv⟩
  · -- Evaluating the argument counts a step in both states.
    have hcounted : State.SameButFrames { hiddenGlobal 1 with steps := 1 }
        { hiddenGlobal 2 with steps := 1 } := ⟨(hiddenGlobal 2).frames, rfl, rfl⟩
    have hend := (callWith_isolated {} 9 hcounted "f" [.number (.int 5) 0] hplain).2
      (hiddenGlobal 1) (hiddenGlobal 2) _ rfl rfl rfl rfl rfl
    obtain ⟨u, hu⟩ :
        ∃ u, (runner {} 9).call {} "f" [.number (.int 5) 0] (hiddenGlobal 1) = .ok (.int 5) u :=
      ⟨_, rfl⟩
    rw [hu] at hend
    generalize (runner {} 9).call {} "f" [.number (.int 5) 0] (hiddenGlobal 2) = r at hend ⊢
    cases hend with
    | ok huv => exact ⟨u, _, hu, rfl, huv⟩

end MiniC.Machine

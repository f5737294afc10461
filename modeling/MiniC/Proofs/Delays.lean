import MiniC.Proofs.Walks
import MiniC.Proofs.Watermark

/-! Runs that begin later. Nothing but the ceiling on steps looks at how many steps have been
counted, and nothing but the limit on nesting at how deep a part stands. So what is run some steps
later, and perhaps deeper, ends like the same thing run now, as many steps later, unless one of the
two limits stops it. Main statement: `runner_late`. -/

namespace MiniC.Machine

def State.later (k : Nat) (s : State) : State := { s with steps := s.steps + k }

section Shown

variable (s : State) (k : Nat)

@[simp] theorem State.elements_later : (s.later k).elements = s.elements := rfl

@[simp] theorem State.bindingsOf_later : (s.later k).bindingsOf = s.bindingsOf := rfl

theorem State.listing_later (n : Nat) (trail : Trail) (v : Value) :
    (s.later k).listing n trail v = s.listing n trail v := by
  induction n generalizing trail v with
  | zero => cases v <;> rfl
  | succ n ih =>
    have hinside (inside : Trail) : (s.later k).listing n inside = s.listing n inside :=
      funext (ih inside)
    have hframes : (s.later k).frames = s.frames := rfl
    cases v <;> simp only [State.listing, State.elements_later, State.bindingsOf_later,
      hframes, hinside]

theorem State.plainText_later (v : Value) : (s.later k).plainText v = s.plainText v := by
  cases v with
  | number n o => rfl
  | text s => rfl
  | array ref => exact s.listing_later k depthBudget _ _
  | pointer p => rfl

theorem Directive.apply_later (d : Directive) (v : Value) :
    d.apply (s.later k) v = d.apply s v := by
  unfold Directive.apply
  simp only [State.display_eq (s.elements_later k), s.plainText_later]

theorem format_later (cs : List Char) (vs : List Value) :
    format (s.later k) cs vs = format s cs vs := by
  fun_induction format s cs vs with
  | case1 vs => rw [format]
  | case2 vs cs d rest htake hconv ih => rw [format_taken _ htake, if_pos hconv, ih]
  | case3 vs cs d rest htake hconv ih => rw [format_taken _ htake, if_neg hconv, ih, d.apply_later]
  | case4 vs cs htake ih => rw [format_untaken _ htake, ih]
  | case5 vs c cs hc ih =>
    rw [format.eq_def]
    simp only [if_neg hc, ih]

theorem outputLine_later (args : List Expr) (vs : List Value) :
    outputLine (s.later k) args vs = outputLine s args vs := by
  have hall (vs : List Value) : displayAll (s.later k) vs = displayAll s vs := by
    have hdisplay : (s.later k).display depthBudget = s.display depthBudget :=
      funext (State.display_eq (s.elements_later k) _)
    rw [displayAll, displayAll, hdisplay]
  unfold outputLine
  split
  · rw [format_later]
  · rw [hall]

end Shown

open Exec

/-- An end of a run that is owed to the ceiling on steps or to the limit on nesting. -/
def Stopped {α : Type} : EStateM.Result Fault State α → Prop
  | .ok _ _ => False
  | .error f _ => f.isLimit = true ∨ f = .tooDeep

def delayed {α : Type} (k : Nat) : EStateM.Result Fault State α → EStateM.Result Fault State α
  | .ok x t => .ok x (t.later k)
  | .error f t => .error f (t.later k)

/-- The second action, begun some steps later than the first, ends like it and as many steps later,
unless it is stopped. -/
def Late (k : Nat) {α : Type} (a b : Exec α) : Prop :=
  ∀ s : State, Stopped (b (s.later k)) ∨ b (s.later k) = delayed k (a s)

section Composed

variable {k : Nat} {α β : Type}

theorem Stopped.bind {a : Exec α} {s : State} (h : Stopped (a s)) (f : α → Exec β) :
    Stopped ((a >>= f) s) := by
  cases ha : a s with
  | ok x t =>
    rw [ha] at h
    exact h.elim
  | error e t =>
    rw [ha] at h
    rw [bind_of_error ha]
    exact h

theorem Late.bind {a b : Exec α} {f g : α → Exec β} (h : Late k a b)
    (hf : ∀ x, Late k (f x) (g x)) :
    Late k (a >>= f) (b >>= g) := by
  intro s
  rcases h s with hstop | hsame
  · exact .inl (hstop.bind g)
  · cases ha : a s with
    | ok x t =>
      rw [ha] at hsame
      rw [bind_of_ok ha, bind_of_ok hsame]
      exact hf x t
    | error e t =>
      rw [ha] at hsame
      rw [bind_of_error ha, bind_of_error hsame]
      exact .inr rfl

theorem late_pure (x : α) : Late k (pure x) (pure x) := fun _ => .inr rfl

theorem late_throw (f : Fault) : Late k (throw f : Exec α) (throw f) := fun _ => .inr rfl

theorem late_lift (x : Except Fault α) : Late k (lift x) (lift x) := by
  cases x with
  | ok a => exact late_pure a
  | error f => exact late_throw f

theorem late_liftNumber (x : Except Number.Fault α) : Late k (liftNumber x) (liftNumber x) := by
  cases x with
  | ok a => exact late_pure a
  | error f => exact late_throw (.number f)

/-- A state may be looked at where the count of steps does not show. -/
theorem late_get {f g : State → Exec α} (heq : ∀ s, g (s.later k) = g s)
    (h : ∀ s, Late k (f s) (g s)) :
    Late k (get >>= f) (get >>= g) := by
  intro s
  change Stopped (g (s.later k) (s.later k)) ∨ g (s.later k) (s.later k) = delayed k (f s s)
  rw [heq]
  exact h s s

theorem late_modify {f : State → State} (h : ∀ s, f (s.later k) = (f s).later k) :
    Late k (modify f : Exec Unit) (modify f) := by
  intro s
  right
  change EStateM.Result.ok () (f (s.later k)) = .ok () ((f s).later k)
  rw [h]

end Composed

section Actions

variable {k : Nat}

theorem late_record (r : Record) : Late k (record r) (record r) := late_modify fun _ => rfl

theorem stopped_stopAt {cfg : Bounds} {left : Nat} {r : Record} {f : Fault} {s : State}
    (hf : f.isLimit = true) : Stopped (stopAt cfg left r f s) := by
  rcases stopAt_cases cfg left r f s with h | ⟨-, h⟩
  · rw [h]
    exact .inl hf
  · rw [h]
    exact .inl rfl

/-- With less stack left, a ceiling may not be reported; else it is the same. -/
theorem late_stopAt (cfg : Bounds) {left left' : Nat} (h : left' ≤ left) (r : Record) (f : Fault) :
    Late k (stopAt cfg left r f) (stopAt cfg left' r f) := by
  intro s
  rcases Nat.lt_or_ge left' cfg.reportLevels with hlt | hge
  · left
    rw [stopAt_of_lt hlt]
    exact .inl rfl
  · right
    rw [stopAt_of_le hge, stopAt_of_le (Nat.le_trans hge h)]
    rfl

theorem late_tick (cfg : Bounds) {left left' : Nat} : Late k (tick cfg left) (tick cfg left') := by
  intro s
  rcases Nat.lt_or_ge cfg.maxSteps (s.steps + k + 1) with h | h
  · left
    rw [tick_of_lt (s := s.later k) h]
    exact stopped_stopAt rfl
  · right
    rw [tick_of_le (s := s.later k) h, tick_of_le (by omega)]
    change EStateM.Result.ok () { s with steps := s.steps + k + 1 } =
      .ok () { s with steps := s.steps + 1 + k }
    rw [Nat.add_right_comm]

theorem late_fresh : Late k fresh fresh := fun _ => .inr rfl

theorem late_computed (n : Number) : Late k (computed n) (computed n) := by
  unfold computed
  split
  · exact late_fresh.bind fun _ => late_pure _
  · exact late_pure _

theorem late_lookup (x : String) : Late k (lookup x) (lookup x) := fun _ => .inr rfl

theorem late_bind (x : String) (v : Value) : Late k (Exec.bind x v) (Exec.bind x v) :=
  late_modify fun _ => rfl

theorem late_newArray (items : List Value) : Late k (newArray items) (newArray items) :=
  fun _ => .inr rfl

theorem late_element (ref i : Nat) : Late k (element ref i) (element ref i) := fun _ => .inr rfl

theorem late_checkIndex (x : String) (ref : Nat) (v : Value) :
    Late k (checkIndex x ref v) (checkIndex x ref v) := by
  unfold checkIndex
  cases indexValue? v with
  | none => exact late_throw _
  | some i =>
    apply late_get fun _ => rfl
    intro s
    dsimp only
    split
    · exact late_pure _
    · exact (late_lift _).bind fun _ => late_throw _

theorem late_newPointer (x : String) (i : Option Int) : Late k (newPointer x i) (newPointer x i) :=
  fun _ => .inr rfl

theorem late_follow (p : Pointer) : Late k (follow p) (follow p) := by
  apply late_get fun _ => rfl
  intro s
  dsimp only
  split
  · exact late_pure _
  · split
    · exact late_pure _
    · exact (late_lift _).bind fun _ => late_throw _
  · exact (late_lift _).bind fun _ => late_throw _

theorem late_dereference (v : Value) : Late k (dereference v) (dereference v) := by
  have hlist :
    Late k (get >>= fun s => lift (s.list v) >>= fun t => (throw (.notPointer t) : Exec Value))
      (get >>= fun s => lift (s.list v) >>= fun t => throw (.notPointer t)) := by
    apply late_get
    · intro s
      rw [State.list, State.list, s.listing_later]
    · intro s
      exact (late_lift _).bind fun _ => late_throw _
  cases v with
  | pointer p => exact late_follow p
  | array ref =>
    apply late_get fun _ => rfl
    intro s
    split
    · exact hlist
    · exact late_element ref 0
  | _ => exact hlist

theorem late_unary (op : UnaryOp) (v : Value) : Late k (Runner.unary op v) (Runner.unary op v) := by
  cases op with
  | neg =>
    cases v with
    | number n o => exact late_computed _
    | _ => exact late_throw _
  | pos => exact late_pure v
  | not => exact late_pure _

theorem late_stepped (op : UpdateOp) (v : Value) : Late k (stepped op v) (stepped op v) := by
  cases v with
  | number n o => exact late_computed _
  | _ => exact late_throw _

theorem late_binary (cfg : Bounds) (op : BinaryOp) (v w : Value) :
    Late k (binary cfg op v w) (binary cfg op v w) := by
  unfold binary
  split
  · split
    · exact (late_liftNumber _).bind fun n => late_computed n
    · exact late_throw _
  · apply late_get
    · intro s
      rw [State.relate_eq (s.elements_later k)]
    · intro s
      exact (late_lift _).bind fun b => late_pure _

theorem late_equal (v w : Value) : Late k (equal v w) (equal v w) := by
  apply late_get
  · intro s
    rw [State.equal_eq (s.elements_later k)]
  · intro s
    exact late_lift _

theorem late_print (cfg : Bounds) (line : List Char) :
    Late k (print cfg line) (print cfg line) := by
  have hcount :
      Late k (modify fun s => { s with outputChars := s.outputChars + line.length } : Exec Unit)
      (modify fun s => { s with outputChars := s.outputChars + line.length }) :=
        late_modify fun _ => rfl
  apply hcount.bind
  intro _
  apply late_get fun _ => rfl
  intro s
  split
  · exact late_throw _
  · exact late_modify fun _ => rfl

theorem late_repeatUpTo (cfg : Bounds) {a b : Exec Bool} (h : Late k a b) (n : Nat) :
    Late k (repeatUpTo cfg a n) (repeatUpTo cfg b n) := by
  induction n with
  | zero => exact late_throw _
  | succ n ih =>
    apply h.bind
    intro goesOn
    cases goesOn with
    | true => exact ih
    | false => exact late_pure ()

theorem late_checkDepth (cfg : Bounds) {left left' : Nat} (h : left' ≤ left) (f : String) :
    Late k (Runner.checkDepth cfg left f) (Runner.checkDepth cfg left' f) := by
  apply late_get fun _ => rfl
  intro s
  split
  · exact late_stopAt cfg h _ _
  · exact late_pure ()

theorem late_noAddress {left left' : Nat} (h : left' ≤ left) (e : Expr) :
    Late k (Runner.noAddress left e) (Runner.noAddress left' e) := by
  unfold Runner.noAddress
  by_cases hdeep : left' < e.depth
  · rw [if_pos hdeep]
    exact fun s => .inl (.inr rfl)
  · rw [if_neg hdeep, if_neg (by omega)]
    exact (late_liftNumber _).bind fun t => late_throw _

theorem late_arrayLength (d : Declaration) (items : List Value) :
    Late k (Runner.arrayLength d items) (Runner.arrayLength d items) := by
  unfold Runner.arrayLength
  cases d.size with
  | none => exact late_pure _
  | some n => exact late_liftNumber _

theorem late_filledArray (cfg : Bounds) (x : String) (length : Int) (items : List Value) :
    Late k (Runner.filledArray cfg x length items) (Runner.filledArray cfg x length items) := by
  unfold Runner.filledArray
  split
  · exact late_throw _
  · split
    · exact (late_lift _).bind fun t => late_throw _
    · exact late_newArray _

theorem late_update (op : UpdateOp) (x : String) (before : Bool) :
    Late k (Runner.update op x before) (Runner.update op x before) :=
  (late_lookup x).bind fun old => (late_stepped op old).bind fun new =>
    (late_bind x new).bind fun _ => late_pure _

end Actions

structure Runner.IsLate (k : Nat) (r r' : Runner) : Prop where
  eval : ∀ e : Expr, Late k (r.eval e) (r'.eval e)
  exec : ∀ s : Stmt, Late k (r.exec s) (r'.exec s)
  levels : r'.levels ≤ r.levels

section Parts

variable {k : Nat} {r r' : Runner}

theorem late_enter (h : r.IsLate k r') (f : String) (fn : Function) (vs : List Value) :
    Late k (r.enter f fn vs) (r'.enter f fn vs) := by
  have hbody : Late k (r.body fn) (r'.body fn) :=
    (h.exec (.block fn.body)).bind fun _ => late_get (fun _ => rfl) fun s => late_pure _
  intro s
  change Stopped (andThen (r'.body fn) (State.leave f s.returnValue) ((s.enter f fn vs).later k)) ∨
    andThen (r'.body fn) (State.leave f s.returnValue) ((s.enter f fn vs).later k) =
      delayed k (andThen (r.body fn) (State.leave f s.returnValue) (s.enter f fn vs))
  unfold andThen
  rcases hbody (s.enter f fn vs) with hstop | hsame
  · left
    cases hr : r'.body fn ((s.enter f fn vs).later k) with
    | ok v t =>
      rw [hr] at hstop
      exact hstop
    | error g t =>
      rw [hr] at hstop
      exact hstop
  · right
    rw [hsame]
    cases r.body fn (s.enter f fn vs) <;> rfl

theorem late_output (cfg : Bounds) (args : List Expr) (vs : List Value) :
    Late k (do print cfg (← lift (outputLine (← get) args vs)); return Value.int 0)
      (do print cfg (← lift (outputLine (← get) args vs)); return Value.int 0) := by
  apply late_get
  · intro s
    rw [outputLine_later]
  · intro s
    exact (late_lift _).bind fun line => (late_print cfg line).bind fun _ => late_pure _

theorem Late.carries {α : Type} {P : α → Prop} {a b : Exec α} (h : Late k a b) (hP : ∀ x, P x) :
    Carries (Late k) P a b := fun _ _ _ hf => h.bind fun x => hf x (hP x)

theorem Late.of_carries {α : Type} {P : α → Prop} {a b : Exec α} (h : Carries (Late k) P a b) :
    Late k a b := h.elim late_pure

end Parts

def lateWalk (cfg : Bounds) (k : Nat) : RunWalk cfg cfg where
  scope := ⟨fun _ => True, fun _ => True⟩
  fine _ := True
  checks _ := True
  checksSteps := True
  rel _ P a b := Carries (Late k) P a b
  part _ P a b := Carries (Late k) P a b
  runs := Runner.IsLate k
  gives := .gives
  throws _ _ _ _ _ := late_throw _
  bind := .bind
  mono h _ hP := h.mono hP
  ofPart h := h
  tick _ h := ((late_tick cfg).carries (P := fun _ => True) fun _ => trivial).bind fun _ _ => h
  eval h _ := (h.eval _).carries fun _ => trivial
  literal _ _ := trivial
  text _ := trivial
  small _ := trivial
  lookup x := (late_lookup x).carries fun _ => trivial
  element i _ := (late_element _ i).carries fun _ => trivial
  checkIndex x ref v := (late_checkIndex x ref v).carries fun _ => trivial
  newPointer x i := (late_newPointer x i).carries fun _ => trivial
  noAddress e h := (late_noAddress h.levels e).carries fun _ => trivial
  dereference _ := (late_dereference _).carries fun _ => trivial
  unary op _ := (late_unary op _).carries fun _ => trivial
  update op before _ := (late_update op _ before).carries fun _ _ => trivial
  binary op _ _ := (late_binary cfg op _ _).carries fun _ _ => trivial
  arrayLength d items := (late_arrayLength d items).carries fun _ => trivial
  filledArray x length _ := (late_filledArray cfg x length _).carries fun _ => trivial
  write _ _ := (late_bind _ _).carries fun _ => trivial
  writeElement {_ v} ref i _ :=
    (late_modify (f := (·.writeElement ref i v)) fun _ => rfl).carries fun _ => trivial
  exec h _ := (h.exec _).carries fun _ => trivial
  prints := .refl cfg
  output args _ := (late_output cfg args _).carries fun _ => trivial
  defined f ha _ g g' hg := by
    rw [bind_assoc, bind_assoc]
    apply late_get fun _ => rfl
    intro s
    cases s.function? f with
    | none => exact late_throw _
    | some fn => exact ha fn (fun _ _ => trivial) _ g g' hg
  enter f h _ _ := by
    refine Late.carries ?_ fun _ => trivial
    exact (late_checkDepth cfg h.levels f).bind fun _ => late_enter h f _ _
  asks hq := by
    refine Late.carries (late_get (fun s => ?_) fun _ => late_pure _) fun _ => trivial
    exact congrArg pure (hq s s.frames (s.steps + k))
  flags breaking continuing :=
    (late_modify (f := (·.flag breaking continuing)) fun _ => rfl).carries fun _ => trivial
  returned {v} _ :=
    (late_modify (f := fun s => { s with returnValue := some v }) fun _ => rfl).carries fun _ =>
      trivial
  define name params _ := by
    refine Late.carries ?_ fun _ => trivial
    exact (late_record _).bind fun _ => late_modify fun _ => rfl
  equal v u := (late_equal v u).carries fun _ => trivial
  rounds ha hx hb := by
    refine Late.carries (late_repeatUpTo cfg ?_ _) fun _ => trivial
    apply (Late.of_carries ha).bind
    intro goesOn
    cases goesOn with
    | true => exact (Late.of_carries hx).bind fun _ => Late.of_carries hb
    | false => exact late_pure false

/-- What a runner does, one with less of the stack left does some steps later, unless it is
stopped. -/
theorem runner_late (cfg : Bounds) (k n j : Nat) :
    Runner.IsLate k (runner cfg (n + j)) (runner cfg n) := by
  have hscope {W : List String} {N : List Number} : (lateWalk cfg k).scope.Covers W N :=
    ⟨fun _ _ => trivial, fun _ _ => trivial⟩
  induction n with
  | zero => exact ⟨fun _ _ => .inl (.inr rfl), fun _ _ => .inl (.inr rfl), Nat.zero_le _⟩
  | succ n ih =>
    rw [Nat.add_right_comm]
    exact ⟨fun e => Late.of_carries ((lateWalk cfg k).evalStep ih hscope),
      fun s => Late.of_carries ((lateWalk cfg k).execStep ih hscope), Nat.succ_le_succ ih.levels⟩

end MiniC.Machine

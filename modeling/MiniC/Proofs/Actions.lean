import MiniC.Machine

/-! How composed actions end, and which actions are quiet. An action that is run from a state ends
with a value or a fault, and in a state; of an action followed by another, a fault of the first is
the fault of both. A quiet action leaves the frames, the functions, the output and the control flow
as they are: it may count steps, make and write arrays, take serial numbers and keep the journal. -/

namespace MiniC.Machine

namespace Exec

section Ending

variable {ε σ α β : Type} {a : EStateM ε σ α} {s t : σ}

theorem bind_of_ok {x : α} (h : a s = .ok x t) (f : α → EStateM ε σ β) : (a >>= f) s = f x t := by
  change EStateM.bind a f s = _
  rw [EStateM.bind, h]

theorem bind_of_error {e : ε} (h : a s = .error e t) (f : α → EStateM ε σ β) :
    (a >>= f) s = .error e t := by
  change EStateM.bind a f s = _
  rw [EStateM.bind, h]

theorem bind_eq_ok {f : α → EStateM ε σ β} {y : β} (h : (a >>= f) s = .ok y t) :
    ∃ x u, a s = .ok x u ∧ f x u = .ok y t := by
  cases ha : a s with
  | ok x u => exact ⟨x, u, rfl, by rw [← bind_of_ok ha f]; exact h⟩
  | error e u =>
    rw [bind_of_error ha f] at h
    cases h

theorem map_eq_bind (f : α → β) (a : EStateM ε σ α) : f <$> a = a >>= fun x => pure (f x) := by
  funext s
  cases h : a s with
  | ok x t =>
    rw [bind_of_ok h]
    change EStateM.map f a s = _
    rw [EStateM.map, h]
    rfl
  | error e t =>
    rw [bind_of_error h]
    change EStateM.map f a s = _
    rw [EStateM.map, h]

def endState : EStateM.Result ε σ α → σ
  | .ok _ t => t
  | .error _ t => t

def final (a : EStateM ε σ α) (s : σ) : σ := endState (a s)

theorem final_of_ok {x : α} (h : a s = .ok x t) : final a s = t := by
  rw [final, h]
  rfl

theorem final_of_error {e : ε} (h : a s = .error e t) : final a s = t := by
  rw [final, h]
  rfl

/-- A transitive relation between the states at the ends of both parts of an action holds for the
whole. -/
theorem final_bind (R : σ → σ → Prop) (trans : ∀ {s t u}, R s t → R t u → R s u)
    {f : α → EStateM ε σ β} (h : R s (final a s)) (hf : ∀ x t, R t (final (f x) t)) :
    R s (final (a >>= f) s) := by
  cases ha : a s with
  | ok x t =>
    rw [final_of_ok ha] at h
    rw [final, bind_of_ok ha]
    exact trans h (hf x t)
  | error e t =>
    rw [final_of_error ha] at h
    rw [final_of_error (bind_of_error ha f)]
    exact h

end Ending

end Exec

structure State.Undisturbed (s t : State) : Prop where
  frames : t.frames = s.frames
  stack : t.stack = s.stack
  functions : t.functions = s.functions
  output : t.output = s.output
  returnValue : t.returnValue = s.returnValue
  breaking : t.breaking = s.breaking
  continuing : t.continuing = s.continuing

theorem State.Undisturbed.refl (s : State) : s.Undisturbed s := ⟨rfl, rfl, rfl, rfl, rfl, rfl, rfl⟩

theorem State.Undisturbed.trans {s t u : State} (h : s.Undisturbed t) (k : t.Undisturbed u) :
    s.Undisturbed u where
  frames := k.frames.trans h.frames
  stack := k.stack.trans h.stack
  functions := k.functions.trans h.functions
  output := k.output.trans h.output
  returnValue := k.returnValue.trans h.returnValue
  breaking := k.breaking.trans h.breaking
  continuing := k.continuing.trans h.continuing

namespace Exec

theorem stopAt_of_le {cfg : Bounds} {k : Nat} (h : cfg.reportLevels ≤ k) (r : Record) (f : Fault)
    (s : State) : stopAt cfg k r f s = .error f (s.record r) := by
  unfold stopAt
  rw [if_pos h]
  rfl

theorem stopAt_of_lt {cfg : Bounds} {k : Nat} (h : k < cfg.reportLevels) (r : Record) (f : Fault)
    (s : State) : stopAt cfg k r f s = .error (.unreported r) s := by
  unfold stopAt
  rw [if_neg (Nat.not_le.2 h)]
  rfl

theorem stopAt_cases (cfg : Bounds) (k : Nat) (r : Record) (f : Fault) (s : State) :
    stopAt cfg k r f s = .error f (s.record r) ∨
      0 < cfg.reportLevels ∧ stopAt cfg k r f s = .error (.unreported r) s := by
  rcases Nat.lt_or_ge k cfg.reportLevels with h | h
  · exact .inr ⟨Nat.zero_lt_of_lt h, stopAt_of_lt h r f s⟩
  · exact .inl (stopAt_of_le h r f s)

theorem tick_of_le {cfg : Bounds} {s : State} (h : s.steps + 1 ≤ cfg.maxSteps) (k : Nat) :
    tick cfg k s = .ok () { s with steps := s.steps + 1 } := by
  change (if cfg.maxSteps < s.steps + 1 then _ else _ : Exec Unit) _ = _
  rw [if_neg (by omega)]
  rfl

theorem tick_of_lt {cfg : Bounds} {s : State} (h : cfg.maxSteps < s.steps + 1) (k : Nat) :
    tick cfg k s = stopAt cfg k (.stepCeiling cfg.maxSteps) (.stepLimit cfg.maxSteps)
      { s with steps := s.steps + 1 } := by
  change (if cfg.maxSteps < s.steps + 1 then _ else _ : Exec Unit) _ = _
  rw [if_pos h]

theorem print_of_le {cfg : Bounds} {line : List Char} {s : State}
    (h : s.outputChars + line.length ≤ cfg.maxOutputChars) :
    print cfg line s = .ok () { s with
      outputChars := s.outputChars + line.length, output :=
  s.output.push (String.ofList line) } := by
  change (if cfg.maxOutputChars < s.outputChars + line.length then _ else _ : Exec Unit) _ = _
  rw [if_neg (by omega)]
  rfl

theorem print_of_lt {cfg : Bounds} {line : List Char} {s : State}
    (h : cfg.maxOutputChars < s.outputChars + line.length) :
    print cfg line s = .error (.outputLimit cfg.maxOutputChars)
      { s with outputChars := s.outputChars + line.length } := by
  change (if cfg.maxOutputChars < s.outputChars + line.length then _ else _ : Exec Unit) _ = _
  rw [if_pos h]
  rfl

theorem checkDepth_of_lt {cfg : Bounds} {s : State} (h : cfg.maxCallDepth < s.stack.length)
    (k : Nat) (f : String) : Runner.checkDepth cfg k f s =
      stopAt cfg k (.callCeiling cfg.maxCallDepth) (.callDepth cfg.maxCallDepth f) s := by
  change (if cfg.maxCallDepth < s.stack.length then _ else _ : Exec Unit) s = _
  rw [if_pos h]

theorem checkDepth_of_le {cfg : Bounds} {s : State} (h : s.stack.length ≤ cfg.maxCallDepth)
    (k : Nat) (f : String) : Runner.checkDepth cfg k f s = .ok () s := by
  change (if cfg.maxCallDepth < s.stack.length then _ else _ : Exec Unit) s = _
  rw [if_neg (by omega)]
  rfl

variable {α β : Type}

def Quiet (a : Exec α) : Prop := ∀ s : State, s.Undisturbed (final a s)

theorem Quiet.bind {a : Exec α} {f : α → Exec β} (h : Quiet a) (hf : ∀ x, Quiet (f x)) :
    Quiet (a >>= f) :=
  fun s => final_bind State.Undisturbed .trans (h s) hf

theorem quiet_pure (x : α) : Quiet (pure x) := fun s => .refl s

theorem quiet_throw (f : Fault) : Quiet (throw f : Exec α) := fun s => .refl s

theorem quiet_get : Quiet (get : Exec State) := fun s => .refl s

theorem quiet_lift (x : Except Fault α) : Quiet (lift x) := by
  cases x with
  | error f => exact quiet_throw f
  | ok a => exact quiet_pure a

theorem quiet_liftNumber (x : Except Number.Fault α) : Quiet (liftNumber x) := by
  cases x with
  | error f => exact quiet_throw (.number f)
  | ok a => exact quiet_pure a

theorem quiet_record (r : Record) : Quiet (record r) := fun _ => ⟨rfl, rfl, rfl, rfl, rfl, rfl, rfl⟩

theorem quiet_stopAt (cfg : Bounds) (k : Nat) (r : Record) (f : Fault) :
    Quiet (stopAt cfg k r f) := by
  unfold stopAt
  split
  · exact (quiet_record _).bind fun _ => quiet_throw _
  · exact quiet_throw _

theorem quiet_tick (cfg : Bounds) (k : Nat) : Quiet (tick cfg k) := by
  have hcount : Quiet (modify fun s => { s with steps := s.steps + 1 }) :=
    fun _ => ⟨rfl, rfl, rfl, rfl, rfl, rfl, rfl⟩
  refine hcount.bind fun _ => quiet_get.bind fun s => ?_
  split
  · exact quiet_stopAt _ _ _ _
  · exact quiet_pure _

theorem quiet_fresh : Quiet fresh := fun _ => ⟨rfl, rfl, rfl, rfl, rfl, rfl, rfl⟩

theorem quiet_computed (n : Number) : Quiet (computed n) := by
  unfold computed
  split
  · exact quiet_fresh.bind fun _ => quiet_pure _
  · exact quiet_pure _

theorem quiet_lookup (x : String) : Quiet (lookup x) := fun s => .refl s

theorem quiet_newArray (items : List Value) : Quiet (newArray items) :=
  fun _ => ⟨rfl, rfl, rfl, rfl, rfl, rfl, rfl⟩

theorem quiet_writeElement (ref i : Nat) (v : Value) : Quiet (modify (·.writeElement ref i v)) :=
  fun _ => ⟨rfl, rfl, rfl, rfl, rfl, rfl, rfl⟩

theorem quiet_element (ref i : Nat) : Quiet (element ref i) := fun s => .refl s

theorem quiet_checkIndex (x : String) (ref : Nat) (v : Value) : Quiet (checkIndex x ref v) := by
  unfold checkIndex
  cases indexValue? v with
  | none => exact quiet_throw _
  | some i =>
    refine quiet_get.bind fun s => ?_
    dsimp only
    split
    · exact quiet_pure _
    · exact (quiet_lift _).bind fun _ => quiet_throw _

theorem quiet_newPointer (x : String) (i : Option Int) : Quiet (newPointer x i) :=
  quiet_fresh.bind fun _ => quiet_get.bind fun _ => quiet_pure _

theorem quiet_follow (p : Pointer) : Quiet (follow p) := by
  refine quiet_get.bind fun s => ?_
  dsimp only
  split
  · exact quiet_pure _
  · split
    · exact quiet_pure _
    · exact (quiet_lift _).bind fun _ => quiet_throw _
  · exact (quiet_lift _).bind fun _ => quiet_throw _

theorem quiet_dereference (v : Value) : Quiet (dereference v) := by
  have hlist (s : State) :
      Quiet (lift (s.list v) >>= fun t => (throw (.notPointer t) : Exec Value)) :=
    (quiet_lift _).bind fun _ => quiet_throw _
  cases v with
  | pointer p => exact quiet_follow p
  | array ref =>
    refine quiet_get.bind fun s => ?_
    split
    · exact quiet_get.bind hlist
    · exact quiet_element ref 0
  | _ => exact quiet_get.bind hlist

theorem quiet_negate (v : Value) : Quiet (negate v) := by
  cases v with
  | number n o => exact quiet_computed _
  | _ => exact quiet_throw _

theorem quiet_stepped (op : UpdateOp) (v : Value) : Quiet (stepped op v) := by
  cases v with
  | number n o => exact quiet_computed _
  | _ => exact quiet_throw _

theorem quiet_binary (cfg : Bounds) (op : BinaryOp) (v w : Value) : Quiet (binary cfg op v w) := by
  unfold binary
  split
  · split
    · exact (quiet_liftNumber _).bind fun n => quiet_computed n
    · exact quiet_throw _
  · exact quiet_get.bind fun s => (quiet_lift _).bind fun b => quiet_pure _

theorem quiet_equal (v w : Value) : Quiet (equal v w) := quiet_get.bind fun _ => quiet_lift _

theorem quiet_unary (op : UnaryOp) (v : Value) : Quiet (Runner.unary op v) := by
  cases op with
  | neg => exact quiet_negate v
  | pos => exact quiet_pure v
  | not => exact quiet_pure _

theorem quiet_noAddress (k : Nat) (e : Expr) : Quiet (Runner.noAddress k e) := by
  unfold Runner.noAddress
  split
  · exact quiet_throw _
  · exact (quiet_liftNumber _).bind fun t => quiet_throw _

theorem quiet_checkDepth (cfg : Bounds) (k : Nat) (f : String) :
    Quiet (Runner.checkDepth cfg k f) := by
  refine quiet_get.bind fun s => ?_
  split
  · exact quiet_stopAt _ _ _ _
  · exact quiet_pure _

theorem quiet_arrayLength (d : Declaration) (items : List Value) :
    Quiet (Runner.arrayLength d items) := by
  unfold Runner.arrayLength
  cases d.size with
  | none => exact quiet_pure _
  | some n => exact quiet_liftNumber _

theorem quiet_filledArray (cfg : Bounds) (x : String) (length : Int) (items : List Value) :
    Quiet (Runner.filledArray cfg x length items) := by
  unfold Runner.filledArray
  split
  · exact quiet_throw _
  · split
    · exact (quiet_lift _).bind fun t => quiet_throw _
    · exact quiet_newArray _

end Exec

theorem runner_levels (cfg : Bounds) (n : Nat) : (runner cfg n).levels = n := by
  induction n with
  | zero => rfl
  | succ n ih => exact congrArg (· + 1) ih

theorem execute_of_ok {cfg : Bounds} {t : Tree} {s : State}
    (h : runTree cfg (runner cfg cfg.levels) t .initial = .ok () s) :
    execute cfg t = ⟨s, none⟩ := by
  rw [execute, h]

theorem execute_of_error {cfg : Bounds} {t : Tree} {f : Fault} {s : State}
    (h : runTree cfg (runner cfg cfg.levels) t .initial = .error f s) :
    execute cfg t = ⟨if f.isUnexpected then s.record .unexpectedFault else s, some f⟩ := by
  rw [execute, h]

end MiniC.Machine

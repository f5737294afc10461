import MiniC.Proofs.Congruence

/-! The frames of a run. Whatever is executed or evaluated leaves the stack as it was, the frames
below the current one as they were, and of the current frame every variable that it does not write
itself. This holds also on a fault, at any depth of calls, since a call is left on a fault too. Main
statements: `runner_frames` for each state of a run, and `execute_frames` for what a run leaves
behind. -/

namespace MiniC.Machine

/-- The stack of a state: it holds different frames that have been made, one of which is current. -/
structure State.WellStacked (s : State) : Prop where
  active : s.stack ≠ []
  distinct : s.stack.Nodup
  made : ∀ i ∈ s.stack, i < s.frames.size

theorem State.WellStacked.stack_eq {s : State} (h : s.WellStacked) :
    s.stack = s.top :: s.stack.tail := by
  cases hs : s.stack with
  | nil => exact absurd hs h.active
  | cons i is => rw [State.top, hs, List.headD_cons, List.tail_cons]

theorem State.WellStacked.below {s : State} (h : s.WellStacked) {i : Nat} (hi : i ∈ s.stack.tail) :
    i ≠ s.top ∧ i < s.frames.size := by
  have hd := h.distinct
  rw [h.stack_eq, List.nodup_cons] at hd
  refine ⟨fun he => hd.1 (he ▸ hi), h.made i ?_⟩
  rw [h.stack_eq]
  exact List.mem_cons_of_mem _ hi

theorem State.bindingsOf_congr {s t : State} {i : Nat} (h : t.frames[i]? = s.frames[i]?) :
    t.bindingsOf i = s.bindingsOf i := by
  rw [State.bindingsOf, State.bindingsOf, h]

/-- Between two states frames are only made, the stack stays, and of the frames that were made
before only the current one may differ, in variables of a set. -/
structure State.Framed (W : List String) (s t : State) : Prop where
  stack : t.stack = s.stack
  made : s.frames.size ≤ t.frames.size
  others : ∀ i, i < s.frames.size → i ≠ s.top → t.frames[i]? = s.frames[i]?
  current : s.top < s.frames.size → ∀ x, x ∉ W →
    (t.bindingsOf s.top).get? x = (s.bindingsOf s.top).get? x

namespace State.Framed

variable {W : List String} {s t u : State}

theorem top (h : s.Framed W t) : t.top = s.top := by rw [State.top, State.top, h.stack]

theorem of_eq (hf : t.frames = s.frames) (hs : t.stack = s.stack) : s.Framed W t where
  stack := hs
  made := Nat.le_of_eq (by rw [hf])
  others := by
    intro i _ _
    rw [hf]
  current := by
    intro _ x _
    rw [State.bindingsOf, State.bindingsOf, hf]

theorem trans (h : s.Framed W t) (k : t.Framed W u) : s.Framed W u where
  stack := k.stack.trans h.stack
  made := Nat.le_trans h.made k.made
  others := by
    intro i hi hne
    rw [k.others i (Nat.lt_of_lt_of_le hi h.made) (by rw [h.top]; exact hne), h.others i hi hne]
  current := by
    intro hs x hx
    have hk := k.current (by rw [h.top]; exact Nat.lt_of_lt_of_le hs h.made) x hx
    rw [h.top] at hk
    rw [hk, h.current hs x hx]

end State.Framed

theorem State.framed_bind {W : List String} (s : State) {x : String} (hx : x ∈ W) (v : Value) :
    s.Framed W (s.bind x v) where
  stack := rfl
  made := by simp [State.bind]
  others := by
    intro i _ hne
    simp only [State.bind, Array.getElem?_modify, if_neg (Ne.symm hne)]
  current := by
    intro hs y hy
    have hne : x ≠ y := fun he => hy (he ▸ hx)
    simp only [State.bindingsOf, State.bind, Array.getElem?_modify, Array.getElem?_eq_getElem hs,
      if_true, Option.map_some]
    exact Bindings.get?_put_ne hne v _

/-- What happens in the frame of a call, before it is left, has no part in the frames that were
there. -/
theorem State.framed_leave {W W' : List String} {s t : State} {f : String} {fn : Function}
    {vs : List Value} (h : (s.enter f fn vs).Framed W' t) (saved : Option Value) :
    s.Framed W (t.leave f saved) := by
  have hsize : (s.enter f fn vs).frames.size = s.frames.size + 1 := Array.size_push _
  -- A frame keeps its number, and the one of the call has a number of its own.
  have hkept : ∀ i, i < s.frames.size → (t.leave f saved).frames[i]? = s.frames[i]? := by
    intro i hi
    change t.frames[i]? = _
    rw [h.others i (by omega) (Nat.ne_of_lt hi)]
    change (s.frames.push _)[i]? = _
    rw [Array.getElem?_push, if_neg (Nat.ne_of_lt hi)]
  refine ⟨?_, ?_, fun i hi _ => hkept i hi,
    fun hs x _ => by rw [State.bindingsOf_congr (hkept _ hs)]⟩
  · change t.stack.tail = _
    rw [h.stack]
    rfl
  · change s.frames.size ≤ t.frames.size
    have hmade := h.made
    omega

open Exec

def Keeps (W : List String) {α : Type} (a : Exec α) : Prop := ∀ s : State, s.Framed W (final a s)

section Keeps

variable {W : List String} {α β : Type}

theorem Keeps.bind {a : Exec α} {f : α → Exec β} (h : Keeps W a) (hf : ∀ x, Keeps W (f x)) :
    Keeps W (a >>= f) := fun s => final_bind (State.Framed W) .trans (h s) hf

theorem Keeps.of_quiet {a : Exec α} (h : Quiet a) : Keeps W a :=
  fun s => .of_eq (h s).frames (h s).stack

theorem keeps_modify {f : State → State} (hf : ∀ s, (f s).frames = s.frames)
    (hs : ∀ s, (f s).stack = s.stack) :
    Keeps W (modify f : Exec Unit) := fun s => .of_eq (hf s) (hs s)

theorem keeps_print (cfg : Bounds) (line : List Char) : Keeps W (print cfg line) := by
  intro s
  rcases Nat.lt_or_ge cfg.maxOutputChars (s.outputChars + line.length) with h | h
  · rw [final_of_error (print_of_lt h)]
    exact .of_eq rfl rfl
  · rw [final_of_ok (print_of_le h)]
    exact .of_eq rfl rfl

theorem keeps_repeatUpTo (cfg : Bounds) {a : Exec Bool} (h : Keeps W a) (n : Nat) :
    Keeps W (repeatUpTo cfg a n) := by
  induction n with
  | zero => exact .of_quiet (quiet_throw _)
  | succ n ih =>
    refine h.bind fun goesOn => ?_
    cases goesOn with
    | true => exact ih
    | false => exact .of_quiet (quiet_pure ())

theorem keeps_enter {r : Runner} {W' : List String} (f : String) (fn : Function) (vs : List Value)
    (hb : Keeps W' (r.exec (.block fn.body))) : Keeps W (r.enter f fn vs) := by
  intro s
  have hbody : Keeps W' (r.body fn) :=
    hb.bind fun _ => .of_quiet (quiet_get.bind fun t => quiet_pure (t.returnValue.getD (.int 0)))
  have hleft : final (r.enter f fn vs) s = (final (r.body fn) (s.enter f fn vs)).leave f
      s.returnValue := by
    change endState (andThen (r.body fn) (State.leave f s.returnValue) (s.enter f fn vs)) = _
    unfold andThen final
    cases r.body fn (s.enter f fn vs) <;> rfl
  rw [hleft]
  exact State.framed_leave (hbody (s.enter f fn vs)) s.returnValue

end Keeps

theorem keeps_runs (cfg : Bounds) : RunCongruence cfg cfg Eq fun W _ a _ => Keeps W a where
  quiet := .of_quiet
  bind := .bind
  tick {_ k _} _ := .of_quiet (quiet_tick cfg k)
  noAddress {_ k _} e _ := .of_quiet (quiet_noAddress k e)
  binary := fun op v w => .of_quiet (quiet_binary cfg op v w)
  filledArray := fun x length items => .of_quiet (quiet_filledArray cfg x length items)
  write := fun v hx s => s.framed_bind hx v
  outputFunction := rfl
  print := keeps_print cfg
  checkDepth {_ k _} f _ := .of_quiet (quiet_checkDepth cfg k f)
  control := fun hf =>
    keeps_modify (fun s => congrArg Memory.frames (hf s)) fun s => congrArg Memory.stack (hf s)
  define := fun _ _ => keeps_modify (fun _ => rfl) fun _ => rfl
  loop := fun ha => keeps_repeatUpTo cfg ha _
  enter := fun f fn vs hx => keeps_enter f fn vs (hx.exec (.block fn.body) (List.Subset.refl _))

theorem State.WellStacked.enter {s : State} (h : s.WellStacked) (f : String) (fn : Function)
    (vs : List Value) :
    (s.enter f fn vs).WellStacked where
  active := List.cons_ne_nil _ _
  distinct := List.nodup_cons.2 ⟨fun hm => Nat.lt_irrefl _ (h.made _ hm), h.distinct⟩
  made := by
    intro i hi
    have hsize : (s.enter f fn vs).frames.size = s.frames.size + 1 := Array.size_push _
    rcases List.mem_cons.1 hi with rfl | hi
    · omega
    · have := h.made i hi
      omega

end MiniC.Machine

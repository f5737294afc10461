import MiniC.Proofs.Delays
import MiniC.Proofs.Frames

/-! Compound assignment is assignment of an operation. The compound form reads its variable after
the expression, the expanded one before; an expression that does not update the variable itself
cannot change it, whatever it calls, so that both read the same. The expanded form counts two steps
more, and runs the expression one level deeper. Main statement: `assign_compound`. -/

namespace MiniC.Machine

open Exec

theorem State.later_later (s : State) (j k : Nat) : (s.later j).later k = s.later (j + k) := by
  rw [State.later, State.later, State.later, Nat.add_assoc]

section Parts

variable (cfg : Bounds) {α β : Type}

/-- How an action goes on depends on how its first part ends, and on nothing else. -/
theorem bind_of_eq {a c : Exec α} {s t : State} (h : a s = c t) (f : α → Exec β) :
    (a >>= f) s = (c >>= f) t := by
  change EStateM.bind a f s = EStateM.bind c f t
  rw [EStateM.bind, EStateM.bind, h]

theorem tick_cases (left : Nat) (s : State) :
    Stopped (tick cfg left s) ∨ tick cfg left s = .ok () (s.later 1) := by
  rcases Nat.lt_or_ge cfg.maxSteps (s.steps + 1) with h | h
  · left
    rw [tick_of_lt h]
    exact stopped_stopAt rfl
  · exact .inr (tick_of_le h left)

theorem stopped_exhausted (s : State) : Stopped ((throw .tooDeep : Exec α) s) := .inr rfl

theorem eval_name (n : Nat) (x : String) (s : State) : Stopped ((runner cfg n).eval (.name x) s) ∨
    (runner cfg n).eval (.name x) s = .ok (s.read s.top x) (s.later 1) := by
  cases n with
  | zero => exact .inl (stopped_exhausted s)
  | succ n =>
    change Stopped ((tick cfg (runner cfg n).levels >>= fun _ => lookup x) s) ∨
      (tick cfg (runner cfg n).levels >>= fun _ => lookup x) s = _
    rcases tick_cases cfg _ s with h | h
    · exact .inl (h.bind _)
    · rw [bind_of_ok h]
      exact .inr rfl

theorem eval_operation {op : AssignOp} {b : BinaryOp} (hop : op.binary? = some b) (n : Nat)
    (x : String) (e : Expr) (s : State) :
    Stopped ((runner cfg (n + 1)).eval (.binary b (.name x) e) s) ∨
      (runner cfg (n + 1)).eval (.binary b (.name x) e) s =
        ((runner cfg n).eval e >>= fun v => binary cfg b (s.read s.top x) v) (s.later 2) := by
  have hparts : (runner cfg (n + 1)).eval (.binary b (.name x) e) = (do
      tick cfg (runner cfg n).levels
      let old ← (runner cfg n).eval (.name x)
      let v ← (runner cfg n).eval e
      binary cfg b old v) := by
    cases op <;> cases hop <;> rfl
  rw [hparts]
  rcases tick_cases cfg _ s with h | h
  · exact .inl (h.bind _)
  rw [bind_of_ok h]
  rcases eval_name cfg n x (s.later 1) with h | h
  · exact .inl (h.bind _)
  · rw [bind_of_ok h, State.later_later]
    exact .inr rfl

/-- A variable that an expression does not write reads the same before and behind it. -/
theorem eval_lookup {n : Nat} {s : State} {x : String} {e : Expr} (hframe : s.top < s.frames.size)
    (hx : x ∉ e.writes) (f : Value → Value → Exec β) :
    ((runner cfg n).eval e >>= fun v => lookup x >>= fun old => f old v) s =
      ((runner cfg n).eval e >>= fun v => f (s.read s.top x) v) s := by
  have hkept := ((keeps_runs cfg).runner n).eval e (List.Subset.refl _) s
  cases he : (runner cfg n).eval e s with
  | error g t => rw [bind_of_error he, bind_of_error he]
  | ok v t =>
    rw [final_of_ok he] at hkept
    have hread : t.read t.top x = s.read s.top x := by
      rw [State.read, State.read, hkept.top, hkept.current hframe x hx]
    rw [bind_of_ok he, bind_of_ok he, ← hread]
    rfl

end Parts

/-- An assignment with an operator ends like the assignment of the operation, which only counts two
steps more: with the same fault or none, and in the same state otherwise. -/
theorem assign_compound {cfg : Bounds} {n : Nat} {s : State} {x : String} {op : AssignOp}
    {b : BinaryOp} {e : Expr} (hframe : s.top < s.frames.size) (hop : op.binary? = some b)
    (hx : x ∉ e.writes)
    (hlimit : ¬Stopped ((runner cfg n).exec (.assign (.name x) .set (.binary b (.name x) e)) s)) :
    (runner cfg n).exec (.assign (.name x) .set (.binary b (.name x) e)) s =
      delayed 2 ((runner cfg n).exec (.assign (.name x) op e) s) := by
  cases n with
  | zero => exact absurd (stopped_exhausted s) hlimit
  | succ n =>
    have hexpanded :
        (runner cfg (n + 1)).exec (.assign (.name x) .set (.binary b (.name x) e)) = (do
        tick cfg (runner cfg n).levels
        let v ← (runner cfg n).eval (.binary b (.name x) e)
        Exec.bind x v) := rfl
    have hcompound : (runner cfg (n + 1)).exec (.assign (.name x) op e) = (do
        tick cfg (runner cfg n).levels
        let v ← (runner cfg n).eval e
        let old ← lookup x
        let w ← binary cfg b old v
        Exec.bind x w) := by
      cases op <;> cases hop <;> rfl
    rw [hexpanded] at hlimit ⊢
    rw [hcompound]
    rcases tick_cases cfg _ s with h | h
    · exact absurd (h.bind _) hlimit
    have hread := eval_lookup cfg (n := n) (s := s.later 1) hframe hx fun old v =>
      binary cfg b old v >>= Exec.bind x
    rw [bind_of_ok h] at hlimit ⊢
    rw [bind_of_ok h, hread]
    cases n with
    | zero => exact absurd ((stopped_exhausted (s.later 1)).bind _) hlimit
    | succ n =>
      rcases eval_operation cfg hop n x e (s.later 1) with h | h
      · exact absurd (h.bind _) hlimit
      have hstore (v : Value) := (late_binary (k := 2) cfg b (s.read s.top x) v).bind (late_bind x)
      have hlate := ((runner_late cfg 2 n 1).eval e).bind hstore
      rw [bind_of_eq h, bind_assoc] at hlimit ⊢
      exact (hlate (s.later 1)).resolve_left hlimit

def shadowedState : State :=
  (State.initial.define "f"
    ⟨[], [.assign (.name "x") .set (.number (.int 7) 0), .ret (some (.name "x"))]⟩).bind "x"
    (.int 5)

theorem assign_compound_shadowed :
    shadowedState.top < shadowedState.frames.size ∧ AssignOp.sub.binary? = some .sub ∧
    "x" ∉ (Expr.call "f" []).writes ∧
    ¬Stopped ((runner {} 9).exec
      (.assign (.name "x") .set (.binary .sub (.name "x") (.call "f" []))) shadowedState) ∧
    (runner {} 9).exec (.assign (.name "x") .set (.binary .sub (.name "x") (.call "f" [])))
      shadowedState =
      delayed 2 ((runner {} 9).exec (.assign (.name "x") .sub (.call "f" [])) shadowedState) ∧
    (final ((runner {} 9).exec (.assign (.name "x") .sub (.call "f" []))) shadowedState).read 0
      "x" = .int (-2) := by
  have hframe : shadowedState.top < shadowedState.frames.size := by decide
  have hx : "x" ∉ (Expr.call "f" []).writes := List.not_mem_nil
  have hlimit :
      ¬Stopped ((runner {} 9).exec
        (.assign (.name "x") .set (.binary .sub (.name "x") (.call "f" []))) shadowedState) :=
    fun h => h
  exact ⟨hframe, rfl, hx, hlimit, assign_compound hframe rfl hx hlimit, rfl⟩

end MiniC.Machine

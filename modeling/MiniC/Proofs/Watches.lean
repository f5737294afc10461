import MiniC.Proofs.Actions

/-! Watching a run from where its parts begin to where they end. A watch says what is asked of every
expression and statement that is run: of the state in which it begins, and of how it ends. Where a
part does not keep the watch, another runner takes its place; a run keeps the watch throughout if it
is the same whatever that runner does. -/

namespace MiniC.Machine

open Exec

abbrev Ending (α : Type) := EStateM.Result Fault State α

def faultOf {α : Type} : Ending α → Option Fault
  | .ok _ _ => none
  | .error f _ => some f

structure Watch where
  eval : Expr → State → Ending Value → Prop
  exec : Stmt → State → Ending Unit → Prop

namespace Watch

open Classical in
noncomputable def guard {α : Type} (keeps : State → Ending α → Prop) (a other : Exec α) : Exec α :=
  fun s => if keeps s (a s) then a s else other s

theorem guard_of_keeps {α : Type} {keeps : State → Ending α → Prop} {a : Exec α} {s : State}
    (h : keeps s (a s)) (other : Exec α) : guard keeps a other s = a s := if_pos h

theorem guard_of_not {α : Type} {keeps : State → Ending α → Prop} {a : Exec α} {s : State}
    (h : ¬keeps s (a s)) (other : Exec α) : guard keeps a other s = other s := if_neg h

noncomputable def runner (w : Watch) (r other : Runner) : Runner where
  eval e := guard (w.eval e) (r.eval e) (other.eval e)
  exec c := guard (w.exec c) (r.exec c) (other.exec c)
  levels := r.levels

end Watch

/-- The runner of a machine whose parts are watched, on each level of the stack. -/
noncomputable def watchedRunner (cfg : Bounds) (w : Watch) (other : Nat → Runner) : Nat → Runner
  | 0 => w.runner .exhausted (other 0)
  | n + 1 => w.runner ((watchedRunner cfg w other n).above cfg) (other (n + 1))

/-- Every part of a run keeps a watch: what would be done elsewhere makes no difference to it. -/
def Throughout (cfg : Bounds) (t : Tree) (w : Watch) : Prop :=
  ∀ other, runTree cfg (watchedRunner cfg w other cfg.levels) t .initial =
    runTree cfg (runner cfg cfg.levels) t .initial

namespace Watch

structure Implies (w w' : Watch) : Prop where
  eval : ∀ {e s r}, w.eval e s r → w'.eval e s r
  exec : ∀ {c s r}, w.exec c s r → w'.exec c s r

def states (C : Option Fault → State → Prop) : Watch where
  eval _ s r := C none s ∧ C (faultOf r) (endState r)
  exec _ s r := C none s ∧ C (faultOf r) (endState r)

def nothing : Watch := ⟨fun _ _ _ => True, fun _ _ _ => True⟩

theorem guard_guard {α : Type} {keeps keeps' : State → Ending α → Prop}
    (h : ∀ {s r}, keeps s r → keeps' s r) (a other : Exec α) :
    guard keeps a (guard keeps' a other) = guard keeps' a other := by
  funext s
  by_cases hs : keeps s (a s)
  · rw [guard_of_keeps hs, guard_of_keeps (h hs)]
  · rw [guard_of_not hs]

theorem runner_runner {w w' : Watch} (h : w.Implies w') (r other : Runner) :
    w.runner r (w'.runner r other) = w'.runner r other := by
  unfold runner
  congr 1
  · funext e
    exact guard_guard h.eval _ _
  · funext c
    exact guard_guard h.exec _ _

theorem runner_nothing (r other : Runner) : nothing.runner r other = r := by
  obtain ⟨eval, exec, levels⟩ := r
  unfold runner
  congr 1
  · funext e s
    exact guard_of_keeps trivial _
  · funext c s
    exact guard_of_keeps trivial _

theorem runner_self (w : Watch) (r : Runner) : w.runner r r = r := by
  obtain ⟨eval, exec, levels⟩ := r
  unfold runner guard
  congr 1
  · funext e s
    exact ite_self _
  · funext c s
    exact ite_self _

end Watch

theorem watchedRunner_nothing (cfg : Bounds) (other : Nat → Runner) (n : Nat) :
    watchedRunner cfg .nothing other n = runner cfg n := by
  induction n with
  | zero => exact Watch.runner_nothing _ _
  | succ n ih => rw [watchedRunner, ih, Watch.runner_nothing, runner]

theorem Throughout.mono {cfg : Bounds} {t : Tree} {w w' : Watch} (h : w.Implies w')
    (hw : Throughout cfg t w) :
    Throughout cfg t w' := by
  intro other
  -- Where the stronger watch is not kept, the run under the weaker one may take its place.
  have hsame (n : Nat) : watchedRunner cfg w (watchedRunner cfg w' other) n =
      watchedRunner cfg w' other n := by
    induction n with
    | zero => exact Watch.runner_runner h _ _
    | succ n ih =>
      rw [watchedRunner, ih]
      exact Watch.runner_runner h _ _
  rw [← hsame]
  exact hw _

theorem watchedRunner_of_below {cfg : Bounds} (w : Watch) {other : Nat → Runner} {n : Nat}
    (h : ∀ m < n, other m = runner cfg m) :
    watchedRunner cfg w other n = w.runner (runner cfg n) (other n) := by
  induction n with
  | zero => rfl
  | succ n ih =>
    have hbelow := ih fun m hm => h m (Nat.lt_succ_of_lt hm)
    rw [h n (Nat.lt_succ_self n), Watch.runner_self] at hbelow
    rw [watchedRunner, hbelow, runner]

/-- A watch that is kept throughout is kept by the whole: where a statement does not keep it, a
stand-in could end the run otherwise. -/
theorem Throughout.whole {cfg : Bounds} {c : Stmt} (hc : ∀ e, c ≠ .expr e) {w : Watch}
    (h : Throughout cfg (.stmt c) w) :
    w.exec c .initial ((runner cfg cfg.levels).exec c .initial) := by
  apply Classical.byContradiction
  intro hw
  let last := endState ((runner cfg cfg.levels).exec c .initial)
  let standIn : Runner :=
    ⟨fun _ => throw .tooDeep, fun _ _ => .error .tooDeep { last with steps := last.steps + 1 }, 0⟩
  let other : Nat → Runner := fun n => if n = cfg.levels then standIn else runner cfg n
  have hbelow (n : Nat) (hn : n < cfg.levels) : other n = runner cfg n := if_neg (Nat.ne_of_lt hn)
  have hwhole : (watchedRunner cfg w other cfg.levels).exec c .initial =
      standIn.exec c .initial := by
    rw [watchedRunner_of_below w hbelow, show other cfg.levels = standIn from if_pos rfl]
    exact Watch.guard_of_not hw _
  have hrun : (watchedRunner cfg w other cfg.levels).exec c .initial =
      (runner cfg cfg.levels).exec c .initial := by
    have hsame := h other
    cases c with
    | expr e => exact absurd rfl (hc e)
    | _ => exact hsame
  have hlast : last = { last with steps := last.steps + 1 } := by
    have hend := congrArg endState (hrun.symm.trans hwhole)
    exact hend
  exact absurd (congrArg State.steps hlast) (Nat.ne_of_lt (Nat.lt_succ_self _))

end MiniC.Machine

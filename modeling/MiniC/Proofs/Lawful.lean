import MiniC.Proofs.Laws

/-! Runs that uphold a law. If two runners do so with the parts of a tree, they do with the tree.
Where the machine leaves an operation unchecked, a watch on the first run vouches for it; all that
the law says may then be watched in the second. Main statement: `Law.run_watched`. -/

namespace MiniC.Machine

open Exec

namespace Law

variable {cfg : Bounds} {L : Law cfg} {α : Type} {c : Prop} {P : α → Prop}

structure Runs (L : Law cfg) (r r' : Runner) : Prop where
  eval : ∀ e : Expr, (∀ n ∈ e.numbers, L.number n) → L.Ticks True L.Fine (r.eval e) (r'.eval e)
  exec : ∀ s : Stmt, (∀ n ∈ s.numbers, L.number n) →
    L.Ticks True (fun _ => True) (r.exec s) (r'.exec s)
  levels : r.levels = r'.levels

abbrev Checked (L : Law cfg) : Expr → Prop := Vouched L.checks L.checksSteps

abbrev Stores (L : Law cfg) : Stmt → Prop := Stored L.checks

section Actions

theorem upholds_noAddress (left : Nat) (e : Expr) :
    L.Upholds L.Fine (Runner.noAddress left e) (Runner.noAddress left e) := by
  unfold Runner.noAddress
  split
  · exact leads_throw rfl
  · exact (plainly_liftNumber _).bind fun _ _ => leads_throw rfl

theorem leads_update (op : UpdateOp) (x : String) (before : Bool) :
    L.Leads L.checksSteps (fun v => L.checksSteps → L.Fine v) (Runner.update op x before)
      (Runner.update op x before) := by
  apply (upholds_lookup x).bind
  intro old hold
  apply (upholds_stepped op hold).bind
  intro new hnew
  apply (leads_bind x hnew).map
  intro _ _ hc
  cases before with
  | true => exact hnew hc
  | false => exact hold

theorem plainly_arrayLength (d : Declaration) (items : List Value) :
    L.Plainly (Runner.arrayLength d items) (Runner.arrayLength d items) := by
  unfold Runner.arrayLength
  cases d.size with
  | none => exact plainly_pure _
  | some n => exact plainly_liftNumber _

theorem upholds_filledArray (x : String) (length : Int) {items : List Value}
    (hi : ∀ v ∈ items, L.Fine v) :
    L.Upholds L.Fine (Runner.filledArray cfg x length items)
      (Runner.filledArray cfg x length items) := by
  unfold Runner.filledArray
  split
  · exact leads_throw rfl
  split
  · exact (plainly_lift (uncounted_writeInt length)).bind fun _ _ => leads_throw rfl
  · apply upholds_newArray
    · intro v hv
      rcases List.mem_append.1 hv with hv | hv
      · exact hi v hv
      · rw [(List.mem_replicate.1 hv).2]
        exact L.fine_zero
    · rw [List.length_append, List.length_replicate]
      omega

theorem upholds_output (args : List Expr) (vs : List Value) : L.Upholds L.Fine
    (do Exec.print cfg (← lift (outputLine (← get) args vs)); return Value.int 0)
    (do Exec.print cfg (← lift (outputLine (← get) args vs)); return Value.int 0) := by
  apply leads_get
  intro s _
  apply (plainly_lift (uncounted_outputLine s args vs)).bind
  intro line _
  exact (plainly_print line).bind fun _ _ => upholds_pure L.fine_zero

theorem leads_defined {a a' : Function → Exec α} (f : String)
    (h : ∀ fn : Function, (∀ n ∈ Stmt.listNumbers fn.body, L.number n) →
      L.Leads c P (a fn) (a' fn)) :
    L.Leads c P
      (do match (← get).function? f with
        | none => throw (.undefinedFunction f)
        | some fn => a fn)
      (do match (← get).function? f with
        | none => throw (.undefinedFunction f)
        | some fn => a' fn) := by
  apply leads_get
  intro s hs
  cases hf : s.function? f with
  | none => exact leads_throw rfl
  | some fn =>
    obtain ⟨l₁, l₂, hl, -⟩ := List.lookup_eq_some_iff.1 hf
    exact h fn (hs.written (f, fn) (by rw [hl]; simp))

end Actions

namespace Runs

variable {r r' : Runner} (h : L.Runs r r')
include h

theorem body {fn : Function} (hn : ∀ n ∈ Stmt.listNumbers fn.body, L.number n) :
    L.Upholds L.Fine (r.body fn) (r'.body fn) := by
  apply (h.exec (.block fn.body) hn).bind
  intro _ _
  apply leads_get
  intro s hs
  apply upholds_pure
  cases hv : s.returnValue with
  | none => exact L.fine_zero
  | some v => exact hs.holds.returned v hv

theorem enter (f : String) {fn : Function} (hn : ∀ n ∈ Stmt.listNumbers fn.body, L.number n)
    {vs : List Value} (hvs : ∀ v ∈ vs, L.Fine v) :
    L.Upholds L.Fine (Runner.checkDepth cfg r.levels f >>= fun _ => r.enter f fn vs)
      (Runner.checkDepth cfg r'.levels f >>= fun _ => r'.enter f fn vs) := by
  intro s hs
  rw [← h.levels]
  rcases checkDepth_cases r.levels f hs with ⟨hle, hok⟩ | ⟨g, t, hstop, hend⟩
  · have hgood : L.Good (s.enter f fn vs) := by
      refine ⟨⟨hs.holds.toHoldsFrom.enter L.fine_zero f fn hvs, ?_⟩, hs.written,
        L.enter hs.used hle⟩
      rintro v ⟨⟩
    have hbefore : s.usage.Before (s.enter f fn vs).usage := ⟨Nat.le_refl _, List.prefix_refl _⟩
    obtain ⟨hend, hsame⟩ := upholds_leave (h.body hn) f hs.holds.returned _ hgood
    rw [bind_of_ok hok, bind_of_ok hok]
    exact ⟨hend.since hbefore, hsame⟩
  · rw [bind_of_error hstop, bind_of_error hstop]
    exact ⟨hend, fun _ => rfl⟩

end Runs

def walk (L : Law cfg) : RunWalk cfg cfg where
  scope := ⟨fun _ => True, L.number⟩
  fine := L.Fine
  checks := L.checks
  checksSteps := L.checksSteps
  rel := L.Leads
  part := L.Ticks
  runs := L.Runs
  gives := upholds_pure
  throws := leads_throw
  bind := .bind
  mono := .mono
  ofPart h := h.leads
  tick := by
    intro α c P a a' r r' h ha
    rw [← h.levels]
    exact ticks_tick r.levels ha
  eval h he := h.eval _ he.2
  literal _ hn := hn
  text _ := trivial
  small := L.small
  lookup := upholds_lookup
  element i _ := upholds_element _ i
  checkIndex := plainly_checkIndex
  newPointer := upholds_newPointer
  noAddress := by
    intro r r' e h
    rw [← h.levels]
    exact upholds_noAddress r.levels e
  dereference _ := upholds_dereference _
  unary op hv := upholds_unary op hv
  update op before _ := leads_update op _ before
  binary op hv hw := upholds_binary op hv hw
  arrayLength := plainly_arrayLength
  filledArray x length hi := upholds_filledArray x length hi
  write _ hv := leads_bind _ hv
  writeElement ref i hv := leads_writeElement ref i hv
  exec h hs := h.exec _ hs.2
  prints := .refl cfg
  output args _ := upholds_output args _
  defined f ha := leads_defined f ha
  enter f h hn hvs := h.enter f hn hvs
  asks _ := leads_get fun _ _ => plainly_pure _
  flags _ _ := plainly_control fun _ => rfl
  returned := plainly_return
  define name params hn := (plainly_record _).bind fun _ _ => plainly_define name hn
  equal := plainly_equal
  rounds ha hx hb := by
    -- A round that goes on has run its body, and so has counted a step.
    apply plainly_loop
    · apply ha.bind
      intro goesOn _
      cases goesOn with
      | false => exact plainly_pure false
      | true => exact hx.bind fun _ _ => hb
    · apply ha.counts_bind
      intro goesOn _
      cases goesOn with
      | false => rintro s - x t ⟨⟩ ⟨⟩
      | true => exact hx.counts_bind fun _ _ => hb

theorem covers {W : List String} {N : List Number} (hn : ∀ n ∈ N, L.number n) :
    L.walk.scope.Covers W N := ⟨fun _ _ => trivial, hn⟩

/-- Where nothing is left unchecked, every run upholds the law. -/
theorem runs_of_checks (hchecks : ∀ op, L.checks op) (hsteps : L.checksSteps) (n : Nat) :
    L.Runs (runner cfg n) (runner cfg n) := by
  induction n with
  | zero => exact ⟨fun _ _ => ticks_throw rfl, fun _ _ => ticks_throw rfl, rfl⟩
  | succ n ih =>
    refine ⟨fun e hn => ?_, fun s hn => ?_, rfl⟩
    · have he := vouched_of_checks hchecks hsteps e
      exact (L.walk.evalStep ih (covers hn)).mono (fun _ => he) fun _ hv => hv he
    · have hs := stored_of_checks hchecks s
      exact (L.walk.execStep ih (covers hn)).mono (fun _ => hs) fun _ _ => trivial

def Stops (L : Law cfg) (b : Exec α) (s : State) : Prop :=
  ∃ f t, b s = .error f t ∧ t.Holds L.Fine ∧ L.fault f t.usage ∧ s.usage.Before t.usage ∧
    ¬L.ends t.usage

/-- What is needed of a run whose parts are watched to compare it with another one. The watch of the
first vouches for what the law does not, its stand-in ends the run where the law does not look back
from, and the watch of the second asks for nothing but what the law says. -/
structure Watches (L : Law cfg) (w w' : Watch) (stop : Nat → Runner) : Prop where
  eval : ∀ {e s v t}, w.eval e s (.ok v t) → ¬L.Checked e → L.Fine v ∧ t.Holds L.Fine
  exec : ∀ {c s u t}, w.exec c s (.ok u t) → ¬L.Stores c → t.Holds L.Fine
  stopEval : ∀ {n e s r}, L.Good s → ¬w.eval e s r → L.Stops ((stop n).eval e) s
  stopExec : ∀ {n c s r}, L.Good s → ¬w.exec c s r → L.Stops ((stop n).exec c) s
  showEval : ∀ {e s r}, L.Good s → L.Ends True L.Fine s r → L.ends (endState r).usage →
    w'.eval e s r
  showExec : ∀ {c s r}, L.Good s → L.Ends True (fun _ => True) s r → L.ends (endState r).usage →
    w'.exec c s r

theorem ticks_guard {a a' b b' : Exec α} {keeps keeps' : State → Ending α → Prop}
    (h : L.Ticks c (fun x => c → P x) a a')
    (hkeeps : ∀ {s x t}, keeps s (.ok x t) → ¬c → P x ∧ t.Holds L.Fine)
    (hstop : ∀ {s r}, L.Good s → ¬keeps s r → L.Stops b s)
    (hshow : ∀ {s r}, L.Good s → L.Ends True P s r → L.ends (endState r).usage → keeps' s r) :
    L.Ticks True P (Watch.guard keeps a b) (Watch.guard keeps' a' b') := by
  constructor
  · intro s hs
    obtain ⟨hend, hsame⟩ := h.leads s hs
    by_cases hk : keeps s (a s)
    · have hend' : L.Ends True P s (a s) := by
        cases ha : a s with
        | error f t =>
          rw [ha] at hend
          exact hend
        | ok x t =>
          rw [ha] at hend hk
          obtain ⟨hx, hholds, hrest⟩ := hend
          -- Either the law vouches for the value, or the watch does.
          by_cases hc : c
          · exact ⟨hx hc, fun _ => hholds hc, hrest⟩
          · exact ⟨(hkeeps hk hc).1, fun _ => (hkeeps hk hc).2, hrest⟩
      rw [Watch.guard_of_keeps hk]
      refine ⟨hend', fun ht => ?_⟩
      have hkeeps' : keeps' s (a' s) := by
        rw [hsame ht]
        exact hshow hs hend' ht
      rw [Watch.guard_of_keeps hkeeps', hsame ht]
    · obtain ⟨f, t, hb, hholds, hfault, hbefore, hends⟩ := hstop hs hk
      rw [Watch.guard_of_not hk, hb]
      exact ⟨⟨hholds, hfault, hbefore⟩, fun ht => absurd ht hends⟩
  · intro s hs x t hx _
    by_cases hk : keeps s (a s)
    · rw [Watch.guard_of_keeps hk] at hx
      exact h.counts s hs x t hx trivial
    · obtain ⟨f, u, hb, -⟩ := hstop hs hk
      rw [Watch.guard_of_not hk, hb] at hx
      cases hx

theorem runs_watched {w w' : Watch} {stop : Nat → Runner} (h : L.Watches w w' stop)
    (other : Nat → Runner) (n : Nat) :
    L.Runs (watchedRunner cfg w stop n) (watchedRunner cfg w' other n) := by
  induction n with
  | zero =>
    refine ⟨fun e _ => ?_, fun s _ => ?_, rfl⟩
    -- Where no level is left, a runner throws, whatever it is given.
    · exact ticks_guard (ticks_throw (c := L.Checked e) rfl) h.eval h.stopEval h.showEval
    · exact ticks_guard (ticks_throw (c := L.Stores s) rfl) (fun hk hc => ⟨trivial, h.exec hk hc⟩)
        h.stopExec h.showExec
  | succ n ih =>
    refine ⟨fun e hn => ?_, fun s hn => ?_, congrArg (· + 1) ih.levels⟩
    · exact ticks_guard (L.walk.evalStep ih (covers hn)) h.eval h.stopEval h.showEval
    · exact ticks_guard ((L.walk.execStep ih (covers hn)).mono id fun _ _ _ => trivial)
        (fun hk hc => ⟨trivial, h.exec hk hc⟩) h.stopExec h.showExec

theorem good_initial (h : L.state State.initial.usage) : L.Good .initial := by
  have hbindings (i : Nat) : State.initial.bindingsOf i = [] := by
    cases i with
    | zero => rfl
    | succ i => rfl
  refine ⟨⟨⟨fun i _ b hb => ?_, fun ref _ v hv => ?_⟩, ?_⟩, ?_, h⟩
  · rw [hbindings] at hb
    cases hb
  · simp [State.elements, State.initial] at hv
  · rintro v ⟨⟩
  · rintro p ⟨⟩

theorem ends_of_checks (hchecks : ∀ op, L.checks op) (hsteps : L.checksSteps) {t : Tree}
    (hn : ∀ n ∈ t.numbers, L.number n) (hinitial : L.state State.initial.usage) :
    L.Ends True (fun _ => True) .initial (runTree cfg (runner cfg cfg.levels) t .initial) :=
  (L.walk.runTree (runs_of_checks hchecks hsteps cfg.levels) (covers hn) .initial
    (good_initial hinitial)).1

/-- A watched run ends as the law says, and the run under the other watch is the same, if it is
where the law looks back from. -/
theorem run_watched {w w' : Watch} {stop : Nat → Runner} (h : L.Watches w w' stop)
    (other : Nat → Runner) {t : Tree} (hn : ∀ n ∈ t.numbers, L.number n)
    (hinitial : L.state State.initial.usage) (n : Nat) :
    L.Ends True (fun _ => True) .initial (runTree cfg (watchedRunner cfg w stop n) t .initial) ∧
      (L.ends (endState (runTree cfg (watchedRunner cfg w stop n) t .initial)).usage →
        runTree cfg (watchedRunner cfg w' other n) t .initial =
          runTree cfg (watchedRunner cfg w stop n) t .initial) :=
  L.walk.runTree (runs_watched h other n) (covers hn) .initial (good_initial hinitial)

end Law

end MiniC.Machine

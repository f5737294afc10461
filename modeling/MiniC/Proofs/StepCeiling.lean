import MiniC.Proofs.Reports

/-! The ceiling on steps is an exact threshold. A run has counted more steps than allowed if and
only if it ends for that reason, with one step too many, and every ceiling below the steps that a
run counts cuts it short. What is told of it is the ceiling, unless the stack has no room left for a
report. Main statement: `step_ceiling_exact`. -/

namespace MiniC.Machine

open Exec

def Fault.isStepLimit : Fault → Bool
  | .stepLimit _ | .unreported (.stepCeiling _) => true
  | _ => false

def stepCeiling (cfg : Bounds) : Law cfg where
  number _ := True
  state u := u.steps ≤ cfg.maxSteps
  fault f u := u.steps ≤ cfg.maxSteps ∧ f.isStepLimit = false ∨
    u.steps = cfg.maxSteps + 1 ∧
      (f = .stepLimit cfg.maxSteps ∨ f = .unreported (.stepCeiling cfg.maxSteps))
  ends _ := True
  checks _ := True
  checksSteps := True
  small _ := trivial
  neg _ := trivial
  arithmetic _ _ _ _ := trivial
  stepped _ _ := trivial
  back _ _ := trivial
  within h := h
  throws {f _} hf h := by
    refine .inl ⟨h, ?_⟩
    cases f with
    | stepLimit n => cases hf
    | unreported r => cases hf
    | _ => rfl
  tick _ h := h
  tickLimit h hlt := .inr ⟨Nat.le_antisymm (Nat.succ_le_succ h) hlt, .inl rfl⟩
  tickUnreported h hlt _ := .inr ⟨Nat.le_antisymm (Nat.succ_le_succ h) hlt, .inr rfl⟩
  print h _ := h
  printLimit h := .inl ⟨h, rfl⟩
  newArray h _ := h
  enter h _ := h
  callUnreported h _ := .inl ⟨h, rfl⟩
  leave h := h
  leaveFault h := h

section Threshold

variable (cfg : Bounds) (t : Tree)

/-- A run ends within the ceiling and not for its steps, or one step above and for them. -/
theorem execute_steps :
    ((execute cfg t).state.steps ≤ cfg.maxSteps ∧
      ∀ f, (execute cfg t).fault = some f → f.isStepLimit = false) ∨
    ((execute cfg t).state.steps = cfg.maxSteps + 1 ∧
      ((execute cfg t).fault = some (.stepLimit cfg.maxSteps) ∨
        (execute cfg t).fault = some (.unreported (.stepCeiling cfg.maxSteps)))) := by
  have hend := Law.ends_of_checks (L := stepCeiling cfg) (t := t) (fun _ => trivial) trivial
    (fun _ _ => trivial) (Nat.zero_le _)
  obtain ⟨husage, hfault⟩ := execute_ends cfg t
  have hsteps : (execute cfg t).state.steps =
      (endState (runTree cfg (runner cfg cfg.levels) t .initial)).steps :=
        congrArg Usage.steps husage
  rw [hsteps, hfault]
  cases hr : runTree cfg (runner cfg cfg.levels) t .initial with
  | ok u s =>
    rw [hr] at hend
    obtain ⟨-, -, -, hused, -⟩ := hend
    refine .inl ⟨hused, ?_⟩
    rintro f ⟨⟩
  | error f s =>
    rw [hr] at hend
    rcases hend.2.1 with ⟨hle, hf⟩ | ⟨hone, hf⟩
    · refine .inl ⟨hle, ?_⟩
      rintro g ⟨⟩
      exact hf
    · exact .inr ⟨hone, hf.imp (congrArg some) (congrArg some)⟩

/-- What is told of a run that has passed the ceiling on steps: that, or that the stack had no room
to tell it. -/
def Outcome.PassedSteps (o : Outcome) (n : Nat) : Prop :=
  o.result.fault = some s!"Execution exceeded {n} steps (possible infinite loop)" ∨
    o.fault = some (.unreported (.stepCeiling n)) ∧
      o.result.fault = some "Maximum recursion depth exceeded"

theorem Outcome.passedSteps_of_fault {o : Outcome} {n : Nat}
    (h : o.fault = some (.stepLimit n) ∨ o.fault = some (.unreported (.stepCeiling n))) :
    o.PassedSteps n := by
  rcases h with h | h
  · exact .inl (congrArg (Option.map Fault.report) h)
  · exact .inr ⟨h, congrArg (Option.map Fault.report) h⟩

theorem fault_of_report
    (h : (execute cfg t).result.fault = some (Fault.stepLimit cfg.maxSteps).report) :
    (execute cfg t).fault = some (.stepLimit cfg.maxSteps) := by
  obtain ⟨f, hf, hreport⟩ := Option.map_eq_some_iff.1 h
  by_cases hlimit : ∃ n, f = .stepLimit n
  · obtain ⟨n, rfl⟩ := hlimit
    rcases execute_steps cfg t with ⟨-, hother⟩ | ⟨-, hfault | hfault⟩
    · cases hother _ hf
    · exact hfault
    · rw [hf] at hfault
      cases hfault
  · exact absurd hreport (Fault.report_ne_stepLimit (fun n hn => hlimit ⟨n, hn⟩) cfg.maxSteps)

theorem lt_steps_iff :
    cfg.maxSteps < (execute cfg t).state.steps ↔ (execute cfg t).PassedSteps cfg.maxSteps := by
  rcases execute_steps cfg t with ⟨hle, hother⟩ | ⟨hone, hfault⟩
  · constructor
    · intro hlt
      omega
    · rintro (h | ⟨h, -⟩)
      · cases hother _ (fault_of_report cfg t h)
      · cases hother _ h
  · exact ⟨fun _ => Outcome.passedSteps_of_fault hfault, fun _ => by omega⟩

end Threshold

section Shortened

variable {cfg : Bounds} {n : Nat}

theorem shortens_tick (hn : n ≤ cfg.maxSteps) (k : Nat) :
    SameUnless (·.isStepLimit = true) (tick { cfg with maxSteps := n } k) (tick cfg k) := by
  intro s
  rcases Nat.lt_or_ge n (s.steps + 1) with h | h
  · right
    rw [tick_of_lt h]
    rcases stopAt_cases { cfg with maxSteps := n } k (.stepCeiling n) (.stepLimit n)
      { s with steps := s.steps + 1 } with hstop | ⟨-, hstop⟩
    · exact ⟨_, _, hstop, rfl⟩
    · exact ⟨_, _, hstop, rfl⟩
  · rw [tick_of_le h, tick_of_le (Nat.le_trans h hn)]
    exact .inl rfl

theorem shortens_runs (hn : n ≤ cfg.maxSteps) : RunCongruence { cfg with maxSteps := n } cfg Eq
    fun _ _ a a' => SameUnless (·.isStepLimit = true) a a' := by
  refine SameUnless.runs ⟨rfl, rfl, rfl, rfl, rfl⟩ ?_ ?_ ?_ hn (.inr rfl)
  · rintro k _ rfl
    exact shortens_tick hn k
  · rintro k _ e rfl
    exact .refl _
  · rintro k _ f rfl
    exact .refl _

/-- Under a lower ceiling on steps a run is the same, or it ends for its steps. -/
theorem execute_shortened (hn : n ≤ cfg.maxSteps) (t : Tree) :
    execute { cfg with maxSteps := n } t = execute cfg t ∨
      ∃ f, (execute { cfg with maxSteps := n } t).fault = some f ∧ f.isStepLimit = true := by
  have hruns := (shortens_runs hn).runner cfg.levels
  rcases (shortens_runs hn).runTree hruns (List.Subset.refl t.writes) .initial with
    he | ⟨f, s, hs, hf⟩
  · exact .inl (by rw [execute, execute, he])
  · have hstop : execute { cfg with maxSteps := n } t = _ := execute_of_error hs
    exact .inr ⟨f, congrArg Outcome.fault hstop, hf⟩

theorem reported_shortened (hlevels : cfg.reportLevels ≤ cfg.levels) {t : Tree}
    (hspare : (execute cfg.spare t).fault ≠ some .tooDeep) (hn : n ≤ cfg.maxSteps) {f : Fault}
    (hf : (execute { cfg with maxSteps := n } t).fault = some f) : f.isUnreported = false := by
  have hroom : Bounds.reportLevels { cfg with maxSteps := n } ≤
      Bounds.levels { cfg with maxSteps := n } := hlevels
  refine execute_reported_of_spare hroom ?_ hf
  have hn : n ≤ cfg.spare.maxSteps := hn
  rcases execute_shortened hn t with heq | ⟨f, hf, hlimit⟩
  · exact fun hdeep => hspare (heq ▸ hdeep)
  · intro hdeep
    rw [show f = .tooDeep from Option.some.inj (hf.symm.trans hdeep)] at hlimit
    cases hlimit

end Shortened

/-- Every ceiling below the steps that a run counts ends it with no value and one step too many, and
in every run more steps are counted than allowed if and only if it ends so. The report of the
ceiling is what is told of it, if the run does with the stack that a report leaves. -/
theorem step_ceiling_exact (cfg : Bounds) (t : Tree) :
    (∀ n, n < (execute cfg t).state.steps →
      (execute { cfg with maxSteps := n } t).PassedSteps n ∧
        (execute { cfg with maxSteps := n } t).result.returnValue = none ∧
        (execute { cfg with maxSteps := n } t).state.steps = n + 1) ∧
    (cfg.maxSteps < (execute cfg t).state.steps ↔ (execute cfg t).PassedSteps cfg.maxSteps) ∧
    (cfg.reportLevels ≤ cfg.levels → (execute cfg.spare t).fault ≠ some .tooDeep →
      (∀ n, n < (execute cfg t).state.steps →
        (execute { cfg with maxSteps := n } t).result.fault =
          some s!"Execution exceeded {n} steps (possible infinite loop)") ∧
      (cfg.maxSteps < (execute cfg t).state.steps ↔ (execute cfg t).result.fault =
        some s!"Execution exceeded {cfg.maxSteps} steps (possible infinite loop)")) := by
  have hle {n : Nat} (hlt : n < (execute cfg t).state.steps) : n ≤ cfg.maxSteps := by
    rcases execute_steps cfg t with ⟨hsteps, -⟩ | ⟨hsteps, -⟩ <;> omega
  have hcut (n : Nat) (hlt : n < (execute cfg t).state.steps) :
      (execute { cfg with maxSteps := n } t).state.steps = n + 1 ∧
        ((execute { cfg with maxSteps := n } t).fault = some (.stepLimit n) ∨
          (execute { cfg with maxSteps := n } t).fault = some (.unreported (.stepCeiling n))) := by
    rcases execute_steps { cfg with maxSteps := n } t with ⟨hsteps, hother⟩ | hpassed
    · -- Within the lower ceiling the run would be the same, and that has counted more.
      rcases execute_shortened (hle hlt) t with hsame | ⟨f, hf, hlimit⟩
      · rw [hsame] at hsteps
        exact absurd hlt (Nat.not_lt.2 hsteps)
      · rw [hother f hf] at hlimit
        cases hlimit
    · exact hpassed
  refine ⟨fun n hlt => ?_, lt_steps_iff cfg t, fun hlevels hspare => ⟨fun n hlt => ?_, ?_⟩⟩
  · obtain ⟨hsteps, hfault⟩ := hcut n hlt
    refine ⟨Outcome.passedSteps_of_fault hfault, ?_, hsteps⟩
    rcases hfault with h | h <;> simp [Outcome.result, Outcome.returnValue, h]
  · rcases (hcut n hlt).2 with h | h
    · exact congrArg (Option.map Fault.report) h
    · cases reported_shortened hlevels hspare (hle hlt) h
  · rw [lt_steps_iff]
    refine ⟨fun h => h.resolve_right ?_, .inl⟩
    rintro ⟨h, -⟩
    cases execute_reported_of_spare hlevels hspare h

def lateDivision : Tree :=
  .program [.whileLoop (.binary .lt (.name "i") (.number (.int 2) 0))
      (.expr (.update .inc "i" false)),
    .expr (.binary .div (.number (.int 1) 1) (.number (.int 0) 2))]

/-- A run that ends by a fault is cut short one step before. A sum of 495 ones is as well, but where
the stack has no room to tell it. -/
theorem step_ceiling_exact_lateDivision :
    (execute {} lateDivision).result.fault = some "Division by zero" ∧
      (execute {} lateDivision).state.steps = 18 ∧
      (execute { maxSteps := 17 } lateDivision).result.fault =
        some "Execution exceeded 17 steps (possible infinite loop)" ∧
      (execute { maxSteps := 17 } lateDivision).state.steps = 18 ∧
    (execute {} (.stmt (.expr (onesSum 494)))).state.steps = 989 ∧
      (execute { maxSteps := 494 } (.stmt (.expr (onesSum 494)))).state.steps = 495 ∧
      (execute { maxSteps := 494 } (.stmt (.expr (onesSum 494)))).result.fault =
        some "Maximum recursion depth exceeded" := by
  have hfault : (execute {} lateDivision).result.fault = some "Division by zero" := by rfl
  have hsteps : (execute {} lateDivision).state.steps = 18 := by rfl
  have hspare : (execute (Bounds.spare {}) lateDivision).fault =
      some (.number .divisionByZero) := by
    rfl
  have hlt : 17 < (execute {} lateDivision).state.steps := by rw [hsteps]; decide
  -- For any tree, since unifying the bounds of a given one would run it.
  have hcut {t : Tree} (n : Nat) (hlt : n < (execute {} t).state.steps) :
      (execute { maxSteps := n } t).state.steps = n + 1 := ((step_ceiling_exact {} t).1 n hlt).2.2
  have hreport (t : Tree) (hlt : 17 < (execute {} t).state.steps)
      (hspare : (execute (Bounds.spare {}) t).fault ≠ some .tooDeep) :
      (execute { maxSteps := 17 } t).result.fault =
        some "Execution exceeded 17 steps (possible infinite loop)" :=
    ((step_ceiling_exact {} t).2.2 (by decide) hspare).1 17 hlt
  have hvalue := execute_onesSum {} (k := 494) (by decide) (by decide)
    (Nat.lt_of_lt_of_le (by decide : 495 < 2 ^ 9) (Nat.pow_le_pow_right (by decide) (by decide)))
  have hdeep := execute_onesSum_unreported { maxSteps := 494 } (k := 494) (Nat.le_refl _)
    (by decide) (by decide)
  have hcount : (execute {} (.stmt (.expr (onesSum 494)))).state.steps = 989 := by rw [hvalue]
  refine ⟨hfault, hsteps, hreport lateDivision hlt (by rw [hspare]; simp), hcut 17 hlt, hcount,
    hcut 494 (by omega), ?_⟩
  · rw [hdeep]
    rfl

end MiniC.Machine

import MiniC.Proofs.Ceilings
import MiniC.Proofs.Limits

/-! What a run has to do with the stack that a report takes. A ceiling is reported where so many
levels of the stack are left; where there are fewer, the run ends for want of stack. A run that
would do with fewer levels, by as many as a report takes, reports every ceiling that it meets, and
for such runs the ceilings only truncate. Main statement: `execute_truncated`. -/

namespace MiniC.Machine

open Exec

/-- The stack without the levels that a report takes, and reports that take none. -/
def Bounds.spare (cfg : Bounds) : Bounds :=
  { cfg with levels := cfg.levels - cfg.reportLevels, reportLevels := 0 }

section SameUnless

variable {α β : Type} {bad : Fault → Prop}

/-- The first action ends like the second, or with a fault of some kind. -/
def SameUnless (bad : Fault → Prop) (a a' : Exec α) : Prop :=
  ∀ s, a s = a' s ∨ ∃ f t, a s = .error f t ∧ bad f

theorem SameUnless.refl (a : Exec α) : SameUnless bad a a := fun _ => .inl rfl

theorem SameUnless.bind {a a' : Exec α} {f f' : α → Exec β} (h : SameUnless bad a a')
    (hf : ∀ x, SameUnless bad (f x) (f' x)) : SameUnless bad (a >>= f) (a' >>= f') := by
  intro s
  rcases h s with he | ⟨g, t, ha, hg⟩
  · cases ha : a s with
    | ok x t =>
      rw [bind_of_ok ha, bind_of_ok (he ▸ ha)]
      exact hf x t
    | error e t =>
      rw [bind_of_error ha, bind_of_error (he ▸ ha)]
      exact .inl rfl
  · exact .inr ⟨g, t, bind_of_error ha f, hg⟩

theorem SameUnless.andThen {a a' : Exec α} (h : SameUnless bad a a') (after : State → State) :
    SameUnless bad (andThen a after) (andThen a' after) := by
  intro s
  unfold Exec.andThen
  rcases h s with he | ⟨g, t, ha, hg⟩
  · rw [he]
    exact .inl rfl
  · rw [ha]
    exact .inr ⟨g, after t, rfl, hg⟩

theorem SameUnless.enter {r r' : Runner} (f : String) (fn : Function) (vs : List Value)
    (hb : SameUnless bad (r.exec (.block fn.body)) (r'.exec (.block fn.body))) :
    SameUnless bad (r.enter f fn vs) (r'.enter f fn vs) := by
  intro s
  have hbody : SameUnless bad (r.body fn) (r'.body fn) := hb.bind fun _ => .refl _
  exact hbody.andThen (State.leave f s.returnValue) (s.enter f fn vs)

variable {cfg cfg' : Bounds}

theorem SameUnless.repeatUpTo {a a' : Exec Bool} (h : SameUnless bad a a') {n n' : Nat}
    (hn : n ≤ n') (hsteps : cfg.maxSteps = cfg'.maxSteps ∧ n = n' ∨ bad (.stepLimit cfg.maxSteps)) :
    SameUnless bad (repeatUpTo cfg a n) (repeatUpTo cfg' a' n') := by
  induction n generalizing n' with
  | zero =>
    rcases hsteps with ⟨hmax, rfl⟩ | hbad
    · unfold Exec.repeatUpTo
      rw [hmax]
      exact .refl _
    · exact fun s => .inr ⟨_, s, rfl, hbad⟩
  | succ n ih =>
    cases n' with
    | zero => omega
    | succ n' =>
      apply h.bind
      intro goesOn
      cases goesOn with
      | true => exact ih (by omega) (hsteps.imp (fun h => ⟨h.1, by omega⟩) id)
      | false => exact .refl _

structure Bounds.Alike (cfg cfg' : Bounds) : Prop where
  maxCallDepth : cfg.maxCallDepth = cfg'.maxCallDepth
  maxIntBits : cfg.maxIntBits = cfg'.maxIntBits
  maxArrayLength : cfg.maxArrayLength = cfg'.maxArrayLength
  maxOutputChars : cfg.maxOutputChars = cfg'.maxOutputChars
  outputFunction : cfg.outputFunction = cfg'.outputFunction

theorem SameUnless.runs {beside : Nat → Nat → Prop} (hc : cfg.Alike cfg')
    (htick : ∀ {k k'}, beside k k' → SameUnless bad (tick cfg k) (tick cfg' k'))
    (hnoAddress : ∀ {k k'} (e : Expr), beside k k' →
      SameUnless bad (Runner.noAddress k e) (Runner.noAddress k' e))
    (hcheck : ∀ {k k'} (f : String), beside k k' →
      SameUnless bad (Runner.checkDepth cfg k f) (Runner.checkDepth cfg' k' f))
    (hle : cfg.maxSteps ≤ cfg'.maxSteps)
    (hsteps : cfg.maxSteps = cfg'.maxSteps ∨ bad (.stepLimit cfg.maxSteps)) :
    RunCongruence cfg cfg' beside fun _ _ a a' => SameUnless bad a a' where
  quiet _ := .refl _
  bind := .bind
  tick := htick
  noAddress := hnoAddress
  binary op v w := by
    unfold binary
    rw [hc.maxIntBits]
    exact .refl _
  filledArray x length items := by
    unfold Runner.filledArray
    rw [hc.maxArrayLength]
    exact .refl _
  write _ _ := .refl _
  outputFunction := hc.outputFunction
  print line := by
    unfold print
    rw [hc.maxOutputChars]
    exact .refl _
  checkDepth := hcheck
  control _ := .refl _
  define _ _ := .refl _
  loop ha := ha.repeatUpTo (Nat.succ_le_succ hle) (hsteps.imp_left fun h => ⟨h, congrArg (· + 1) h⟩)
  enter f fn vs h := .enter f fn vs (h.exec (.block fn.body) (List.Subset.refl _))

end SameUnless

section Spare

variable (cfg : Bounds)

theorem stopAt_spare (k : Nat) (r : Record) (f : Fault) :
    stopAt cfg.spare k r f = stopAt cfg (k + cfg.reportLevels) r f := by
  funext s
  rw [stopAt_of_le (Nat.zero_le k), stopAt_of_le (Nat.le_add_left _ _)]

theorem spare_runs : RunCongruence cfg.spare cfg (fun k k' => k' = k + cfg.reportLevels)
    fun _ _ a a' => SameUnless (· = .tooDeep) a a' := by
  refine SameUnless.runs ⟨rfl, rfl, rfl, rfl, rfl⟩ ?_ ?_ ?_ (Nat.le_refl _) (.inl rfl)
  · rintro k _ rfl
    unfold tick
    rw [stopAt_spare]
    exact .refl _
  · rintro k _ e rfl
    unfold Runner.noAddress
    by_cases hk : k < e.depth
    · rw [if_pos hk]
      exact fun s => .inr ⟨_, s, rfl, rfl⟩
    · rw [if_neg hk, if_neg (by omega)]
      exact .refl _
  · rintro k _ f rfl
    unfold Runner.checkDepth
    rw [stopAt_spare]
    exact .refl _

theorem runner_spare (n : Nat) : Executes (fun k k' => k' = k + cfg.reportLevels)
    (fun _ _ a a' => SameUnless (· = .tooDeep) a a') (runner cfg.spare n)
    (runner cfg (n + cfg.reportLevels)) := by
  induction n with
  | zero =>
    refine ⟨⟨fun e _ s => .inr ⟨_, s, rfl, rfl⟩, ?_⟩, fun c _ s => .inr ⟨_, s, rfl, rfl⟩⟩
    rw [runner_levels]
    rfl
  | succ n ih =>
    rw [Nat.add_right_comm]
    refine (spare_runs cfg).above ih ?_
    rw [ih.levels, Nat.add_right_comm]

variable {cfg}

/-- A run that does with fewer levels of the stack is the run with all. -/
theorem execute_spare (hlevels : cfg.reportLevels ≤ cfg.levels) {t : Tree}
    (h : (execute cfg.spare t).fault ≠ some .tooDeep) : execute cfg t = execute cfg.spare t := by
  have hrun := (spare_runs cfg).runTree (runner_spare cfg (cfg.levels - cfg.reportLevels))
    (List.Subset.refl t.writes) .initial
  rw [Nat.sub_add_cancel hlevels] at hrun
  rcases hrun with he | ⟨f, s, hs, rfl⟩
  · have hspare : runTree cfg.spare (runner cfg.spare cfg.spare.levels) t .initial =
      runTree cfg (runner cfg cfg.levels) t .initial := he
    rw [execute, execute, hspare]
  · have hdeep : execute cfg.spare t = _ := execute_of_error hs
    exact absurd (congrArg Outcome.fault hdeep) h

end Spare

/-- The law of reports: where they take no stack, there is one of every ceiling. -/
def reporting (cfg : Bounds) (h : cfg.reportLevels = 0) : Law cfg where
  number _ := True
  state u := u.steps ≤ cfg.maxSteps
  fault f _ := f.isUnreported = false
  ends _ := True
  checks _ := True
  checksSteps := True
  small _ := trivial
  neg _ := trivial
  arithmetic _ _ _ _ := trivial
  stepped _ _ := trivial
  back _ _ := trivial
  within h := h
  throws {f _} hf _ := by
    cases f with
    | unreported r => cases hf
    | _ => rfl
  tick _ h := h
  tickLimit _ _ := rfl
  tickUnreported _ _ hpos := absurd h (Nat.ne_of_gt hpos)
  print h _ := h
  printLimit _ := rfl
  newArray h _ := h
  enter h _ := h
  callUnreported _ hpos := absurd h (Nat.ne_of_gt hpos)
  leave h := h
  leaveFault h := h

theorem execute_reported {cfg : Bounds} (h : cfg.reportLevels = 0) (t : Tree) {f : Fault}
    (hf : (execute cfg t).fault = some f) : f.isUnreported = false := by
  have hend := Law.ends_of_checks (L := reporting cfg h) (t := t) (fun _ => trivial) trivial
    (fun _ _ => trivial) (Nat.zero_le _)
  rw [(execute_ends cfg t).2] at hf
  cases hr : runTree cfg (runner cfg cfg.levels) t .initial with
  | ok u s =>
    rw [hr] at hf
    cases hf
  | error g s =>
    rw [hr] at hf hend
    cases hf
    exact hend.2.1

theorem execute_reported_of_spare {cfg : Bounds} (hlevels : cfg.reportLevels ≤ cfg.levels)
    {t : Tree} (h : (execute cfg.spare t).fault ≠ some .tooDeep) {f : Fault}
    (hf : (execute cfg t).fault = some f) : f.isUnreported = false := by
  rw [execute_spare hlevels h] at hf
  exact execute_reported rfl t hf

/-! Sums of ones nest as deep as they have operators. -/

def onesSum : Nat → Expr
  | 0 => .number (.int 1) 0
  | k + 1 => .binary .add (onesSum k) (.number (.int 1) 0)

section OnesSum

variable (cfg : Bounds)

theorem eval_onesSum_unreported {k n : Nat} {s : State} (hs : s.steps ≤ cfg.maxSteps)
    (hk : cfg.maxSteps ≤ s.steps + k) (hn : cfg.maxSteps < s.steps + n)
    (hreport : s.steps + n ≤ cfg.maxSteps + cfg.reportLevels) :
    (runner cfg n).eval (onesSum k) s =
      .error (.unreported (.stepCeiling cfg.maxSteps)) { s with steps := cfg.maxSteps + 1 } := by
  induction k generalizing n s with
  | zero =>
    obtain ⟨n, rfl⟩ : ∃ m, n = m + 1 := ⟨n - 1, by omega⟩
    have hlast : s.steps = cfg.maxSteps := by omega
    have hstop := @tick_of_lt cfg s (by omega) (runner cfg n).levels
    rw [runner_levels, stopAt_of_lt (by omega), hlast] at hstop
    change (tick cfg (runner cfg n).levels >>= fun _ => _) s = _
    rw [runner_levels, bind_of_error hstop]
  | succ k ih =>
    obtain ⟨n, rfl⟩ : ∃ m, n = m + 1 := ⟨n - 1, by omega⟩
    have hsum : (runner cfg (n + 1)).eval (onesSum (k + 1)) = (do
        tick cfg (runner cfg n).levels
        let v ← (runner cfg n).eval (onesSum k)
        binary cfg .add v (← (runner cfg n).eval (.number (.int 1) 0))) := rfl
    rw [hsum]
    rcases Nat.lt_or_ge cfg.maxSteps (s.steps + 1) with hlt | hle
    · have hlast : s.steps = cfg.maxSteps := by omega
      have hstop := tick_of_lt hlt (runner cfg n).levels
      rw [runner_levels, stopAt_of_lt (by omega), hlast] at hstop
      rw [runner_levels, bind_of_error hstop]
    · have hleft := ih (n := n) (s := { s with steps := s.steps + 1 }) hle (by dsimp only; omega)
        (by dsimp only; omega) (by dsimp only; omega)
      rw [bind_of_ok (tick_of_le hle _), bind_of_error hleft]

theorem execute_onesSum_unreported {k : Nat} (hk : cfg.maxSteps ≤ k)
    (hlt : cfg.maxSteps < cfg.levels) (hle : cfg.levels ≤ cfg.maxSteps + cfg.reportLevels) :
    execute cfg (.stmt (.expr (onesSum k))) =
      ⟨{ State.initial with steps := cfg.maxSteps + 1 },
        some (.unreported (.stepCeiling cfg.maxSteps))⟩ := by
  have hrun : runTree cfg (runner cfg cfg.levels) (.stmt (.expr (onesSum k))) .initial =
      .error (.unreported (.stepCeiling cfg.maxSteps))
        { State.initial with steps := cfg.maxSteps + 1 } := by
    have heval := eval_onesSum_unreported cfg (k := k) (n := cfg.levels) (s := .initial)
      (Nat.zero_le _) (by rwa [State.initial, Nat.zero_add]) (by rwa [State.initial, Nat.zero_add])
      (by rwa [State.initial, Nat.zero_add])
    exact bind_of_error heval _
  rw [execute_of_error hrun]
  rfl

theorem eval_one {n : Nat} {s : State} (hn : 0 < n) (hsteps : s.steps + 1 ≤ cfg.maxSteps) :
    (runner cfg n).eval (onesSum 0) s = .ok (.int 1) { s with steps := s.steps + 1 } := by
  obtain ⟨n, rfl⟩ : ∃ m, n = m + 1 := ⟨n - 1, by omega⟩
  change (tick cfg (runner cfg n).levels >>= fun _ => _) s = _
  rw [bind_of_ok (tick_of_le hsteps _)]
  rfl

theorem add_one {k : Nat} (hbits : k + 1 < 2 ^ cfg.maxIntBits) (s : State) :
    binary cfg .add (.int k) (.int 1) s = .ok (.int (k + 1 : Nat)) s := by
  have hfits : Number.bitLength (k + 1 : Nat) ≤ cfg.maxIntBits :=
    Number.bitLength_le_iff.2 (by rwa [Int.natAbs_natCast])
  have hsum : arithmetic cfg.maxIntBits .add (.int k) (.int 1) = .ok (.int (k + 1 : Nat)) :=
    if_neg (by push_cast at hfits; omega)
  change (liftNumber (arithmetic cfg.maxIntBits .add (.int k) (.int 1)) >>= computed) s = _
  rw [hsum]
  rfl

theorem eval_onesSum {k n : Nat} {s : State} (hn : k < n)
    (hsteps : s.steps + (2 * k + 1) ≤ cfg.maxSteps) (hbits : k + 1 < 2 ^ cfg.maxIntBits) :
    (runner cfg n).eval (onesSum k) s =
      .ok (.int (k + 1 : Nat)) { s with steps := s.steps + (2 * k + 1) } := by
  induction k generalizing n s with
  | zero => exact eval_one cfg hn hsteps
  | succ k ih =>
    obtain ⟨n, rfl⟩ : ∃ m, n = m + 1 := ⟨n - 1, by omega⟩
    have hsum : (runner cfg (n + 1)).eval (onesSum (k + 1)) = (do
        tick cfg (runner cfg n).levels
        let v ← (runner cfg n).eval (onesSum k)
        binary cfg .add v (← (runner cfg n).eval (onesSum 0))) := rfl
    have hleft := ih (n := n) (s := { s with steps := s.steps + 1 }) (by omega)
      (by dsimp only; omega) (by omega)
    have hright := eval_one cfg (n := n)
      (s := { s with steps := s.steps + 1 + (2 * k + 1) }) (by omega) (by dsimp only; omega)
    rw [hsum, bind_of_ok (tick_of_le (by omega) _), bind_of_ok hleft, bind_of_ok hright,
      add_one cfg hbits]
    have hcount : s.steps + 1 + (2 * k + 1) + 1 = s.steps + (2 * (k + 1) + 1) := by omega
    rw [hcount]

theorem execute_onesSum {k : Nat} (hlevels : k < cfg.levels) (hsteps : 2 * k + 1 ≤ cfg.maxSteps)
    (hbits : k + 1 < 2 ^ cfg.maxIntBits) :
    execute cfg (.stmt (.expr (onesSum k))) =
      ⟨{ State.initial with
        steps := 2 * k + 1
        returnValue := some (.int (k + 1 : Nat)) }, none⟩ := by
  have hcount : State.initial.steps + (2 * k + 1) = 2 * k + 1 := Nat.zero_add _
  have heval := eval_onesSum cfg (s := .initial) hlevels (by rwa [hcount]) hbits
  rw [hcount] at heval
  have hrun : runTree cfg (runner cfg cfg.levels) (.stmt (.expr (onesSum k))) .initial = .ok ()
      { State.initial with steps := 2 * k + 1, returnValue := some (.int (k + 1 : Nat)) } := by
    change ((runner cfg cfg.levels).eval (onesSum k) >>= fun v => _) State.initial = _
    rw [bind_of_ok heval]
    rfl
  exact execute_of_ok hrun

end OnesSum

/-- Lower ceilings truncate a run and change nothing before. A run under the lower ones that meets
none of them is the run under the higher ones, with its output, value, variables, fault and count of
steps; and whatever it meets, it has printed no more than the beginning of what the other prints. A
ceiling that is met where the stack has no room for its report is told from any other fault by the
run alone, and none is met so in a run that would do without that room. -/
theorem execute_truncated {cfg cfg' : Bounds} (hc : cfg.Within cfg') (t : Tree) :
    ((∀ f, (execute cfg t).fault = some f → f.isCeiling = false ∧ f.isUnreported = false) →
      execute cfg t = execute cfg' t) ∧
    (execute cfg t).result.output <+: (execute cfg' t).result.output ∧
    (cfg.reportLevels ≤ cfg.levels → (execute cfg.spare t).fault ≠ some .tooDeep →
      (∀ f, (execute cfg t).fault = some f → f.isCeiling = false) →
      execute cfg t = execute cfg' t) := by
  obtain ⟨hcut, hprefix⟩ := execute_cut hc t
  have hsame (h : ∀ f, (execute cfg t).fault = some f → f.isCut = false) :
      execute cfg t = execute cfg' t := by
    rcases hcut with heq | ⟨f, hf, hisCut⟩
    · exact heq
    · rw [h f hf] at hisCut
      cases hisCut
  refine ⟨fun h => hsame fun f hf => ?_, hprefix, fun hlevels hspare h => hsame fun f hf => ?_⟩
  · exact Bool.or_eq_false_iff.2 (h f hf)
  · exact Bool.or_eq_false_iff.2 ⟨h f hf, execute_reported_of_spare hlevels hspare hf⟩

def countedOutput : List Stmt :=
  [.forLoop (some (.assign (.name "i") .set (.number (.int 0) 0)))
    (some (.binary .lt (.name "i") (.number (.int 2) 1))) (some (.expr (.update .inc "i" false)))
    (.expr (.call "printf" [.name "i"]))]

/-- With 22 steps the run is not cut, with 15 it is. A sum of 495 ones goes down to where no ceiling
is reported: with 494 steps it ends for want of stack, which is none of the ceilings, and with more
it gives 495. -/
theorem execute_countedOutput_truncated :
    Bounds.Within { maxSteps := 22 } {} ∧ Bounds.Within { maxSteps := 15 } {} ∧
      execute { maxSteps := 22 } (.program countedOutput) = execute {} (.program countedOutput) ∧
      (execute { maxSteps := 15 } (.program countedOutput)).result.output <+:
        (execute {} (.program countedOutput)).result.output ∧
      (execute { maxSteps := 494 } (.stmt (.expr (onesSum 494)))).result.fault =
        some "Maximum recursion depth exceeded" ∧
      (execute { maxSteps := 494 } (.stmt (.expr (onesSum 494)))).fault =
        some (.unreported (.stepCeiling 494)) ∧
      (execute {} (.stmt (.expr (onesSum 494)))).returnValue = some (.int 495) := by
  have hwithin (n : Nat) (h : n ≤ 100000) : Bounds.Within { maxSteps := n } {} :=
    ⟨h, Nat.le_refl _, Nat.le_refl _, Nat.le_refl _, Nat.le_refl _, rfl, rfl, rfl⟩
  have h₂₂ := hwithin 22 (by decide)
  have h₁₅ := hwithin 15 (by decide)
  have hnone : (execute { maxSteps := 22 } (.program countedOutput)).fault = none := by
    decide +kernel
  have hspare :
      (execute (Bounds.spare { maxSteps := 22 }) (.program countedOutput)).fault = none := by
    decide +kernel
  have hsame := (execute_truncated h₂₂ (.program countedOutput)).2.2 (by decide)
    (by rw [hspare]; simp) (by rw [hnone]; simp)
  have hdeep := execute_onesSum_unreported { maxSteps := 494 } (k := 494) (Nat.le_refl _)
    (by decide) (by decide)
  have hvalue := execute_onesSum {} (k := 494) (by decide) (by decide)
    (Nat.lt_of_lt_of_le (by decide : 495 < 2 ^ 9) (Nat.pow_le_pow_right (by decide) (by decide)))
  refine ⟨h₂₂, h₁₅, hsame, (execute_truncated h₁₅ _).2.1, ?_, ?_, ?_⟩
  · rw [hdeep]
    rfl
  · rw [hdeep]
  · rw [hvalue]
    rfl

end MiniC.Machine

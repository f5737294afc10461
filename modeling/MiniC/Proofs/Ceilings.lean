import MiniC.Proofs.Congruence

/-! Ceilings cut a run short and change nothing before. Two runs of one tree, the first under
ceilings that are nowhere higher, go through the same states until the first one meets a ceiling;
what it has printed by then is the beginning of what the second one prints. -/

namespace MiniC

namespace Number

def Narrowed (x x' : Except Fault Number) : Prop := x = x' ∨ ∃ bits, x = .error (.tooWide bits)

theorem Narrowed.refl (x : Except Fault Number) : Narrowed x x := .inl rfl

theorem Narrowed.of_ints (f : Int → Number → Number → Except Fault Number) (b b' : Int)
    (hint : ∀ m n : Int, Narrowed (f b (.int m) (.int n)) (f b' (.int m) (.int n)))
    (hleft : ∀ v y, f b (.float v) y = f b' (.float v) y)
    (hright : ∀ m v, f b (.int m) (.float v) = f b' (.int m) (.float v)) (x y : Number) :
    Narrowed (f b x y) (f b' x y) := by
  cases x with
  | float v => exact .inl (hleft v y)
  | int m =>
    cases y with
    | float v => exact .inl (hright m v)
    | int n => exact hint m n

theorem bounded_narrowed {b b' : Int} (h : b ≤ b') (n : Number) :
    Narrowed (bounded b n) (bounded b' n) := by
  cases n with
  | float x => exact .refl _
  | int n =>
    simp only [bounded]
    by_cases hb : b < bitLength n
    · rw [if_pos hb]
      exact .inr ⟨b, rfl⟩
    · rw [if_neg hb, if_neg (by omega)]
      exact .refl _

theorem power_narrowed {b b' : Int} (h : b ≤ b') (x y : Number) :
    Narrowed (power b x y) (power b' x y) := by
  refine .of_ints power b b' (fun x y => ?_) (fun _ _ => rfl) (fun _ _ => rfl) x y
  simp only [power]
  by_cases hy : y < 0
  · rw [if_pos hy, if_pos hy]
    exact .refl _
  · rw [if_neg hy, if_neg hy]
    by_cases hw : 0 < y ∧ b ≤ powerWidth x y.toNat
    · rw [if_pos hw]
      exact .inr ⟨b, rfl⟩
    · rw [if_neg hw]
      by_cases hw' : 0 < y ∧ b' ≤ powerWidth x y.toNat
      · exact absurd ⟨hw'.1, Int.le_trans h hw'.2⟩ hw
      · rw [if_neg hw']
        exact bounded_narrowed h _

end Number

namespace Machine

/-- The same stack and output function, and ceilings that are nowhere higher. -/
structure Bounds.Within (cfg cfg' : Bounds) : Prop where
  maxSteps : cfg.maxSteps ≤ cfg'.maxSteps
  maxCallDepth : cfg.maxCallDepth ≤ cfg'.maxCallDepth
  maxIntBits : cfg.maxIntBits ≤ cfg'.maxIntBits
  maxArrayLength : cfg.maxArrayLength ≤ cfg'.maxArrayLength
  maxOutputChars : cfg.maxOutputChars ≤ cfg'.maxOutputChars
  outputFunction : cfg.outputFunction = cfg'.outputFunction
  levels : cfg.levels = cfg'.levels
  reportLevels : cfg.reportLevels = cfg'.reportLevels

def Fault.isCeiling : Fault → Bool
  | .stepLimit _ | .callDepth .. | .number (.tooWide _) | .arrayTooLong .. | .outputLimit _ => true
  | _ => false

def Fault.isUnreported : Fault → Bool
  | .unreported _ => true
  | _ => false

def Fault.isCut (f : Fault) : Bool := f.isCeiling || f.isUnreported

theorem arithmetic_narrowed {b b' : Nat} (h : b ≤ b') (op : BinaryOp) (x y : Number) :
    Number.Narrowed (Exec.arithmetic b op x y) (Exec.arithmetic b' op x y) := by
  have hb : (b : Int) ≤ b' := by omega
  have hint (n : Int) : Number.Narrowed (Number.bounded b (.int n)) (Number.bounded b' (.int n)) :=
    Number.bounded_narrowed hb (.int n)
  cases op with
  | add => exact .of_ints Number.add b b' (fun _ _ => hint _) (fun _ _ => rfl) (fun _ _ => rfl) x y
  | sub => exact .of_ints Number.sub b b' (fun _ _ => hint _) (fun _ _ => rfl) (fun _ _ => rfl) x y
  | mul => exact .of_ints Number.mul b b' (fun _ _ => hint _) (fun _ _ => rfl) (fun _ _ => rfl) x y
  | div => exact .refl _
  | mod => exact .refl _
  | _ => exact Number.power_narrowed hb x y

namespace Exec

variable {α β : Type}

def Grows (a : Exec α) : Prop := ∀ s : State, s.output.toList <+: (final a s).output.toList

theorem Grows.bind {a : Exec α} {f : α → Exec β} (h : Grows a) (hf : ∀ x, Grows (f x)) :
    Grows (a >>= f) :=
  fun s => final_bind (fun s t : State => s.output.toList <+: t.output.toList) .trans (h s) hf

theorem Quiet.grows {a : Exec α} (h : Quiet a) : Grows a := by
  intro s
  simp [(h s).output]

/-- From a state, the run that ends first ends like the other or at a ceiling, with less printed. -/
structure Cut (s : State) (x x' : EStateM.Result Fault State α) : Prop where
  grows : s.output.toList <+: (endState x').output.toList
  cut : x = x' ∨ ∃ f t, x = .error f t ∧ f.isCut = true ∧
    t.output.toList <+: (endState x').output.toList

def Truncates (a a' : Exec α) : Prop := ∀ s, Cut s (a s) (a' s)

theorem Truncates.bind {a a' : Exec α} {f f' : α → Exec β} (h : Truncates a a')
    (hf : ∀ x, Truncates (f x) (f' x)) : Truncates (a >>= f) (a' >>= f') := by
  intro s
  have hg : Grows (a' >>= f') := Grows.bind (fun s => (h s).grows) fun x s => (hf x s).grows
  refine ⟨hg s, ?_⟩
  rcases (h s).cut with he | ⟨e, t, ha, hc, ht⟩
  · cases ha : a s with
    | error e t =>
      rw [bind_of_error ha, bind_of_error (he ▸ ha)]
      exact .inl rfl
    | ok x t =>
      rw [bind_of_ok ha, bind_of_ok (he ▸ ha)]
      exact (hf x t).cut
  -- The first run has stopped; the other goes on, and prints at most more.
  · refine .inr ⟨e, t, bind_of_error ha f, hc, ht.trans ?_⟩
    cases ha' : a' s with
    | error e' t' =>
      rw [bind_of_error ha' f']
      exact List.prefix_refl _
    | ok x t' =>
      rw [bind_of_ok ha' f']
      exact (hf x t').grows

theorem Truncates.of_quiet {a : Exec α} (h : Quiet a) : Truncates a a :=
  fun s => ⟨h.grows s, .inl rfl⟩

/-- Quiet actions print nothing, so it is enough that they end alike or at a ceiling. -/
theorem Truncates.of_ceiling {a a' : Exec α} (h : Quiet a) (h' : Quiet a')
    (hc : ∀ s, a s = a' s ∨ ∃ f t, a s = .error f t ∧ f.isCut = true) : Truncates a a' := by
  intro s
  refine ⟨h'.grows s, ?_⟩
  rcases hc s with he | ⟨f, t, ha, hf⟩
  · exact .inl he
  · refine .inr ⟨f, t, ha, hf, ?_⟩
    have ht := (h s).output
    rw [final_of_error ha] at ht
    rw [ht]
    exact h'.grows s

theorem truncates_pure (x : α) : Truncates (pure x) (pure x) := .of_quiet (quiet_pure x)

theorem truncates_throw (f : Fault) : Truncates (throw f : Exec α) (throw f) :=
  .of_quiet (quiet_throw f)

theorem truncates_modify {f : State → State} (h : ∀ s, (f s).output = s.output) :
    Truncates (modify f : Exec Unit) (modify f) := by
  intro s
  have hg : s.output.toList <+: (f s).output.toList := by simp [h s]
  exact ⟨hg, .inl rfl⟩

theorem stopAt_isCut (cfg : Bounds) (k : Nat) (r : Record) {f : Fault} (hf : f.isCut = true)
    (s : State) : ∃ g t, stopAt cfg k r f s = .error g t ∧ g.isCut = true := by
  rcases stopAt_cases cfg k r f s with h | ⟨-, h⟩
  · exact ⟨_, _, h, hf⟩
  · exact ⟨_, _, h, rfl⟩

theorem truncates_tick {cfg cfg' : Bounds} (hc : cfg.Within cfg') (k : Nat) :
    Truncates (tick cfg k) (tick cfg' k) := by
  refine .of_ceiling (quiet_tick cfg k) (quiet_tick cfg' k) fun s => ?_
  rcases Nat.lt_or_ge cfg.maxSteps (s.steps + 1) with h | h
  · rw [tick_of_lt h]
    exact .inr (stopAt_isCut cfg k _ rfl _)
  · rw [tick_of_le h, tick_of_le (Nat.le_trans h hc.maxSteps)]
    exact .inl rfl

theorem truncates_print {cfg cfg' : Bounds} (hc : cfg.Within cfg') (line : List Char) :
    Truncates (print cfg line) (print cfg' line) := by
  have hg : Grows (print cfg' line) := by
    intro s
    rcases Nat.lt_or_ge cfg'.maxOutputChars (s.outputChars + line.length) with h | h
    · simp [final_of_error (print_of_lt h)]
    · rw [final_of_ok (print_of_le h), Array.toList_push]
      exact List.prefix_append _ _
  intro s
  refine ⟨hg s, ?_⟩
  rcases Nat.lt_or_ge cfg.maxOutputChars (s.outputChars + line.length) with h | h
  · exact .inr ⟨_, _, print_of_lt h, rfl, hg s⟩
  · rw [print_of_le h, print_of_le (Nat.le_trans h hc.maxOutputChars)]
    exact .inl rfl

theorem truncates_binary {cfg cfg' : Bounds} (hc : cfg.Within cfg') (op : BinaryOp) (v w : Value) :
    Truncates (binary cfg op v w) (binary cfg' op v w) := by
  have harith (a b : Number) : Truncates (liftNumber (arithmetic cfg.maxIntBits op a b))
      (liftNumber (arithmetic cfg'.maxIntBits op a b)) := by
    refine .of_ceiling (quiet_liftNumber _) (quiet_liftNumber _) fun s => ?_
    rcases arithmetic_narrowed hc.maxIntBits op a b with he | ⟨bits, he⟩
    · rw [he]
      exact .inl rfl
    · rw [he]
      exact .inr ⟨_, s, rfl, rfl⟩
  unfold binary
  split
  · cases v with
    | number a o =>
      cases w with
      | number b o' => exact (harith a b).bind fun n => .of_quiet (quiet_computed n)
      | _ => exact truncates_throw _
    | _ => exact truncates_throw _
  · exact .of_quiet (quiet_get.bind fun s => (quiet_lift _).bind fun b => quiet_pure _)

theorem truncates_filledArray {cfg cfg' : Bounds} (hc : cfg.Within cfg') (x : String) (length : Int)
    (items : List Value) :
    Truncates (Runner.filledArray cfg x length items) (Runner.filledArray cfg' x length items) := by
  refine .of_ceiling (quiet_filledArray cfg x length items)
    (quiet_filledArray cfg' x length items) fun s => ?_
  unfold Runner.filledArray
  by_cases h : (cfg.maxArrayLength : Int) < length
  · rw [if_pos h]
    exact .inr ⟨_, s, rfl, rfl⟩
  · have hle := hc.maxArrayLength
    rw [if_neg h, if_neg (show ¬ (cfg'.maxArrayLength : Int) < length by omega)]
    exact .inl rfl

theorem truncates_repeatUpTo {cfg cfg' : Bounds} {a a' : Exec Bool} (h : Truncates a a')
    {n n' : Nat} (hn : n ≤ n') : Truncates (repeatUpTo cfg a n) (repeatUpTo cfg' a' n') := by
  have hg : ∀ k, Grows (repeatUpTo cfg' a' k) := by
    intro k
    induction k with
    | zero => exact (quiet_throw _).grows
    | succ k ih =>
      refine Grows.bind (fun s => (h s).grows) fun goesOn => ?_
      cases goesOn with
      | true => exact ih
      | false => exact (quiet_pure ()).grows
  -- A loop that runs out of rounds has met the lower ceiling, whatever the other does then.
  induction n generalizing n' with
  | zero => exact fun s => ⟨hg n' s, .inr ⟨_, s, rfl, rfl, hg n' s⟩⟩
  | succ n ih =>
    cases n' with
    | zero => omega
    | succ n' =>
      refine h.bind fun goesOn => ?_
      cases goesOn with
      | true => exact ih (by omega)
      | false => exact truncates_pure ()

theorem truncates_andThen {a a' : Exec α} (h : Truncates a a') (after : State → State)
    (ho : ∀ s, (after s).output = s.output) : Truncates (andThen a after) (andThen a' after) := by
  intro s
  have hstate : endState (andThen a' after s) = after (endState (a' s)) := by
    unfold andThen
    cases a' s <;> rfl
  refine ⟨by rw [hstate, ho]; exact (h s).grows, ?_⟩
  rcases (h s).cut with he | ⟨f, t, ha, hf, ht⟩
  · unfold andThen
    rw [he]
    exact .inl rfl
  · refine .inr ⟨f, after t, ?_, hf, by rw [hstate, ho, ho]; exact ht⟩
    unfold andThen
    rw [ha]

end Exec

open Exec

theorem truncates_checkDepth {cfg cfg' : Bounds} (hc : cfg.Within cfg') (k : Nat) (f : String) :
    Truncates (Runner.checkDepth cfg k f) (Runner.checkDepth cfg' k f) := by
  refine .of_ceiling (quiet_checkDepth cfg k f) (quiet_checkDepth cfg' k f) fun s => ?_
  rcases Nat.lt_or_ge cfg.maxCallDepth s.stack.length with h | h
  · rw [checkDepth_of_lt h]
    exact .inr (stopAt_isCut cfg k _ rfl _)
  · rw [checkDepth_of_le h, checkDepth_of_le (Nat.le_trans h hc.maxCallDepth)]
    exact .inl rfl

theorem truncates_enter {r r' : Runner} (f : String) (fn : Function) (vs : List Value)
    (hb : Truncates (r.exec (.block fn.body)) (r'.exec (.block fn.body))) :
    Truncates (r.enter f fn vs) (r'.enter f fn vs) := by
  intro s
  have hbody : Truncates (r.body fn) (r'.body fn) :=
    hb.bind fun _ => .of_quiet (quiet_get.bind fun t => quiet_pure (t.returnValue.getD (.int 0)))
  have hcut := truncates_andThen hbody (State.leave f s.returnValue) (fun _ => rfl)
    (s.enter f fn vs)
  exact ⟨hcut.grows, hcut.cut⟩

theorem truncates_runs {cfg cfg' : Bounds} (hc : cfg.Within cfg') :
    RunCongruence cfg cfg' Eq fun _ _ a b => Truncates a b where
  quiet := .of_quiet
  bind := .bind
  tick := by
    rintro - k _ rfl
    exact truncates_tick hc k
  noAddress := by
    rintro - k _ e rfl
    exact .of_quiet (quiet_noAddress k e)
  binary := truncates_binary hc
  filledArray := truncates_filledArray hc
  write := fun _ _ => truncates_modify fun _ => rfl
  outputFunction := hc.outputFunction
  print := truncates_print hc
  checkDepth := by
    rintro - k _ f rfl
    exact truncates_checkDepth hc k f
  control := fun hf => truncates_modify fun s => congrArg Memory.output (hf s)
  define := fun _ _ => truncates_modify fun _ => rfl
  loop := fun ha => truncates_repeatUpTo ha (Nat.succ_le_succ hc.maxSteps)
  enter := fun f fn vs hx => truncates_enter f fn vs (hx.exec (.block fn.body) (List.Subset.refl _))

theorem output_execute (cfg : Bounds) (t : Tree) :
    (execute cfg t).state.output =
      (endState (runTree cfg (runner cfg cfg.levels) t .initial)).output := by
  cases h : runTree cfg (runner cfg cfg.levels) t .initial with
  | ok _ s => rw [execute_of_ok h, endState]
  | error f s =>
    rw [execute_of_error h, endState]
    cases f.isUnexpected <;> rfl

/-- A run under lower ceilings is the run under the higher ones or is cut short, and what it prints
is the beginning of what the other prints. -/
theorem execute_cut {cfg cfg' : Bounds} (hc : cfg.Within cfg') (t : Tree) :
    (execute cfg t = execute cfg' t ∨ ∃ f, (execute cfg t).fault = some f ∧ f.isCut = true) ∧
      (execute cfg t).result.output <+: (execute cfg' t).result.output := by
  have hruns := (truncates_runs hc).runner cfg.levels
  have hcut := (truncates_runs hc).runTree hruns (List.Subset.refl t.writes) .initial
  rw [hc.levels] at hcut
  have houtput : (execute cfg t).state.output =
      (endState (runTree cfg (runner cfg cfg'.levels) t .initial)).output := by
    rw [output_execute, hc.levels]
  rcases hcut.cut with he | ⟨f, s, hs, hf, hp⟩
  · have heq : execute cfg t = execute cfg' t := by rw [execute, execute, hc.levels, he]
    rw [heq]
    exact ⟨.inl rfl, List.prefix_refl _⟩
  · have hfault : (execute cfg t).fault = some f := by
      rw [← hc.levels] at hs
      rw [execute_of_error hs]
    refine ⟨.inr ⟨f, hfault, hf⟩, ?_⟩
    change (execute cfg t).state.output.toList <+: (execute cfg' t).state.output.toList
    rw [houtput, output_execute, hs]
    exact hp

end Machine

end MiniC

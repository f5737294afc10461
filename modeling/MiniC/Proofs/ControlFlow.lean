import MiniC.Proofs.Congruence

/-! The flags of the machine carry out structured control flow. A completion is shown in the state
by at most one of the return slot and the two flags, and the next statement or expression is run
only when none of them is set. Main statement: a program runs on the machine as it does by
completions. -/

namespace MiniC.Machine

def PlainFunctions (fs : List (String × Function)) : Prop := ∀ p ∈ fs, Stmt.allPlain p.2.body = true

theorem PlainFunctions.of_lookup {fs : List (String × Function)} (h : PlainFunctions fs)
    {f : String} {fn : Function} (hf : fs.lookup f = some fn) : Stmt.allPlain fn.body = true := by
  obtain ⟨l₁, l₂, rfl, -⟩ := List.lookup_eq_some_iff.1 hf
  exact h (f, fn) (by simp)

theorem PlainFunctions.define {s : State} (h : PlainFunctions s.functions) {name : String}
    {fn : Function} (hb : Stmt.allPlain fn.body = true) :
    PlainFunctions (s.define name fn).functions := by
  intro p hp
  rcases List.mem_cons.1 hp with rfl | hp
  · exact hb
  · exact h p (List.mem_filter.1 hp).1

structure State.Ready (s : State) : Prop where
  returnValue : s.returnValue = none
  breaking : s.breaking = false
  continuing : s.continuing = false
  functions : PlainFunctions s.functions

theorem State.Undisturbed.ready {s t : State} (h : s.Undisturbed t) (hs : s.Ready) : t.Ready where
  returnValue := h.returnValue.trans hs.returnValue
  breaking := h.breaking.trans hs.breaking
  continuing := h.continuing.trans hs.continuing
  functions := by rw [h.functions]; exact hs.functions

section Alike

variable {α β : Type}

/-- From a state where nothing is on its way two actions end alike, and in such a state. -/
def Alike (a b : Exec α) : Prop := ∀ s : State, s.Ready → a s = b s ∧ (Exec.final a s).Ready

theorem Alike.bind {a a' : Exec α} {f f' : α → Exec β} (h : Alike a a')
    (hf : ∀ x, Alike (f x) (f' x)) :
    Alike (a >>= f) (a' >>= f') := by
  intro s hs
  obtain ⟨he, hr⟩ := h s hs
  cases ha : a s with
  | ok x t =>
    rw [Exec.final_of_ok ha] at hr
    have hb := Exec.bind_of_ok ha f
    rw [hb, Exec.bind_of_ok (he ▸ ha) f', Exec.final, hb]
    exact hf x t hr
  | error e t =>
    rw [Exec.final_of_error ha] at hr
    rw [Exec.bind_of_error ha f, Exec.bind_of_error (he ▸ ha) f',
      Exec.final_of_error (Exec.bind_of_error ha f)]
    exact ⟨rfl, hr⟩

theorem Alike.of_quiet {a : Exec α} (h : Exec.Quiet a) : Alike a a :=
  fun s hs => ⟨rfl, (h s).ready hs⟩

theorem alike_pure (x : α) : Alike (pure x) (pure x) := .of_quiet (Exec.quiet_pure x)

theorem alike_get : Alike (get : Exec State) get := .of_quiet Exec.quiet_get

theorem alike_bind (x : String) (v : Value) : Alike (Exec.bind x v) (Exec.bind x v) :=
  fun _ h => ⟨rfl, h.returnValue, h.breaking, h.continuing, h.functions⟩

theorem alike_define {name : String} {fn : Function} (hb : Stmt.allPlain fn.body = true) :
    Alike (modify (·.define name fn)) (modify (·.define name fn)) :=
  fun _ h => ⟨rfl, h.returnValue, h.breaking, h.continuing, h.functions.define hb⟩

theorem alike_print (cfg : Bounds) (line : List Char) :
    Alike (Exec.print cfg line) (Exec.print cfg line) := by
  intro s hs
  refine ⟨rfl, ?_⟩
  rcases Nat.lt_or_ge cfg.maxOutputChars (s.outputChars + line.length) with h | h
  · rw [Exec.final_of_error (Exec.print_of_lt h)]
    exact ⟨hs.returnValue, hs.breaking, hs.continuing, hs.functions⟩
  · rw [Exec.final_of_ok (Exec.print_of_le h)]
    exact ⟨hs.returnValue, hs.breaking, hs.continuing, hs.functions⟩

end Alike

theorem alike_congruence (cfg : Bounds) : Congruence cfg cfg Eq fun _ _ a b => Alike a b where
  quiet := .of_quiet
  bind := .bind
  tick := by
    rintro - k _ rfl
    exact .of_quiet (Exec.quiet_tick cfg k)
  noAddress := by
    rintro - k _ e rfl
    exact .of_quiet (Exec.quiet_noAddress k e)
  binary := fun op v w => .of_quiet (Exec.quiet_binary cfg op v w)
  filledArray := fun x length items => .of_quiet (Exec.quiet_filledArray cfg x length items)
  write := fun {_ x} v _ => alike_bind x v

namespace Structured

theorem ready_state {m : Memory} (h : PlainFunctions m.functions) : m.state.Ready :=
  ⟨rfl, rfl, rfl, h⟩

theorem state_memory {s : State} (h : s.Ready) : s.memory.state = s := by
  obtain ⟨frames, stack, functions, arrays, output, outputChars, r, b, c, steps, fresh, journal⟩ :=
    s
  obtain ⟨rfl, rfl, rfl, -⟩ := h
  rfl

def Completion.shown (m : Memory) : Completion → State
  | normal => m.state
  | breaking => { m.state with breaking := true }
  | continuing => { m.state with continuing := true }
  | returning v => { m.state with returnValue := some v }

section Matches

variable {α β γ δ : Type}

/-- The machine ends as a structured run does, whose value and memory it shows as `view` says. -/
def Matches (view : β → Memory → α × State) (x : EStateM.Result Fault State α) :
    EStateM.Result Fault Memory β → Prop
  | .ok y m => PlainFunctions m.functions ∧ x = .ok (view y m).1 (view y m).2
  | .error f m => PlainFunctions m.functions ∧ x = .error f m.state

theorem Matches.bind {view : β → Memory → α × State} {view' : δ → Memory → γ × State} {a : Exec α}
    {b : Action β} {f : α → Exec γ} {g : β → Action δ} {s : State} {m : Memory}
    (h : Matches view (a s) (b m))
    (hf : ∀ y m', PlainFunctions m'.functions →
    Matches view' (f (view y m').1 (view y m').2) (g y m')) :
    Matches view' ((a >>= f) s) ((b >>= g) m) := by
  cases hb : b m with
  | ok y m' =>
    rw [hb] at h
    rw [Exec.bind_of_ok h.2, Exec.bind_of_ok hb]
    exact hf y m' h.1
  | error e m' =>
    rw [hb] at h
    rw [Exec.bind_of_error h.2, Exec.bind_of_error hb]
    exact ⟨h.1, rfl⟩

def asIs (x : α) (m : Memory) : α × State := (x, m.state)

def completed (c : Completion) (m : Memory) : Unit × State := ((), c.shown m)

def Tracks (a : Exec α) (b : Action α) : Prop :=
  ∀ m : Memory, PlainFunctions m.functions → Matches asIs (a m.state) (b m)

theorem Tracks.bind {a : Exec α} {b : Action α} {f : α → Exec β} {g : α → Action β} (h : Tracks a b)
    (hf : ∀ x, Tracks (f x) (g x)) : Tracks (a >>= f) (b >>= g) :=
  fun m hm => (h m hm).bind fun x m' hm' => hf x m' hm'

theorem tracks_pure (x : α) : Tracks (pure x) (pure x) := fun _ hm => ⟨hm, rfl⟩

theorem tracks_throw (f : Fault) : Tracks (throw f : Exec α) (throw f) := fun _ hm => ⟨hm, rfl⟩

theorem tracks_get {f : State → Exec α} {g : Memory → Action α}
    (h : ∀ m : Memory, PlainFunctions m.functions → Matches asIs (f m.state m.state) (g m m)) :
    Tracks (get >>= f) (get >>= g) := h

theorem tracks_of_alike {a a' : Exec α} (h : Alike a a') : Tracks a (plain a') := by
  intro m hm
  obtain ⟨he, hr⟩ := h m.state (ready_state hm)
  unfold plain
  cases ha : a m.state with
  | ok x s =>
    rw [Exec.final_of_ok ha] at hr
    rw [← he, ha]
    exact ⟨hr.functions, by rw [asIs, state_memory hr]⟩
  | error f s =>
    rw [Exec.final_of_error ha] at hr
    rw [← he, ha]
    exact ⟨hr.functions, by rw [state_memory hr]⟩

theorem tracks_plain {a : Exec α} (h : Exec.Quiet a) : Tracks a (plain a) :=
  tracks_of_alike (.of_quiet h)

theorem Tracks.completes {a : Exec Unit} {b : Action Unit} (h : Tracks a b) {m : Memory}
    (hm : PlainFunctions m.functions) :
    Matches completed (a m.state) ((do b; return .normal : Action Completion) m) := by
  have hx := h m hm
  cases hb : b m with
  | ok x m' =>
    rw [hb] at hx
    rw [Exec.bind_of_ok hb]
    exact hx
  | error f m' =>
    rw [hb] at hx
    rw [Exec.bind_of_error hb]
    exact hx

theorem alike_embed {a : Exec α} {b : Action α} (h : Tracks a b) : Alike a (embed b) := by
  intro s hs
  have hm := h s.memory hs.functions
  rw [state_memory hs] at hm
  unfold embed
  cases hb : b s.memory with
  | ok x m =>
    rw [hb] at hm
    exact ⟨hm.2, by rw [Exec.final_of_ok hm.2]; exact ready_state hm.1⟩
  | error f m =>
    rw [hb] at hm
    exact ⟨hm.2, by rw [Exec.final_of_error hm.2]; exact ready_state hm.1⟩

end Matches

/-- A runner of the machine and a structured one run the parts of a tree alike. -/
structure Agrees (r : Machine.Runner) (R : Runner) : Prop where
  eval : ∀ e, Tracks (r.eval e) (R.eval e)
  exec : ∀ s, s.plainHeaders = true → ∀ m : Memory, PlainFunctions m.functions →
    Matches completed (r.exec s m.state) (R.exec s m)
  -- what may stand in a loop header ends normally
  header : ∀ s, s.isHeader = true → ∀ m c m', R.exec s m = .ok c m' → c = .normal
  levels : r.levels = R.levels

section Agreement

variable {r : Machine.Runner} {R : Runner} (h : Agrees r R)
include h

theorem Agrees.parts : Evaluates Eq (fun _ _ a b => Alike a b) r R.parts where
  eval e _ := alike_embed (h.eval e)
  levels := h.levels

/-! Statements in sequence: what follows a statement that does not end normally is passed over. -/

omit h in
theorem sequence_interrupted {s : State} (hs : s.isInterrupted = true) (ss : List Stmt) :
    r.sequence ss s = .ok () s := by
  cases ss with
  | nil => rfl
  | cons t ts =>
    have hi : Exec.isInterrupted s = .ok true s := by
      change EStateM.Result.ok s.isInterrupted s = _
      rw [hs]
    unfold Machine.Runner.sequence
    rw [Exec.bind_of_ok hi]
    rfl

theorem sequence_matches {ss : List Stmt} (hp : Stmt.allPlain ss = true) {m : Memory}
    (hm : PlainFunctions m.functions) :
    Matches completed (r.sequence ss m.state) (R.sequence ss m) := by
  induction ss generalizing m with
  | nil => exact ⟨hm, rfl⟩
  | cons s ss ih =>
    obtain ⟨hs, hss⟩ : s.plainHeaders = true ∧ Stmt.allPlain ss = true := by
      simpa [Stmt.allPlain] using hp
    have hi : Exec.isInterrupted m.state = .ok false m.state := rfl
    unfold Machine.Runner.sequence Runner.sequence
    rw [Exec.bind_of_ok hi]
    refine (h.exec s hs m hm).bind fun c m' hm' => ?_
    cases c with
    | normal => exact ih hss hm'
    | breaking => exact ⟨hm', sequence_interrupted rfl ss⟩
    | continuing => exact ⟨hm', sequence_interrupted rfl ss⟩
    | returning v => exact ⟨hm', sequence_interrupted rfl ss⟩

/-! Calls: the frame is left whether the body completes or faults, with nothing on its way. -/

theorem enter_tracks {fn : Function} (hb : Stmt.allPlain fn.body = true) (f : String)
    (vs : List Value) :
    Tracks (r.enter f fn vs) (R.enter f fn vs) := by
  intro m hm
  let m₁ : Memory := ((m.state.pushFrame ⟨f, bindParams fn.params vs []⟩).record
    (.calling f m.stack.length)).memory
  have hx := h.exec (.block fn.body) (by simpa [Stmt.plainHeaders] using hb) m₁ hm
  have hr : r.enter f fn vs m.state = Exec.andThen (r.body fn) (State.leave f none) m₁.state := rfl
  have hR : R.enter f fn vs m = andLeave f (Completion.result <$> R.exec (.block fn.body)) m₁ := rfl
  rw [hr, hR]
  unfold Exec.andThen andLeave Machine.Runner.body
  rw [Exec.map_eq_bind]
  cases hc : R.exec (.block fn.body) m₁ with
  | ok c m₂ =>
    rw [hc] at hx
    rw [Exec.bind_of_ok hx.2, Exec.bind_of_ok hc]
    refine ⟨hx.1, ?_⟩
    -- Leaving takes a value that is returned and drops what else is on its way.
    cases c <;> rfl
  | error e m₂ =>
    rw [hc] at hx
    rw [Exec.bind_of_error hx.2, Exec.bind_of_error hc]
    exact ⟨hx.1, rfl⟩

theorem call_tracks (cfg : Bounds) (f : String) (args : List Expr) :
    Tracks (r.call cfg f args) (R.call cfg f args) := by
  have hall := (alike_congruence cfg).evalAll h.parts (List.Subset.refl (Expr.listWrites args))
  unfold Machine.Runner.call Runner.call
  rw [← h.levels]
  by_cases ho : f = cfg.outputFunction
  · rw [if_pos ho, if_pos ho]
    refine tracks_of_alike (hall.bind fun vs => alike_get.bind fun s => ?_)
    refine (Alike.of_quiet (Exec.quiet_lift _)).bind fun line => ?_
    exact (alike_print cfg line).bind fun _ => alike_pure _
  · rw [if_neg ho, if_neg ho]
    refine tracks_get fun m hm => ?_
    cases hf : m.state.function? f with
    | none => exact tracks_throw _ m hm
    | some fn =>
      have hb : Stmt.allPlain fn.body = true := hm.of_lookup hf
      have hcheck := tracks_plain (Exec.quiet_checkDepth cfg r.levels f)
      exact (tracks_of_alike hall).bind (fun vs => hcheck.bind fun _ => enter_tracks h hb f vs) m hm

theorem evalStep_tracks (cfg : Bounds) (e : Expr) :
    Tracks (r.evalStep cfg e) (R.evalStep cfg e) := by
  cases e with
  | call f args =>
    have htick := tracks_plain (Exec.quiet_tick cfg r.levels)
    change Tracks _ (plain (Exec.tick cfg R.levels) >>= fun _ => R.call cfg f args)
    rw [← h.levels]
    exact htick.bind fun _ => call_tracks h cfg f args
  | _ =>
    exact tracks_of_alike ((alike_congruence cfg).evalStep h.parts (List.Subset.refl _) (by simp))

/-! Loops: a round shows the machine whether the loop goes on, and how it ended if not. -/

omit h in
def rounded : Option Completion → Memory → Bool × State
  | none, m => (true, m.state)
  | some c, m => (false, c.shown m)

omit h in
theorem repeatUpTo_matches (cfg : Bounds) {a : Exec Bool} {b : Action (Option Completion)}
    (hr : ∀ m : Memory, PlainFunctions m.functions → Matches rounded (a m.state) (b m)) (n : Nat)
    {m : Memory} (hm : PlainFunctions m.functions) :
    Matches completed (Exec.repeatUpTo cfg a n m.state) (repeatUpTo cfg b n m) := by
  induction n generalizing m with
  | zero => exact ⟨hm, rfl⟩
  | succ n ih =>
    refine (hr m hm).bind fun o m' hm' => ?_
    cases o with
    | none => exact ih hm'
    | some c => exact ⟨hm', rfl⟩

theorem holds_tracks (condition : Option Expr) :
    Tracks (r.holds condition) (R.holds condition) := by
  cases condition with
  | none => exact tracks_pure true
  | some c => exact (h.eval c).bind fun v => tracks_pure v.isTrue

theorem header_matches {header : Option Stmt} (hh : header.all Stmt.isHeader = true)
    (hp : Stmt.optionPlain header = true) {m : Memory} (hm : PlainFunctions m.functions) :
    Matches (fun (_ : Completion) m => ((), m.state)) (r.optional header m.state)
      (R.optional header m) := by
  cases header with
  | none => exact ⟨hm, rfl⟩
  | some s =>
    have hx := h.exec s hp m hm
    change Matches _ (r.exec s m.state) (R.exec s m)
    cases hc : R.exec s m with
    | ok c m' =>
      rw [hc, h.header s hh m c m' hc] at hx
      exact hx
    | error f m' =>
      rw [hc] at hx
      exact hx

theorem round_matches (condition : Option Expr) {body : Stmt} (hb : body.plainHeaders = true)
    {step : Option Stmt} (hh : step.all Stmt.isHeader = true) (hp : Stmt.optionPlain step = true)
    {m : Memory} (hm : PlainFunctions m.functions) :
    Matches rounded (r.round condition body step m.state) (R.round condition body step m) := by
  refine (holds_tracks h condition m hm).bind fun holds m' hm' => ?_
  cases holds with
  | false => exact ⟨hm', rfl⟩
  | true =>
    refine (h.exec body hb m' hm').bind fun c m'' hm'' => ?_
    have hgo : Matches rounded ((r.optional step >>= fun _ => pure true : Exec Bool) m''.state)
        ((R.optional step >>= fun _ => pure none : Action (Option Completion)) m'') :=
      (header_matches h hh hp hm'').bind fun _ m₃ hm₃ => ⟨hm₃, rfl⟩
    cases c with
    | normal => exact hgo
    | continuing => exact hgo
    | breaking => exact ⟨hm'', rfl⟩
    | returning v => exact ⟨hm'', rfl⟩

theorem doRound_matches {body : Stmt} (hb : body.plainHeaders = true) (condition : Expr)
    {m : Memory} (hm : PlainFunctions m.functions) :
    Matches rounded (r.doRound body condition m.state) (R.doRound body condition m) := by
  have htest : ∀ m' : Memory, PlainFunctions m'.functions →
      Matches rounded ((do return (← r.eval condition).isTrue : Exec Bool) m'.state)
        ((do return if (← R.eval condition).isTrue then none else some .normal :
          Action (Option Completion)) m') := by
    intro m' hm'
    refine (h.eval condition m' hm').bind fun v m'' hm'' => ⟨hm'', ?_⟩
    cases hv : v.isTrue <;> simp [asIs, hv] <;> rfl
  refine (h.exec body hb m hm).bind fun c m' hm' => ?_
  cases c with
  | normal => exact htest m' hm'
  | continuing => exact htest m' hm'
  | breaking => exact ⟨hm', rfl⟩
  | returning v => exact ⟨hm', rfl⟩

/-! Switches: the cases behind the one that matched are run as one sequence. -/

omit h in
theorem sequence_append (ss ts : List Stmt) :
    R.sequence (ss ++ ts) = (do
      match ← R.sequence ss with
      | .normal => R.sequence ts
      | c => return c) := by
  induction ss with
  | nil => rfl
  | cons s ss ih =>
    rw [List.cons_append, Runner.sequence, Runner.sequence, bind_assoc]
    refine bind_congr fun c => ?_
    cases c with
    | normal => exact ih
    | _ => rfl

omit h in
def matched (c : Completion) (m : Memory) : Bool × State := (true, c.shown m)

omit h in
def perhapsMatched : Option Completion → Memory → Bool × State
  | none, m => (false, m.state)
  | some c, m => matched c m

omit h in
theorem Matches.some {x : EStateM.Result Fault State Bool} {b : Action Completion} {m : Memory}
    (hx : Matches matched x (b m)) : Matches perhapsMatched x ((do return some (← b)) m) := by
  cases hb : b m with
  | ok c m' =>
    rw [hb] at hx
    rw [Exec.bind_of_ok hb]
    exact hx
  | error f m' =>
    rw [hb] at hx
    rw [Exec.bind_of_error hb]
    exact hx

theorem runCases_behind (test : Value) {cs : List SwitchCase} (hp : SwitchCase.allPlain cs = true)
    {m : Memory} (hm : PlainFunctions m.functions) :
    Matches matched (r.runCases test true cs m.state)
      (R.sequence (cs.flatMap SwitchCase.body) m) := by
  induction cs generalizing m with
  | nil => exact ⟨hm, rfl⟩
  | cons c cs ih =>
    obtain ⟨value, body⟩ := c
    obtain ⟨hb, hcs⟩ : Stmt.allPlain body = true ∧ SwitchCase.allPlain cs = true := by
      simpa [SwitchCase.allPlain] using hp
    rw [List.flatMap_cons, sequence_append]
    change Matches matched ((r.sequence body >>= fun _ => Exec.isInterrupted >>= fun i =>
      if i then pure true else r.runCases test true cs) m.state) _
    refine (sequence_matches h hb hm).bind fun c m' hm' => ?_
    cases c with
    | normal => exact ih hcs hm'
    | _ => exact ⟨hm', rfl⟩

theorem runCases_matches (test : Value) {cs : List SwitchCase}
    (hp : SwitchCase.allPlain cs = true) {m : Memory} (hm : PlainFunctions m.functions) :
    Matches perhapsMatched (r.runCases test false cs m.state) ((do
      match ← R.selected? test cs with
      | none => return none
      | some body => return some (← R.sequence body)) m) := by
  induction cs generalizing m with
  | nil => exact ⟨hm, rfl⟩
  | cons c cs ih =>
    obtain ⟨value, body⟩ := c
    obtain ⟨hb, hcs⟩ : Stmt.allPlain body = true ∧ SwitchCase.allPlain cs = true := by
      simpa [SwitchCase.allPlain] using hp
    have hrun : ∀ m' : Memory, PlainFunctions m'.functions → ∀ b : Bool,
        Matches perhapsMatched ((if b then r.runCases test true (.mk value body :: cs)
          else r.runCases test false cs : Exec Bool) m'.state) ((do
          match ← (if b then return some (body ++ cs.flatMap SwitchCase.body)
            else R.selected? test cs : Action (Option (List Stmt))) with
          | none => return none
          | some body => return some (← R.sequence body) : Action (Option Completion)) m') := by
      -- From the case that equals the test on all bodies are run; up to it the search goes on.
      intro m' hm' b
      cases b with
      | true => exact (runCases_behind h test hp hm').some
      | false => exact ih hcs hm'
    change Matches perhapsMatched
      (((r.eval value >>= fun v => Exec.equal v test) >>= fun b =>
        if b then r.runCases test true (.mk value body :: cs) else r.runCases test false cs)
        m.state) _
    rw [Runner.selected?, bind_assoc, bind_assoc]
    refine (h.eval value m hm).bind fun v m' hm' => ?_
    rw [bind_assoc]
    exact (tracks_plain (Exec.quiet_equal v test) m' hm').bind fun b m'' hm'' => hrun m'' hm'' b

omit h in
theorem switch_eq (test : Expr) (cases : List SwitchCase) (otherwise : Option (List Stmt)) :
    R.switch test cases otherwise = (do
      let v ← R.eval test
      let o ← (do
        match ← R.selected? v cases with
        | none => return none
        | some body => return some (← R.sequence body))
      match o with
      | none => return (← R.sequence (otherwise.getD [])).afterSwitch
      | some c => return c.afterSwitch) := by
  unfold Runner.switch
  refine bind_congr fun v => ?_
  rw [bind_assoc]
  refine bind_congr fun o => ?_
  cases o with
  | none => rw [pure_bind, Exec.map_eq_bind]; rfl
  | some body => rw [bind_assoc, Exec.map_eq_bind]; rfl

theorem switch_matches (test : Expr) {cases : List SwitchCase}
    (hp : SwitchCase.allPlain cases = true) {otherwise : Option (List Stmt)}
    (ho : Stmt.bodyPlain otherwise = true) {m : Memory} (hm : PlainFunctions m.functions) :
    Matches completed (r.switch test cases otherwise m.state)
      (R.switch test cases otherwise m) := by
  have hend : ∀ (c : Completion) (m' : Memory), PlainFunctions m'.functions →
      Matches completed ((modify fun s => { s with breaking := false } : Exec Unit) (c.shown m'))
        ((pure c.afterSwitch : Action Completion) m') := by
    intro c m' hm'
    cases c <;> exact ⟨hm', rfl⟩
  rw [switch_eq]
  refine (h.eval test m hm).bind fun v m' hm' => ?_
  refine (runCases_matches h v hp hm').bind fun o m'' hm'' => ?_
  cases o with
  | some c => exact hend c m'' hm''
  | none =>
    have hbody : Stmt.allPlain (otherwise.getD []) = true := by
      cases otherwise with
      | none => rfl
      | some ss => exact ho
    exact (sequence_matches h hbody hm'').bind fun c m₃ hm₃ => hend c m₃ hm₃

theorem execStep_matches (cfg : Bounds) {s : Stmt} (hp : s.plainHeaders = true) {m : Memory}
    (hm : PlainFunctions m.functions) :
    Matches completed (r.execStep cfg s m.state) (R.execStep cfg s m) := by
  have htick := tracks_plain (Exec.quiet_tick cfg r.levels) m hm
  unfold Runner.execStep
  rw [← h.levels]
  refine htick.bind fun _ m' hm' => ?_
  cases s with
  | expr e => exact (h.eval e m' hm').bind fun _ m'' hm'' => ⟨hm'', rfl⟩
  | declare d =>
    have hv := (alike_congruence cfg).initialValue h.parts (d := d) (List.Subset.refl _)
    exact (tracks_of_alike (hv.bind fun v => alike_bind d.name v)).completes hm'
  | assign target op value =>
    have ha :=
      (alike_congruence cfg).assign h.parts op (List.subset_append_left target.writes value.writes)
      (List.subset_append_right target.writes value.writes)
    exact (tracks_of_alike ha).completes hm'
  | function type name params body =>
    have hb : Stmt.allPlain body = true := by simpa [Stmt.plainHeaders] using hp
    have ha := Alike.of_quiet (Exec.quiet_record (.registering name params.length))
    exact (tracks_of_alike (ha.bind fun _ => alike_define hb)).completes hm'
  | block body => exact sequence_matches h (by simpa [Stmt.plainHeaders] using hp) hm'
  | branch c yes no =>
    obtain ⟨hy, hn⟩ : yes.plainHeaders = true ∧ Stmt.optionPlain no = true := by
      simpa [Stmt.plainHeaders] using hp
    refine (h.eval c m' hm').bind fun v m'' hm'' => ?_
    change Matches completed
      ((if v.isTrue then r.exec yes else r.optional no : Exec Unit) m''.state)
      ((if v.isTrue then R.exec yes else R.optional no : Action Completion) m'')
    cases v.isTrue with
    | true => exact h.exec yes hy m'' hm''
    | false =>
      cases no with
      | none => exact ⟨hm'', rfl⟩
      | some s => exact h.exec s hn m'' hm''
  | whileLoop c body =>
    have hb : body.plainHeaders = true := by simpa [Stmt.plainHeaders] using hp
    exact repeatUpTo_matches cfg (fun m₁ hm₁ => round_matches h (some c) hb rfl rfl hm₁) _ hm'
  | doLoop body c =>
    have hb : body.plainHeaders = true := by simpa [Stmt.plainHeaders] using hp
    exact repeatUpTo_matches cfg (fun m₁ hm₁ => doRound_matches h hb c hm₁) _ hm'
  | forLoop init c step body =>
    simp only [Stmt.plainHeaders, Bool.and_eq_true] at hp
    obtain ⟨⟨⟨⟨hih, hip⟩, hsh⟩, hsp⟩, hb⟩ := hp
    exact (header_matches h hih hip hm').bind fun _ m'' hm'' =>
      repeatUpTo_matches cfg (fun m₁ hm₁ => round_matches h c hb hsh hsp hm₁) _ hm''
  | switch test cases otherwise =>
    obtain ⟨hc, ho⟩ : SwitchCase.allPlain cases = true ∧ Stmt.bodyPlain otherwise = true := by
      simpa [Stmt.plainHeaders] using hp
    exact switch_matches h test hc ho hm'
  | ret value =>
    cases value with
    | none => exact ⟨hm', rfl⟩
    | some e =>
      change Matches completed _ ((Completion.returning <$> R.eval e) m')
      rw [Exec.map_eq_bind]
      exact (h.eval e m' hm').bind fun v m'' hm'' => ⟨hm'', rfl⟩
  | breakOut => exact ⟨hm', rfl⟩
  | continueOn => exact ⟨hm', rfl⟩
  | preprocessor text => exact ⟨hm', rfl⟩

end Agreement

theorem execStep_header (cfg : Bounds) (R : Runner) {s : Stmt} (hs : s.isHeader = true)
    {m m' : Memory} {c : Completion} (hc : R.execStep cfg s m = .ok c m') : c = .normal := by
  obtain ⟨_, m₁, -, hc⟩ := Exec.bind_eq_ok hc
  cases s with
  | expr e =>
    obtain ⟨_, m₂, -, hc⟩ := Exec.bind_eq_ok hc
    cases hc; rfl
  | declare d =>
    obtain ⟨_, m₂, -, hc⟩ := Exec.bind_eq_ok hc
    cases hc; rfl
  | assign target op value =>
    obtain ⟨_, m₂, -, hc⟩ := Exec.bind_eq_ok hc
    cases hc; rfl
  | function type name params body =>
    obtain ⟨_, m₂, -, hc⟩ := Exec.bind_eq_ok hc
    cases hc; rfl
  | _ => cases hs

theorem runner_agrees (cfg : Bounds) (n : Nat) : Agrees (Machine.runner cfg n) (runner cfg n) := by
  induction n with
  | zero =>
    refine ⟨fun _ => tracks_throw _, fun _ _ m hm => ⟨hm, rfl⟩, ?_, rfl⟩
    intro _ _ m c m' hc
    cases hc
  | succ n ih =>
    exact ⟨fun e => evalStep_tracks ih cfg e, fun s hs m hm => execStep_matches ih cfg hs hm,
      fun s hs m c m' hc => execStep_header cfg _ hs hc, congrArg (· + 1) ih.levels⟩

def ProgramEnds (x : EStateM.Result Fault State Unit) :
    EStateM.Result Fault Memory (Option Value) → Prop
  | .ok v m => ∃ s : State, x = .ok () s ∧ s.memory = m ∧ s.returnValue = v
  | .error f m => x = .error f m.state

theorem start_calls (cfg : Bounds) (r : Machine.Runner) {s : State}
    (hs : ((s.function? entryPoint).isSome && s.returnValue.isNone) = true) :
    Machine.start cfg r s =
      (r.call cfg entryPoint [] >>= fun v => modify fun s => { s with returnValue := some v })
      { s with breaking := false, continuing := false } := by
  change (if ((s.function? entryPoint).isSome && s.returnValue.isNone) = true then _
    else _ : Exec Unit) s = _
  rw [if_pos hs]
  rfl

theorem start_stays (cfg : Bounds) (r : Machine.Runner) {s : State}
    (hs : ((s.function? entryPoint).isSome && s.returnValue.isNone) = false) :
    Machine.start cfg r s = .ok () s := by
  change (if ((s.function? entryPoint).isSome && s.returnValue.isNone) = true then _
    else _ : Exec Unit) s = _
  rw [if_neg (by rw [hs]; exact Bool.false_ne_true)]
  rfl

theorem start_ends (cfg : Bounds) {r : Machine.Runner} {R : Runner} (h : Agrees r R) {s : State}
    (hr : s.returnValue = none) (hm : PlainFunctions s.functions) :
    ProgramEnds (Machine.start cfg r s) (start cfg R s.memory) := by
  change ProgramEnds _ ((if (s.function? entryPoint).isSome = true then _
    else _ : Action (Option Value)) s.memory)
  by_cases hf : (s.function? entryPoint).isSome = true
  · have hset : { s with breaking := false, continuing := false } = s.memory.state := by
      obtain ⟨⟩ := s
      cases hr
      rfl
    rw [if_pos hf, start_calls cfg r (by simp [hf, hr]), hset]
    have hcall := call_tracks h cfg entryPoint [] s.memory hm
    cases hv : R.call cfg entryPoint [] s.memory with
    | ok v m' =>
      rw [hv] at hcall
      rw [Exec.bind_of_ok hcall.2, Exec.bind_of_ok hv]
      exact ⟨_, rfl, rfl, rfl⟩
    | error f m' =>
      rw [hv] at hcall
      rw [Exec.bind_of_error hcall.2, Exec.bind_of_error hv]
      rfl
  · rw [if_neg hf, start_stays cfg r (by simp [hf])]
    exact ⟨s, rfl, rfl, hr⟩

theorem program_ends (cfg : Bounds) {r : Machine.Runner} {R : Runner} (h : Agrees r R)
    {body : List Stmt} (hp : Stmt.allPlain body = true) {m : Memory}
    (hm : PlainFunctions m.functions) :
    ProgramEnds (runTree cfg r (.program body) m.state) (program cfg R body m) := by
  have hs := sequence_matches h hp hm
  change ProgramEnds ((r.sequence body >>= fun _ => Machine.start cfg r) m.state) _
  unfold program
  cases hc : R.sequence body m with
  | error f m' =>
    rw [hc] at hs
    rw [Exec.bind_of_error hs.2, Exec.bind_of_error hc]
    rfl
  | ok c m' =>
    rw [hc] at hs
    rw [Exec.bind_of_ok hs.2, Exec.bind_of_ok hc]
    cases c with
    | returning v =>
      have hr : (Completion.shown m' (.returning v)).returnValue = some v := rfl
      exact ⟨_, start_stays cfg r (by simp [completed, hr]), rfl, rfl⟩
    | normal => exact start_ends cfg h rfl hs.1
    | breaking => exact start_ends cfg h rfl hs.1
    | continuing => exact start_ends cfg h rfl hs.1

end Structured

/-! What is reported of a run does not depend on its flags. -/

theorem State.picture_congr {s t : State} (h : s.arrays = t.arrays) (n : Nat) :
    ∀ path v, s.picture n path v = t.picture n path v := by
  induction n with
  | zero =>
    intro path v
    cases v <;> rfl
  | succ n ih =>
    intro path v
    cases v with
    | array ref =>
      have he : s.elements ref = t.elements ref := by rw [State.elements, State.elements, h]
      simp only [State.picture, he, funext (ih (ref :: path))]
    | _ => rfl

theorem Outcome.result_congr {s t : State} (hm : s.memory = t.memory)
    (hr : s.returnValue = t.returnValue) (f : Option Fault) :
    Outcome.result ⟨s, f⟩ = Outcome.result ⟨t, f⟩ := by
  have harr : s.arrays = t.arrays := congrArg Memory.arrays hm
  have hframes : s.frames = t.frames := congrArg Memory.frames hm
  have hout : s.output = t.output := congrArg Memory.output hm
  have hpic : s.picture = t.picture := by
    funext n path v
    exact State.picture_congr harr n path v
  have hglobal : (Outcome.mk s f).global = (Outcome.mk t f).global := by
    funext v
    cases v <;> simp only [Outcome.global, Outcome.levels, State.elements, harr, hpic]
  simp only [Outcome.result, Outcome.returnValue, Outcome.globals, Outcome.levels, State.bindingsOf,
    harr, hframes, hout, hpic, hr, hglobal]

namespace Structured

/-- Programs run on the machine as they do by completions: with the same output, value returned,
globals and fault, and in as many steps. -/
theorem execute_program_eq_structured (cfg : Bounds) (body : List Stmt)
    (hp : Stmt.allPlain body = true) :
    (Machine.execute cfg (.program body)).result = (execute cfg body).result ∧
      (Machine.execute cfg (.program body)).state.steps = (execute cfg body).memory.steps := by
  have hends := program_ends cfg (runner_agrees cfg cfg.levels) hp (m := .initial)
    (by intro p hp; cases hp)
  change ProgramEnds
    (runTree cfg (Machine.runner cfg cfg.levels) (.program body) State.initial) _ at hends
  cases hx : program cfg (runner cfg cfg.levels) body .initial with
  | ok v m =>
    rw [hx] at hends
    obtain ⟨s, hs, rfl, rfl⟩ := hends
    have he : execute cfg body = ⟨s.memory, s.returnValue, none⟩ := by rw [execute, hx]
    rw [execute_of_ok hs, he]
    refine ⟨Outcome.result_congr ?_ ?_ none, rfl⟩ <;> rfl
  | error f m =>
    rw [hx] at hends
    have he : execute cfg body =
        ⟨if f.isUnexpected then (m.state.record .unexpectedFault).memory else m, none, some f⟩ := by
      rw [execute, hx]
    rw [execute_of_error hends, he]
    cases f.isUnexpected with
    | true => refine ⟨Outcome.result_congr ?_ ?_ (some f), rfl⟩ <;> rfl
    | false => refine ⟨Outcome.result_congr ?_ ?_ (some f), rfl⟩ <;> rfl

def switchedLoop : List Stmt :=
  [.forLoop (some (.assign (.name "i") .set (.number (.int 0) 0)))
    (some (.binary .lt (.name "i") (.number (.int 5) 1))) (some (.expr (.update .inc "i" false)))
    (.switch (.name "i")
      [.mk (.number (.int 0) 2) [.continueOn], .mk (.number (.int 1) 3) [.breakOut]]
      (some [.ret (some (.name "i"))]))]

theorem execute_switchedLoop : Stmt.allPlain switchedLoop = true ∧
    (Machine.execute {} (.program switchedLoop)).result = (execute {} switchedLoop).result ∧
    (Machine.execute {} (.program switchedLoop)).state.steps =
      (execute {} switchedLoop).memory.steps :=
  ⟨rfl, execute_program_eq_structured {} switchedLoop rfl⟩

end Structured

end MiniC.Machine

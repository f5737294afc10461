import MiniC.Machine

/-! A second account of running a program, in which control flow has structure. Executing a
statement ends with a completion: it is normal, breaks, continues, or returns a value, and what
stands around it takes the completion or passes it on. The memory of such a run holds no pending
return and no flags. Whatever has no part in control flow (numbers, variables, arrays, printing, the
count of steps) is done as the machine does it. -/

namespace MiniC

def Stmt.isHeader : Stmt → Bool
  | .declare _ | .function .. | .assign .. | .expr _ => true
  | _ => false

mutual

/-- Whether the loops of a statement, and of the functions defined in it, have in their headers only
declarations, functions, assignments and expressions. -/
def Stmt.plainHeaders : Stmt → Bool
  | .function _ _ _ body | .block body => Stmt.allPlain body
  | .branch _ yes no => yes.plainHeaders && Stmt.optionPlain no
  | .whileLoop _ body | .doLoop body _ => body.plainHeaders
  | .forLoop init _ step body =>
    init.all Stmt.isHeader && Stmt.optionPlain init && step.all Stmt.isHeader &&
      Stmt.optionPlain step &&
      body.plainHeaders
  | .switch _ cases otherwise => SwitchCase.allPlain cases && Stmt.bodyPlain otherwise
  | _ => true

def Stmt.allPlain : List Stmt → Bool
  | [] => true
  | s :: ss => s.plainHeaders && Stmt.allPlain ss

def Stmt.optionPlain : Option Stmt → Bool
  | none => true
  | some s => s.plainHeaders

def Stmt.bodyPlain : Option (List Stmt) → Bool
  | none => true
  | some ss => Stmt.allPlain ss

def SwitchCase.allPlain : List SwitchCase → Bool
  | [] => true
  | .mk _ body :: cs => Stmt.allPlain body && SwitchCase.allPlain cs

end

namespace Machine

/-- What a run holds, apart from a return, a break or a continue that is on its way. -/
structure Memory where
  frames : Array Frame
  stack : List Nat
  functions : List (String × Function)
  arrays : Array (Array Value)
  output : Array String
  outputChars : Nat
  steps : Nat
  fresh : Nat
  journal : Array Record

def State.memory (s : State) : Memory :=
  ⟨s.frames, s.stack, s.functions, s.arrays, s.output, s.outputChars, s.steps, s.fresh, s.journal⟩

namespace Memory

def state (m : Memory) : State where
  frames := m.frames
  stack := m.stack
  functions := m.functions
  arrays := m.arrays
  output := m.output
  outputChars := m.outputChars
  returnValue := none
  breaking := false
  continuing := false
  steps := m.steps
  fresh := m.fresh
  journal := m.journal

def initial : Memory := State.initial.memory

end Memory

namespace Structured

abbrev Action := EStateM Fault Memory

/-- How a statement ends that does not fault. -/
inductive Completion
  | normal
  | breaking
  | continuing
  | returning (v : Value)

def plain {α : Type} (a : Exec α) : Action α := fun m =>
  match a m.state with
  | .ok x s => .ok x s.memory
  | .error f s => .error f s.memory

def onState {α : Type} : EStateM.Result Fault Memory α → EStateM.Result Fault State α
  | .ok x m => .ok x m.state
  | .error f m => .error f m.state

def embed {α : Type} (a : Action α) : Exec α := fun s => onState (a s.memory)

structure Runner where
  eval : Expr → Action Value
  exec : Stmt → Action Completion
  levels : Nat

namespace Completion

def result : Completion → Value
  | returning v => v
  | _ => .int 0

def afterSwitch : Completion → Completion
  | breaking => normal
  | c => c

def endsLoop? : Completion → Option Completion
  | normal | continuing => none
  | breaking => some normal
  | returning v => some (returning v)

end Completion

def leave (f : String) (m : Memory) : Memory := (m.state.popFrame.record (.leaving f)).memory

def andLeave {α : Type} (f : String) (a : Action α) : Action α := fun m =>
  match a m with
  | .ok x m => .ok x (leave f m)
  | .error e m => .error e (leave f m)

def repeatUpTo (cfg : Bounds) (round : Action (Option Completion)) : Nat → Action Completion
  | 0 => throw (.stepLimit cfg.maxSteps)
  | n + 1 => do
    match ← round with
    | none => repeatUpTo cfg round n
    | some c => return c

def loop (cfg : Bounds) (round : Action (Option Completion)) : Action Completion :=
  repeatUpTo cfg round (cfg.maxSteps + 1)

namespace Runner

def parts (r : Runner) : Machine.Runner :=
  ⟨fun e => embed (r.eval e), Machine.Runner.exhausted.exec, r.levels⟩

def sequence (r : Runner) : List Stmt → Action Completion
  | [] => return .normal
  | s :: ss => do
    match ← r.exec s with
    | .normal => sequence r ss
    | c => return c

def enter (r : Runner) (f : String) (fn : Function) (vs : List Value) : Action Value := do
  let m ← get
  plain (do
    modify (·.pushFrame ⟨f, bindParams fn.params vs []⟩)
    Exec.record (.calling f m.stack.length))
  andLeave f (Completion.result <$> r.exec (.block fn.body))

def call (cfg : Bounds) (r : Runner) (f : String) (args : List Expr) : Action Value := do
  if f = cfg.outputFunction then
    plain (do
      let vs ← r.parts.evalAll args
      Exec.print cfg (← Exec.lift (outputLine (← get) args vs))
      return .int 0)
  else match (← get).state.function? f with
    | none => throw (.undefinedFunction f)
    | some fn =>
      let vs ← plain (r.parts.evalAll args)
      plain (Machine.Runner.checkDepth cfg r.levels f)
      r.enter f fn vs

def evalStep (cfg : Bounds) (r : Runner) : Expr → Action Value
  | .call f args => do
    plain (Exec.tick cfg r.levels)
    r.call cfg f args
  | e => plain (r.parts.evalStep cfg e)

def holds (r : Runner) : Option Expr → Action Bool
  | none => return true
  | some c => do return (← r.eval c).isTrue

def optional (r : Runner) : Option Stmt → Action Completion
  | none => return .normal
  | some s => r.exec s

def round (r : Runner) (condition : Option Expr) (body : Stmt) (step : Option Stmt) :
    Action (Option Completion) := do
  if ← r.holds condition then
    match (← r.exec body).endsLoop? with
    | some c => return some c
    | none =>
      let _ ← r.optional step
      return none
  else return some .normal

def doRound (r : Runner) (body : Stmt) (condition : Expr) : Action (Option Completion) := do
  match (← r.exec body).endsLoop? with
  | some c => return some c
  | none => return if (← r.eval condition).isTrue then none else some .normal

def selected? (r : Runner) (test : Value) : List SwitchCase → Action (Option (List Stmt))
  | [] => return none
  | .mk value body :: cs => do
    let v ← r.eval value
    if ← plain (Exec.equal v test) then return some (body ++ cs.flatMap SwitchCase.body)
    else selected? r test cs

def switch (r : Runner) (test : Expr) (cases : List SwitchCase) (otherwise : Option (List Stmt)) :
    Action Completion := do
  let v ← r.eval test
  let body ← r.selected? v cases
  Completion.afterSwitch <$> r.sequence (body.getD (otherwise.getD []))

def execStep (cfg : Bounds) (r : Runner) (s : Stmt) : Action Completion := do
  plain (Exec.tick cfg r.levels)
  match s with
  | .expr e => do
    let _ ← r.eval e
    return .normal
  | .declare d => do
    plain (do Exec.bind d.name (← r.parts.initialValue cfg d))
    return .normal
  | .assign target op value => do
    plain (r.parts.assign cfg target op value)
    return .normal
  | .function _ name params body => do
    plain (do
      Exec.record (.registering name params.length)
      modify (·.define name ⟨params, body⟩))
    return .normal
  | .block body => r.sequence body
  | .branch c yes no => do
    if (← r.eval c).isTrue then r.exec yes else r.optional no
  | .whileLoop c body => loop cfg (r.round (some c) body none)
  | .doLoop body c => loop cfg (r.doRound body c)
  | .forLoop init c step body => do
    let _ ← r.optional init
    loop cfg (r.round c body step)
  | .switch test cases otherwise => r.switch test cases otherwise
  | .ret none => return .returning (.int 0)
  | .ret (some e) => Completion.returning <$> r.eval e
  | .breakOut => return .breaking
  | .continueOn => return .continuing
  | .preprocessor _ => return .normal

def exhausted : Runner := ⟨fun _ => throw .tooDeep, fun _ => throw .tooDeep, 0⟩

def above (cfg : Bounds) (r : Runner) : Runner := ⟨r.evalStep cfg, r.execStep cfg, r.levels + 1⟩

end Runner

def runner (cfg : Bounds) : Nat → Runner
  | 0 => .exhausted
  | n + 1 => (runner cfg n).above cfg

def start (cfg : Bounds) (r : Runner) : Action (Option Value) := do
  if ((← get).state.function? entryPoint).isSome then return some (← r.call cfg entryPoint [])
  else return none

def program (cfg : Bounds) (r : Runner) (body : List Stmt) : Action (Option Value) := do
  match ← r.sequence body with
  | .returning v => return some v
  | _ => start cfg r

structure Ending where
  memory : Memory
  returned : Option Value
  fault : Option Fault

def execute (cfg : Bounds) (body : List Stmt) : Ending :=
  match program cfg (runner cfg cfg.levels) body .initial with
  | .ok v m => ⟨m, v, none⟩
  | .error f m =>
    ⟨if f.isUnexpected then (m.state.record .unexpectedFault).memory else m, none, some f⟩

def Ending.result (e : Ending) : Result :=
  Outcome.result ⟨{ e.memory.state with returnValue := e.returned }, e.fault⟩

end Structured

end Machine

end MiniC

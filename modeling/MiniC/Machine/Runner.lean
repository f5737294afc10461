import MiniC.Machine.Exec
import MiniC.Tree.Text

/-! Running trees. The meaning of each form is given over a runner for its parts, and `runner` nests
them up to the stack of the host. A return, a break or a continue is kept in the state until the
call, loop or switch it belongs to takes it. -/

namespace MiniC.Machine

/-- How the parts of an expression or a statement are run, with so many levels of the stack left. -/
structure Runner where
  eval : Expr → Exec Value
  exec : Stmt → Exec Unit
  levels : Nat

open Exec

/-- Values of the parameters; arguments that are missing read as zero, and those left over are
ignored. -/
def bindParams : List Parameter → List Value → Bindings → Bindings
  | [], _, bs => bs
  | p :: ps, vs, bs => bindParams ps vs.tail (bs.put p.name (vs.headD (.int 0)))

def State.enter (f : String) (fn : Function) (vs : List Value) (s : State) : State :=
  { (s.pushFrame ⟨f, bindParams fn.params vs []⟩).record (.calling f s.stack.length) with
    returnValue := none }

def State.leave (f : String) (saved : Option Value) (s : State) : State :=
  { s.popFrame.record (.leaving f) with
    returnValue := saved
    breaking := false
    continuing := false }

namespace Runner

def evalAll (r : Runner) : List Expr → Exec (List Value)
  | [] => return []
  | e :: es => do
    let v ← r.eval e
    let vs ← evalAll r es
    return v :: vs

def sequence (r : Runner) : List Stmt → Exec Unit
  | [] => return ()
  | s :: ss => do
    if ← isInterrupted then return ()
    else
      r.exec s
      sequence r ss

def index (r : Runner) (x : String) (ref : Nat) (i : Expr) : Exec Nat := do
  checkIndex x ref (← r.eval i)

def body (r : Runner) (fn : Function) : Exec Value := do
  r.exec (.block fn.body)
  return (← get).returnValue.getD (.int 0)

def enter (r : Runner) (f : String) (fn : Function) (vs : List Value) : Exec Value := do
  let s ← get
  set (s.enter f fn vs)
  andThen (r.body fn) (State.leave f s.returnValue)

def checkDepth (cfg : Bounds) (left : Nat) (f : String) : Exec Unit := do
  if cfg.maxCallDepth < (← get).stack.length then
    stopAt cfg left (.callCeiling cfg.maxCallDepth) (.callDepth cfg.maxCallDepth f)

def call (cfg : Bounds) (r : Runner) (f : String) (args : List Expr) : Exec Value := do
  if f = cfg.outputFunction then
    let vs ← r.evalAll args
    print cfg (← lift (outputLine (← get) args vs))
    return .int 0
  else match (← get).function? f with
    | none => throw (.undefinedFunction f)
    | some fn =>
      let vs ← r.evalAll args
      checkDepth cfg r.levels f
      r.enter f fn vs

/-- Refuses an expression that has no address, quoting it if its parts fit on the stack. -/
def noAddress (left : Nat) (e : Expr) : Exec Value := do
  if left < e.depth then throw .tooDeep else throw (.noAddress (← liftNumber e.write))

def addressOf (r : Runner) : Expr → Exec Value
  | .name x => newPointer x none
  | .element x i => do
    let ref ← array x
    newPointer x (some (← r.index x ref i))
  | e => noAddress r.levels e

def operator (cfg : Bounds) (r : Runner) (op : BinaryOp) (left right : Expr) : Exec Value := do
  let v ← r.eval left
  match op with
  | .and => if v.isTrue then return .ofBool (← r.eval right).isTrue else return .ofBool false
  | .or => if v.isTrue then return .ofBool true else return .ofBool (← r.eval right).isTrue
  | op => binary cfg op v (← r.eval right)

def update (op : UpdateOp) (x : String) (before : Bool) : Exec Value := do
  let old ← lookup x
  let new ← stepped op old
  bind x new
  return if before then new else old

def unary (op : UnaryOp) (v : Value) : Exec Value :=
  match op with
  | .neg => negate v
  | .pos => return v
  | .not => return .ofBool (!v.isTrue)

def evalStep (cfg : Bounds) (r : Runner) (e : Expr) : Exec Value := do
  tick cfg r.levels
  match e with
  | .number n mark => return .ofNumber n (.literal mark)
  | .string s => return .text (Literal.decodeText s)
  | .char s => return .int (Literal.codeOf s)
  | .name x => lookup x
  | .binary op left right => r.operator cfg op left right
  | .unary op operand => unary op (← r.eval operand)
  | .update op x before => update op x before
  | .addressOf operand => r.addressOf operand
  | .deref operand => dereference (← r.eval operand)
  | .element x i => do
    let ref ← array x
    element ref (← r.index x ref i)
  | .call f args => r.call cfg f args
  | .braces _ => throw .bracesOutside

def initialItems (r : Runner) (x : String) : Option Expr → Exec (List Value)
  | none => return []
  | some (.braces items) => r.evalAll items
  | some (.string s) => do
    match ← r.eval (.string s) with
    | .text t => return t.toList.map (fun c => .int c.toNat) ++ [.int 0]
    | _ => return []
  | some _ => throw (.arrayWithoutBraces x)

def arrayLength (d : Declaration) (items : List Value) : Exec Int :=
  match d.size with
  | none => return items.length
  | some n => liftNumber n.truncate

def filledArray (cfg : Bounds) (x : String) (length : Int) (items : List Value) : Exec Value := do
  if cfg.maxArrayLength < length then throw (.arrayTooLong x length cfg.maxArrayLength)
  else if length < items.length then throw (.tooManyItems x (← lift (writeInt length)))
  else newArray (items ++ List.replicate (length.toNat - items.length) (.int 0))

def declareArray (cfg : Bounds) (r : Runner) (d : Declaration) : Exec Value := do
  let items ← r.initialItems d.name d.init
  filledArray cfg d.name (← arrayLength d items) items

def initialValue (cfg : Bounds) (r : Runner) (d : Declaration) : Exec Value :=
  if d.isArray then r.declareArray cfg d
  else match d.init with
    | none => return .int 0
    | some (.braces _) => throw (.scalarBraces d.name)
    | some e => r.eval e

def assigned (cfg : Bounds) (op : AssignOp) (old : Exec Value) (v : Value) : Exec Value :=
  match op.binary? with
  | none => return v
  | some b => do binary cfg b (← old) v

def assign (cfg : Bounds) (r : Runner) (target : Target) (op : AssignOp) (value : Expr) :
    Exec Unit := do
  let v ← r.eval value
  match target with
  | .name x => do bind x (← assigned cfg op (lookup x) v)
  | .element x i => do
    let ref ← array x
    let k ← r.index x ref i
    let v ← assigned cfg op (element ref k) v
    modify (·.writeElement ref k v)

def holds (r : Runner) : Option Expr → Exec Bool
  | none => return true
  | some c => do return (← r.eval c).isTrue

def optional (r : Runner) : Option Stmt → Exec Unit
  | none => return ()
  | some s => r.exec s

def round (r : Runner) (condition : Option Expr) (body : Stmt) (step : Option Stmt) :
    Exec Bool := do
  if ← r.holds condition then
    r.exec body
    if ← endRound then
      r.optional step
      return true
    else return false
  else return false

def doRound (r : Runner) (body : Stmt) (condition : Expr) : Exec Bool := do
  r.exec body
  if ← endRound then return (← r.eval condition).isTrue else return false

def isCase (r : Runner) (test : Value) (matched : Bool) (value : Expr) : Exec Bool := do
  if matched then return true else equal (← r.eval value) test

/-- The bodies of the cases from the first that equals the test on, up to an interruption; whether
one did. -/
def runCases (r : Runner) (test : Value) : Bool → List SwitchCase → Exec Bool
  | matched, [] => return matched
  | matched, .mk value body :: cs => do
    if ← r.isCase test matched value then
      r.sequence body
      if ← isInterrupted then return true else runCases r test true cs
    else runCases r test false cs

def switch (r : Runner) (test : Expr) (cases : List SwitchCase) (otherwise : Option (List Stmt)) :
    Exec Unit := do
  let v ← r.eval test
  if ← r.runCases v false cases then pure () else r.sequence (otherwise.getD [])
  modify fun s => { s with breaking := false }

def execStep (cfg : Bounds) (r : Runner) (s : Stmt) : Exec Unit := do
  tick cfg r.levels
  match s with
  | .expr e => do
    let _ ← r.eval e
  | .declare d => do Exec.bind d.name (← r.initialValue cfg d)
  | .assign target op value => r.assign cfg target op value
  | .function _ name params body => do
    record (.registering name params.length)
    modify (·.define name ⟨params, body⟩)
  | .block body => r.sequence body
  | .branch c yes no => do
    if (← r.eval c).isTrue then r.exec yes else r.optional no
  | .whileLoop c body => loop cfg (r.round (some c) body none)
  | .doLoop body c => loop cfg (r.doRound body c)
  | .forLoop init c step body => do
    r.optional init
    loop cfg (r.round c body step)
  | .switch test cases otherwise => r.switch test cases otherwise
  | .ret none => modify fun s => { s with returnValue := some (.int 0) }
  | .ret (some e) => do
    let v ← r.eval e
    modify fun s => { s with returnValue := some v }
  | .breakOut => modify fun s => { s with breaking := true }
  | .continueOn => modify fun s => { s with continuing := true }
  | .preprocessor _ => return ()

def exhausted : Runner := ⟨fun _ => throw .tooDeep, fun _ => throw .tooDeep, 0⟩

def above (cfg : Bounds) (r : Runner) : Runner := ⟨r.evalStep cfg, r.execStep cfg, r.levels + 1⟩

end Runner

def runner (cfg : Bounds) : Nat → Runner
  | 0 => .exhausted
  | n + 1 => (runner cfg n).above cfg

end MiniC.Machine

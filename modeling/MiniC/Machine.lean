import MiniC.Machine.Runner

/-! Executing a tree from a fresh state, and what is reported of it. -/

namespace MiniC.Machine

def entryPoint : String := "main"

open Exec

def start (cfg : Bounds) (r : Runner) : Exec Unit := do
  let s ← get
  if (s.function? entryPoint).isSome && s.returnValue.isNone then
    modify fun s => { s with breaking := false, continuing := false }
    let v ← r.call cfg entryPoint []
    modify fun s => { s with returnValue := some v }
  else return ()

def runTree (cfg : Bounds) (r : Runner) : Tree → Exec Unit
  | .program body => do
    r.sequence body
    start cfg r
  | .stmt (.expr e) => do
    let v ← r.eval e
    modify fun s => { s with returnValue := some v }
  | .stmt s => r.exec s
  | t => do
    tick cfg r.levels
    tick cfg r.levels
    throw (.noValue t.form)

structure Outcome where
  state : State
  fault : Option Fault

def execute (cfg : Bounds) (t : Tree) : Outcome :=
  match runTree cfg (runner cfg cfg.levels) t .initial with
  | .ok _ s => ⟨s, none⟩
  | .error f s => ⟨if f.isUnexpected then s.record .unexpectedFault else s, some f⟩

inductive Picture
  | number (n : Number)
  | text (s : String)
  | list (items : List Picture)
  | pointer (label : String)
  | cycle

def State.picture (s : State) : Nat → List Nat → Value → Picture
  | _, _, .number n _ => .number n
  | _, _, .text t => .text t
  | _, _, .pointer p => .pointer p.label
  | 0, _, .array _ => .cycle
  | n + 1, path, .array ref =>
    if path.contains ref then .cycle
    else .list ((s.elements ref).toList.map (s.picture n (ref :: path)))

namespace Outcome

/-- No array is unfolded inside itself, so there are no more levels than arrays. -/
def levels (o : Outcome) : Nat := o.state.arrays.size + 1

def global (o : Outcome) : Value → Picture
  | .array ref => .list ((o.state.elements ref).toList.map (o.state.picture o.levels []))
  | .pointer p => .text p.label
  | v => o.state.picture o.levels [] v

def globals (o : Outcome) : Bindings := o.state.bindingsOf State.globals

def returnValue (o : Outcome) : Option Value := if o.fault.isSome then none else o.state.returnValue

def functionNames (o : Outcome) : List String :=
  (o.state.functions.map (·.1)).mergeSort fun a b => decide (a ≤ b)

end Outcome

structure Result where
  output : List String
  returnValue : Option Picture
  globals : List (String × Picture)
  fault : Option String

namespace Result

def failed (message : String) : Result := ⟨[], none, [], some message⟩

def succeeded (r : Result) : Bool := r.fault.isNone

end Result

def Outcome.result (o : Outcome) : Result where
  output := o.state.output.toList
  returnValue := o.returnValue.map (o.state.picture o.levels [])
  globals := o.globals.map fun (x, v) => (x, o.global v)
  fault := o.fault.map (·.report)

end MiniC.Machine

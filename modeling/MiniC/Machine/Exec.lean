import MiniC.Machine.Format
import MiniC.Machine.Literal
import MiniC.Settings

/-! Actions on the state of a run. An action ends with a value or a fault, and in either case with
the state it has reached. -/

namespace MiniC.Machine

/-- What bounds a run: the ceilings of its settings, and the stack of its host. The stack holds so
many nested parts of a tree, and a ceiling is reported only where so many more would fit. -/
structure Bounds extends Settings where
  levels : Nat := 497
  reportLevels : Nat := 5

abbrev Exec := EStateM Fault State

namespace Exec

def lift {α : Type} : Except Fault α → Exec α
  | .ok a => pure a
  | .error f => throw f

def liftNumber {α : Type} : Except Number.Fault α → Exec α
  | .ok a => pure a
  | .error f => throw (.number f)

def record (r : Record) : Exec Unit := modify (·.record r)

def stopAt (cfg : Bounds) (left : Nat) (r : Record) (f : Fault) : Exec Unit := do
  if cfg.reportLevels ≤ left then
    record r
    throw f
  else throw (.unreported r)

def tick (cfg : Bounds) (left : Nat) : Exec Unit := do
  modify fun s => { s with steps := s.steps + 1 }
  if cfg.maxSteps < (← get).steps then
    stopAt cfg left (.stepCeiling cfg.maxSteps) (.stepLimit cfg.maxSteps)

def fresh : Exec Nat := do
  let s ← get
  set { s with fresh := s.fresh + 1 }
  return s.fresh

def computed (n : Number) : Exec Value := do
  if n.isNaN then return .ofNumber n (.computed (← fresh)) else return .number n none

def lookup (x : String) : Exec Value := do
  let s ← get
  return s.read s.top x

def bind (x : String) (v : Value) : Exec Unit := modify (·.bind x v)

def newArray (items : List Value) : Exec Value := do
  let s ← get
  set (s.newArray items.toArray)
  return .array s.arrays.size

def array (x : String) : Exec Nat := do
  match ← lookup x with
  | .array ref => return ref
  | _ => throw (.notArray x)

def element (ref i : Nat) : Exec Value := do
  let s ← get
  return ((s.elements ref)[i]?).getD (.int 0)

def indexValue? : Value → Option Int
  | .number (.int n) _ => some n
  | .number (.float x) _ => if Decimal.isWhole x then Decimal.truncate? x else none
  | _ => none

def checkIndex (x : String) (ref : Nat) (v : Value) : Exec Nat := do
  match indexValue? v with
  | none => throw (.indexNotInteger x)
  | some i =>
    let size := ((← get).elements ref).size
    if 0 ≤ i ∧ i < size then return i.toNat
    else throw (.indexOutOfBounds (← lift (writeInt i)) x size)

def newPointer (x : String) (index : Option Int) : Exec Value := do
  let serial ← fresh
  return .pointer ⟨serial, (← get).top, x, index⟩

def follow (p : Pointer) : Exec Value := do
  let s ← get
  let v := s.read p.frame p.name
  match p.index, v with
  | none, v => return v
  | some i, .array ref =>
    let items := s.elements ref
    if 0 ≤ i ∧ i < items.size then return (items[i.toNat]?).getD (.int 0)
    else throw (.dangling (← lift p.text))
  | some _, _ => throw (.dangling (← lift p.text))

def dereference (v : Value) : Exec Value := do
  match v with
  | .pointer p => follow p
  | .array ref =>
    if ((← get).elements ref).isEmpty then throw (.notPointer (← lift ((← get).list v)))
    else element ref 0
  | v => throw (.notPointer (← lift ((← get).list v)))

def negate (v : Value) : Exec Value :=
  match v with
  | .number n _ => computed n.neg
  | v => throw (.cannotNegate v.typeName)

def stepNumber (op : UpdateOp) : Number → Number
  | .int n => .int (match op with
    | .inc => n + 1
    | .dec => n - 1)
  | .float x => .float (match op with
    | .inc => x + 1.0
    | .dec => x - 1.0)

def stepped (op : UpdateOp) (v : Value) : Exec Value :=
  match v with
  | .number n _ => computed (stepNumber op n)
  | v => throw (.cannotStep op v.typeName)

def arithmetic (maxBits : Nat) (op : BinaryOp) (a b : Number) : Except Number.Fault Number :=
  match op with
  | .add => Number.add maxBits a b
  | .sub => Number.sub maxBits a b
  | .mul => Number.mul maxBits a b
  | .div => if b.isZero then .error .divisionByZero else Number.wholeDiv a b
  | .mod => if b.isZero then .error .moduloByZero else Number.remainder a b
  | _ => Number.power maxBits a b

def binary (cfg : Bounds) (op : BinaryOp) (v w : Value) : Exec Value := do
  if op.isArithmetic then
    match v, w with
    | .number a _, .number b _ => computed (← liftNumber (arithmetic cfg.maxIntBits op a b))
    | v, w => throw (.operands op v.kind w.kind)
  else return .ofBool (← lift ((← get).relate op v w))

def equal (v w : Value) : Exec Bool := do lift ((← get).equal depthBudget v w)

/-- Prints a line. The characters count even if they are too many to be printed. -/
def print (cfg : Bounds) (line : List Char) : Exec Unit := do
  modify fun s => { s with outputChars := s.outputChars + line.length }
  if cfg.maxOutputChars < (← get).outputChars then throw (.outputLimit cfg.maxOutputChars)
  else modify fun s => { s with output := s.output.push (String.ofList line) }

def isInterrupted : Exec Bool := do return (← get).isInterrupted

/-- Repeats a round until it says that it was the last. A round counts at least one step, so the
ceiling on steps ends the run before the rounds run out. -/
def repeatUpTo (cfg : Bounds) (round : Exec Bool) : Nat → Exec Unit
  | 0 => throw (.stepLimit cfg.maxSteps)
  | n + 1 => do
    if ← round then repeatUpTo cfg round n else return ()

def loop (cfg : Bounds) (round : Exec Bool) : Exec Unit := repeatUpTo cfg round (cfg.maxSteps + 1)

def endRound : Exec Bool := do
  let s ← get
  modify fun s => { s with breaking := false, continuing := false }
  return !(s.breaking || s.returnValue.isSome)

def andThen {α : Type} (action : Exec α) (after : State → State) : Exec α := fun s =>
  match action s with
  | .ok a t => .ok a (after t)
  | .error f t => .error f (after t)

end Exec

end MiniC.Machine

import MiniC.Journal
import MiniC.Tree

/-! The state of a run. Frames and arrays are numbered as they are made and are never given up,
since a pointer may outlive the call that made it; the stack says which frames are active. Main
statements: what a frame's bindings are after a name is bound. -/

namespace MiniC.Machine

/-- A reference to a variable of a frame, or to an element of the array it holds. Each pointer that
is made has a serial number of its own. -/
structure Pointer where
  serial : Nat
  frame : Nat
  name : String
  index : Option Int
deriving DecidableEq

/-- Where a value that is not a number comes from: a literal of the tree, or a computation of the
run. -/
inductive Origin
  | literal (mark : Nat)
  | computed (serial : Nat)
deriving DecidableEq

/-- A value: a number, a text, a shared array or a pointer. What is not a number equals nothing but
itself, and its origin tells which one it is; every other number has none. -/
inductive Value
  | number (n : Number) (origin : Option Origin)
  | text (s : String)
  | array (ref : Nat)
  | pointer (p : Pointer)

namespace Value

def int (n : Int) : Value := .number (.int n) none

def ofNumber (n : Number) (origin : Origin) : Value :=
  .number n (if n.isNaN then some origin else none)

instance : Inhabited Value := ⟨.int 0⟩

def ofBool (b : Bool) : Value := .int (if b then 1 else 0)

def number? : Value → Option Number
  | number n _ => some n
  | _ => none

def isTrue : Value → Bool
  | number n _ => !n.isZero
  | _ => true

def kind : Value → String
  | number (.int _) _ => "int"
  | number (.float _) _ => "float"
  | text _ => "str"
  | array _ => "array"
  | pointer _ => "pointer"

def typeName : Value → String
  | array _ => "list"
  | pointer _ => "Pointer"
  | v => v.kind

end Value

abbrev Bindings := List (String × Value)

namespace Bindings

def get? (x : String) : Bindings → Option Value
  | [] => none
  | (y, v) :: bs => if y = x then some v else get? x bs

def put (x : String) (v : Value) : Bindings → Bindings
  | [] => [(x, v)]
  | (y, w) :: bs => if y = x then (y, v) :: bs else (y, w) :: put x v bs

theorem get?_put (x y : String) (v : Value) (bs : Bindings) :
    get? y (put x v bs) = if x = y then some v else get? y bs := by
  induction bs with
  | nil => rfl
  | cons b bs ih =>
    obtain ⟨z, w⟩ := b
    grind [put, get?]

theorem get?_put_ne {x y : String} (h : x ≠ y) (v : Value) (bs : Bindings) :
    get? y (put x v bs) = get? y bs := by
  rw [get?_put, if_neg h]

end Bindings

structure Frame where
  function : String
  bindings : Bindings

structure Function where
  params : List Parameter
  body : List Stmt

structure State where
  frames : Array Frame
  /-- Numbers of the active frames, the current one first. -/
  stack : List Nat
  functions : List (String × Function)
  arrays : Array (Array Value)
  output : Array String
  outputChars : Nat
  returnValue : Option Value
  breaking : Bool
  continuing : Bool
  steps : Nat
  /-- The next serial number. -/
  fresh : Nat
  journal : Array Record

namespace State

def globals : Nat := 0

def initial : State where
  frames := #[⟨"<global>", []⟩]
  stack := [globals]
  functions := []
  arrays := #[]
  output := #[]
  outputChars := 0
  returnValue := none
  breaking := false
  continuing := false
  steps := 0
  fresh := 1
  journal := #[]

def top (s : State) : Nat := s.stack.headD globals

def bindingsOf (s : State) (frame : Nat) : Bindings :=
  match s.frames[frame]? with
  | some f => f.bindings
  | none => []

def read (s : State) (frame : Nat) (x : String) : Value :=
  ((s.bindingsOf frame).get? x).getD (.int 0)

def elements (s : State) (ref : Nat) : Array Value := (s.arrays[ref]?).getD #[]

def isInterrupted (s : State) : Bool := s.returnValue.isSome || s.breaking || s.continuing

def bind (s : State) (x : String) (v : Value) : State :=
  { s with frames := s.frames.modify s.top fun f => { f with bindings := f.bindings.put x v } }

def writeElement (s : State) (ref i : Nat) (v : Value) : State :=
  { s with arrays := s.arrays.modify ref fun a => a.setIfInBounds i v }

def newArray (s : State) (items : Array Value) : State := { s with arrays := s.arrays.push items }

def pushFrame (s : State) (f : Frame) : State :=
  { s with frames := s.frames.push f, stack := s.frames.size :: s.stack }

def popFrame (s : State) : State := { s with stack := s.stack.tail }

def record (s : State) (r : Record) : State := { s with journal := s.journal.push r }

def function? (s : State) (name : String) : Option Function := s.functions.lookup name

def define (s : State) (name : String) (f : Function) : State :=
  { s with functions := (name, f) :: s.functions.filter (·.1 ≠ name) }

end State

end MiniC.Machine

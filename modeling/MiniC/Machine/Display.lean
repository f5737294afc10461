import MiniC.Machine.Compare
import MiniC.Text.Quoted

/-! Values as text: as they are printed, and as they are listed with quotes and types in full. -/

namespace MiniC.Machine

def writeInt (n : Int) : Except Fault String :=
  match (Number.int n).write with
  | .ok t => .ok t
  | .error f => .error (.number f)

namespace Pointer

def label (p : Pointer) : String :=
  match p.index with
  | none => "&" ++ p.name
  | some i => "&" ++ p.name ++ "[" ++ toString i ++ "]"

def text (p : Pointer) : Except Fault String :=
  match p.index with
  | none => return p.label
  | some i => do
    let _ ← writeInt i
    return p.label

end Pointer

def listedNumber (n : Number) : Except Fault String :=
  match n.write with
  | .ok t => .ok t
  | .error f => .error (.number f)

def printedNumber : Number → Except Fault String
  | .float x => match Decimal.isWhole x, Decimal.truncate? x with
    | true, some n => writeInt n
    | _, _ => return Decimal.text x
  | n => listedNumber n

namespace State

def display (s : State) : Nat → Value → Except Fault String
  | _, .number n _ => printedNumber n
  | _, .text t => return t
  | _, .pointer p => p.text
  | 0, .array _ => .error .tooDeep
  | n + 1, .array ref => do
    let items ← (s.elements ref).toList.mapM (s.display n)
    return "\x7b" ++ ", ".intercalate items ++ "\x7d"

end State

/-- What a listing is inside of: arrays, pointers and frames that are cut short when met again. -/
structure Trail where
  arrays : List Nat
  pointers : List Nat
  frames : List Nat

def listedBindings (list : Value → Except Fault String) : Bindings → Except Fault (List String)
  | [] => return []
  | (x, v) :: bs => do
    let t ← list v
    let rest ← listedBindings list bs
    return (Text.quote x ++ ": " ++ t) :: rest

namespace State

def listing (s : State) : Nat → Trail → Value → Except Fault String
  | _, _, .number n _ => listedNumber n
  | _, _, .text t => return Text.quote t
  | 0, _, _ => .error .tooDeep
  | n + 1, trail, .array ref =>
    if trail.arrays.contains ref then return "[...]"
    else do
      let inside : Trail := { trail with arrays := ref :: trail.arrays }
      let items ← (s.elements ref).toList.mapM (s.listing n inside)
      return "[" ++ ", ".intercalate items ++ "]"
  | n + 1, trail, .pointer p =>
    if trail.pointers.contains p.serial then return "..."
    else do
      let frame ←
        if trail.frames.contains p.frame then pure "..."
        else
          let inside : Trail :=
            { trail with pointers := p.serial :: trail.pointers, frames := p.frame :: trail.frames }
          let function := match s.frames[p.frame]? with
            | some f => f.function
            | none => ""
          let vars ← listedBindings (s.listing n inside) (s.bindingsOf p.frame)
          pure ("Frame(function=" ++ Text.quote function ++ ", variables=\x7b" ++
            ", ".intercalate vars ++ "\x7d)")
      let index ← match p.index with
        | none => pure "None"
        | some i => writeInt i
      return "Pointer(frame=" ++ frame ++ ", name=" ++ Text.quote p.name ++
        ", index=" ++ index ++ ")"

def list (s : State) (v : Value) : Except Fault String := s.listing depthBudget ⟨[], [], []⟩ v

def plainText (s : State) : Value → Except Fault String
  | .text t => return t
  | .pointer p => p.text
  | v => s.list v

end State

end MiniC.Machine

import MiniC.Machine.Fault
import MiniC.Machine.State

/-! Comparing values. Numbers compare by value, texts by code points, arrays element by element;
pointers equal only themselves. An element counts as equal to itself without being looked into, so
that an array inside itself can be compared. -/

namespace MiniC.Machine

def depthBudget : Nat := 1000

def Value.isSame : Value → Value → Bool
  | .number _ o, .number _ p => o.isSome && o = p
  | .text a, .text b => a = b
  | .array i, .array j => i = j
  | .pointer p, .pointer q => p.serial = q.serial
  | _, _ => false

def firstDifference (equal : Value → Value → Except Fault Bool) :
    List Value → List Value → Except Fault (Option (Value × Value))
  | v :: vs, w :: ws =>
    if v.isSame w then firstDifference equal vs ws
    else do
      if ← equal v w then firstDifference equal vs ws
      else return some (v, w)
  | _, _ => return none

namespace State

def equal (s : State) : Nat → Value → Value → Except Fault Bool
  | _, .number a _, .number b _ => return a.eqv b
  | _, .text a, .text b => return a = b
  | _, .pointer p, .pointer q => return p.serial = q.serial
  | 0, .array _, .array _ => .error .tooDeep
  | n + 1, .array i, .array j => do
    let vs := s.elements i
    let ws := s.elements j
    if vs.size ≠ ws.size then return false
    else return (← firstDifference (s.equal n) vs.toList ws.toList).isNone
  | _, _, _ => return false

end State

def admits : BinaryOp → Ordering → Bool
  | .lt, o => o.isLT
  | .gt, o => o.isGT
  | .le, o => o.isLE
  | .ge, o => o.isGE
  | .eq, o => o.isEq
  | .ne, o => o.isNe
  | _, _ => false

def textOrder (a b : String) : Ordering := if a = b then .eq else if a < b then .lt else .gt

namespace State

def ordered (s : State) (op : BinaryOp) : Nat → Value → Value → Except Fault (Option Bool)
  | _, .number a _, .number b _ => return some ((a.compare? b).any (admits op))
  | _, .text a, .text b => return some (admits op (textOrder a b))
  | 0, .array _, .array _ => .error .tooDeep
  | n + 1, .array i, .array j => do
    let vs := s.elements i
    let ws := s.elements j
    match ← firstDifference (s.equal n) vs.toList ws.toList with
    | none => return some (admits op (compare vs.size ws.size))
    | some (v, w) => s.ordered op n v w
  | _, _, _ => return none

def relate (s : State) (op : BinaryOp) (v w : Value) : Except Fault Bool :=
  match op with
  | .eq => s.equal depthBudget v w
  | .ne => (!·) <$> s.equal depthBudget v w
  | op => do
    match ← s.ordered op depthBudget v w with
    | some b => return b
    | none => .error (.operands op v.kind w.kind)

end State

end MiniC.Machine

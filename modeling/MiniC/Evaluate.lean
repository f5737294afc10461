import MiniC.Number.Arithmetic
import MiniC.Tree

/-! Evaluation of bare arithmetic: numbers, signs and the six arithmetic operators, without
variables. Division is that of real numbers, and an integer wider than 4096 bits is refused. -/

namespace MiniC.Evaluate

inductive Fault
  | unbound (name : String)
  | unsupported (form : String)
  | unknownOperator (symbol : String)
  | number (f : Number.Fault)
  | tooDeep

namespace Fault

def message : Fault → String
  | unbound name => s!"Cannot evaluate identifier '{name}' without variable context"
  | unsupported form => s!"Cannot evaluate {form}: only arithmetic expressions are supported"
  | unknownOperator symbol => s!"Unknown operator: {symbol}"
  | number f => if f.category?.isSome then f.message else "Arithmetic error: " ++ f.message
  | tooDeep => "Expression nested too deeply"

def category : Fault → Category
  | unbound _ => .unboundName
  | unsupported _ => .unsupportedTree
  | unknownOperator _ => .unknownOperator
  | number f => f.category?.getD .evaluation
  | tooDeep => .evaluation

end Fault

def maxBits : Nat := 4096

def budget : Nat := 1000

def lift : Except Number.Fault Number → Except Fault Number
  | .ok n => .ok n
  | .error f => .error (.number f)

def binary (op : BinaryOp) (a b : Number) : Except Fault Number :=
  match op with
  | .add => lift (Number.add maxBits a b)
  | .sub => lift (Number.sub maxBits a b)
  | .mul => lift (Number.mul maxBits a b)
  | .div => if b.isZero then .error (.number .divisionByZero) else lift (Number.realDiv a b)
  | .mod => if b.isZero then .error (.number .moduloByZero) else lift (Number.remainder a b)
  | .pow => lift (Number.power maxBits a b)
  | op => .error (.unknownOperator op.symbol)

def unary (op : UnaryOp) (a : Number) : Except Fault Number :=
  match op with
  | .neg => .ok a.neg
  | .pos => .ok a
  | .not => .error (.unknownOperator op.label)

def expr : Nat → Expr → Except Fault Number
  | 0, _ => .error .tooDeep
  | _ + 1, .number n _ => .ok n
  | _ + 1, .name x => .error (.unbound x)
  | n + 1, .binary op l r => do
    let a ← expr n l
    let b ← expr n r
    binary op a b
  | n + 1, .unary op e => do
    let a ← expr n e
    unary op a
  | _ + 1, e => .error (.unsupported e.form)

def tree : Tree → Except Fault Number
  | .stmt (.expr e) => expr budget e
  | t => .error (.unsupported t.form)

end MiniC.Evaluate

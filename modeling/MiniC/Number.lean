import MiniC.Report
import MiniC.Decimal.Layout
import MiniC.Decimal.Read

/-! Numbers of the language: integers of any size and binary64 numbers, compared by their exact
values. -/

namespace MiniC

inductive Number
  | int (n : Int)
  | float (x : Float)

namespace Number

inductive Fault
  | divisionByZero
  | moduloByZero
  | tooWide (bits : Int)
  | notReal (left right : String)
  | wholeByZero
  | quotientTooLarge
  | integerTooLarge
  | zeroToNegative
  | powerTooLarge
  | complexTooLarge
  | remainderUndefined
  | infinityNotWhole
  | nanNotWhole
  | tooManyDigits
deriving DecidableEq

namespace Fault

def message : Fault → String
  | divisionByZero => "Division by zero"
  | moduloByZero => "Modulo by zero"
  | tooWide bits => s!"Integer result exceeds {bits} bits"
  | notReal left right => s!"{left} ^ {right} has no real value"
  | wholeByZero => "integer division or modulo by zero"
  | quotientTooLarge => "integer division result too large for a float"
  | integerTooLarge => "int too large to convert to float"
  | zeroToNegative => "0.0 cannot be raised to a negative power"
  | powerTooLarge => "(34, 'Numerical result out of range')"
  | complexTooLarge => "complex exponentiation"
  | remainderUndefined => "math domain error"
  | infinityNotWhole => "cannot convert float infinity to integer"
  | nanNotWhole => "cannot convert float NaN to integer"
  | tooManyDigits =>
    "Exceeds the limit (4300 digits) for integer string conversion; " ++
      "use sys.set_int_max_str_digits() to increase the limit"

def category? : Fault → Option Category
  | divisionByZero | moduloByZero => some .divisionByZero
  | tooWide _ => some .integerWidth
  | notReal _ _ => some .evaluation
  | _ => none

end Fault

def isWritable : Number → Bool
  | int n => n.natAbs < 10 ^ Decimal.digitLimit
  | float _ => true

def text : Number → String
  | int n => toString n
  | float x => Decimal.text x

def write (n : Number) : Except Fault String :=
  if n.isWritable then .ok n.text else .error .tooManyDigits

inductive Extent
  | bottom
  | spot (num : Int) (den : Nat)
  | top

namespace Extent

def compare : Extent → Extent → Ordering
  | bottom, bottom | top, top => .eq
  | bottom, _ | _, top => .lt
  | _, bottom | top, _ => .gt
  | .spot a b, .spot c d => Ord.compare (a * d) (c * b)

end Extent

def extent? : Number → Option Extent
  | int n => some (.spot n 1)
  | float x =>
    match Decimal.parts x with
    | .nan => none
    | .infinite negative => some (if negative then .bottom else .top)
    | .finite negative m e =>
      let f := Decimal.Fraction.scale m 2 e
      some (.spot (Decimal.signed negative f.num) f.den)

def compare? (a b : Number) : Option Ordering := do
  let x ← a.extent?
  let y ← b.extent?
  return x.compare y

def eqv (a b : Number) : Bool := a.compare? b = some .eq

def isZero (a : Number) : Bool := a.eqv (int 0)

def isNaN (a : Number) : Bool := a.extent?.isNone

theorem eqv_int (a b : Int) : (int a).eqv (int b) = decide (a = b) := by
  simp [eqv, compare?, extent?, Extent.compare]

theorem isZero_int (a : Int) : (int a).isZero = decide (a = 0) := eqv_int a 0

end Number

end MiniC

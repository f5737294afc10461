import MiniC.Journal
import MiniC.Number
import MiniC.Tree

/-! What ends a run early, in the words that are reported. Faults that the language has no rule for
are reported as unexpected. A ceiling is reported in the journal too; where the host has no stack
left for that, the run ends for want of stack. -/

namespace MiniC.Machine

inductive Fault
  | number (f : Number.Fault)
  | tooDeep
  | unreported (ceiling : Record)
  -- ceilings
  | stepLimit (steps : Nat)
  | callDepth (depth : Nat) (function : String)
  | arrayTooLong (x : String) (length : Int) (limit : Nat)
  | outputLimit (chars : Nat)
  -- declarations
  | scalarBraces (x : String)
  | arrayWithoutBraces (x : String)
  | tooManyItems (x : String) (length : String)
  -- expressions
  | undefinedFunction (function : String)
  | operands (op : BinaryOp) (left right : String)
  | notArray (x : String)
  | indexNotInteger (x : String)
  | indexOutOfBounds (index : String) (x : String) (size : Nat)
  | dangling (pointer : String)
  | notPointer (value : String)
  | noAddress (expr : String)
  | bracesOutside
  | noValue (form : String)
  | cannotNegate (type : String)
  | cannotStep (op : UpdateOp) (type : String)
  -- formats
  | fieldTooWide (part directive : String)
  | numberExpected (conversion : Char) (kind : String)
  | formatCharacter (code : String) (index : Nat) (shown : Char)
  | characterRange
deriving DecidableEq

namespace Fault

def category? : Fault → Option Category
  | number f => f.category?
  | stepLimit _ => some .stepLimit
  | callDepth .. => some .callDepth
  | undefinedFunction _ => some .undefinedFunction
  -- a length with too many digits to be told is an unexpected fault
  | arrayTooLong _ length _ => if (Number.int length).isWritable then some .execution else none
  | tooDeep | unreported _ | cannotNegate _ | cannotStep .. | formatCharacter .. | characterRange =>
    none
  | _ => some .execution

def stepMessage (op : UpdateOp) (type : String) : String :=
  match op with
  | .inc =>
    if type = "str" || type = "list" then s!"can only concatenate {type} (not \"int\") to {type}"
    else s!"unsupported operand type(s) for +: '{type}' and 'int'"
  | .dec => s!"unsupported operand type(s) for -: '{type}' and 'int'"

def lengthMessage (x : String) (length : Int) (limit : Nat) : String :=
  match (Number.int length).write with
  | .ok t => s!"Array '{x}' of size {t} exceeds the limit of {limit}"
  | .error f => f.message

def message : Fault → String
  | number f => f.message
  | tooDeep | unreported _ => "Maximum recursion depth exceeded"
  | stepLimit steps => s!"Execution exceeded {steps} steps (possible infinite loop)"
  | callDepth depth f => s!"Maximum call depth of {depth} exceeded calling {f}()"
  | arrayTooLong x length limit => lengthMessage x length limit
  | outputLimit chars => s!"Output exceeded {chars} characters"
  | scalarBraces x => s!"Cannot initialise scalar '{x}' with a brace list"
  | arrayWithoutBraces x => s!"Array '{x}' must be initialised with a brace list"
  | tooManyItems x length => s!"Too many initializers for '{x}[{length}]'"
  | undefinedFunction f => s!"Function {f} not defined"
  | operands op left right => s!"Unsupported operands for {op.symbol}: {left} and {right}"
  | notArray x => s!"'{x}' is not an array"
  | indexNotInteger x => s!"Array index for '{x}' must be an integer"
  | indexOutOfBounds i x size => s!"Index {i} out of bounds for '{x}' of size {size}"
  | dangling p => s!"Dangling pointer {p}"
  | notPointer v => s!"Cannot dereference non-pointer value {v}"
  | noAddress e => s!"Cannot take the address of {e}"
  | bracesOutside => "Brace lists are only valid in array declarations"
  | noValue form => s!"Cannot evaluate {form}"
  | cannotNegate type => s!"bad operand type for unary -: '{type}'"
  | cannotStep op type => stepMessage op type
  | fieldTooWide part directive => s!"printf: {part} in '{directive}' exceeds 1024"
  | numberExpected conversion kind => s!"printf: %{conversion} expects a number, got {kind}"
  | formatCharacter code i shown =>
    s!"unsupported format character '{shown}' (0x{code}) at index {i}"
  | characterRange => "%c arg not in range(0x110000)"

def isUnexpected : Fault → Bool
  | tooDeep | unreported _ => false
  | f => f.category?.isNone

def report (f : Fault) : String :=
  if f.isUnexpected then "Execution error: " ++ f.message else f.message

end Fault

end MiniC.Machine

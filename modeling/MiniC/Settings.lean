import MiniC.Validation.Integer

/-! Settings: the ceilings of a run and the name of its output function, with the rules they keep.
They are read from given fields or from an environment. -/

namespace MiniC

structure Settings where
  maxSteps : Nat := 100000
  maxCallDepth : Nat := 64
  maxIntBits : Nat := 4096
  maxArrayLength : Nat := 10000
  maxOutputChars : Nat := 1000000
  outputFunction : String := "printf"
deriving DecidableEq

namespace Settings

def title : String := "InterpreterSettings"

def field {α : Type} (fields : String → Option Given) (name : String)
    (rule : Given → Except Rule α) (default : α) :
    α × List Issue :=
  match fields name with
  | none => (default, [])
  | some g => match rule g with
    | .ok a => (a, [])
    | .error r => (default, [⟨name, r, g⟩])

def ofFields (fields : String → Option Given) : Except (List Issue) Settings :=
  let d : Settings := {}
  let steps := field fields "max_steps" (Given.atLeast 1) d.maxSteps
  let depth := field fields "max_call_depth" (Given.atLeast 1) d.maxCallDepth
  let bits := field fields "max_int_bits" (Given.atLeast 64) d.maxIntBits
  let array := field fields "max_array_length" (Given.atLeast 1) d.maxArrayLength
  let output := field fields "max_output_chars" (Given.atLeast 1) d.maxOutputChars
  let function := field fields "output_function" Given.nonemptyText d.outputFunction
  match steps.2 ++ depth.2 ++ bits.2 ++ array.2 ++ output.2 ++ function.2 with
  | [] => .ok ⟨steps.1, depth.1, bits.1, array.1, output.1, function.1⟩
  | issues => .error issues

inductive EnvironmentFault
  | notInteger (text : String) (fault : Decimal.IntFault)
  | issues (issues : List Issue)

namespace EnvironmentFault

def message : EnvironmentFault → String
  | notInteger text .malformed =>
    "invalid literal for int() with base 10: " ++ String.ofList ((Text.quote text).toList.take 200)
  | notInteger _ (.tooLong digits) =>
    s!"Exceeds the limit (4300 digits) for integer string conversion: value has {digits} digits" ++
      "; use sys.set_int_max_str_digits() to increase the limit"
  | issues is => Issue.summary title is

end EnvironmentFault

def integerVariables : List (String × String) :=
  [("MAX_STEPS", "max_steps"), ("MAX_CALL_DEPTH", "max_call_depth"),
    ("MAX_INT_BITS", "max_int_bits"), ("MAX_ARRAY_LENGTH", "max_array_length"),
    ("MAX_OUTPUT_CHARS", "max_output_chars")]

/-- The integer fields that an environment sets; the first that cannot be read ends the reading. -/
def readIntegers (env : String → Option String) :
    List (String × String) → Except EnvironmentFault (List (String × Given))
  | [] => .ok []
  | (v, name) :: rest =>
    match env v with
    | none => readIntegers env rest
    | some s => match Decimal.readInt s.toList with
      | .error f => .error (.notInteger s f)
      | .ok n => do
        let more ← readIntegers env rest
        return (name, .number (.int n)) :: more

def ofEnvironment (env : String → Option String) : Except EnvironmentFault Settings := do
  let integers ← readIntegers env integerVariables
  let fields := match env "OUTPUT_FUNCTION" with
    | some s => ("output_function", Given.text s) :: integers
    | none => integers
  match ofFields fun name => fields.lookup name with
  | .ok s => .ok s
  | .error is => .error (.issues is)

end Settings

end MiniC

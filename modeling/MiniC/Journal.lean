/-! The journal: what reading and running write down on their way, apart from their results. -/

namespace MiniC

inductive Level
  | debug | warning
deriving DecidableEq

inductive Record
  -- of reading
  | reading (tokens : Nat) (isProgram : Bool)
  | nestingLimit (pos : Int)
  -- of running
  | registering (function : String) (params : Nat)
  | calling (function : String) (depth : Nat)
  | leaving (function : String)
  | stepCeiling (steps : Nat)
  | callCeiling (depth : Nat)
  | unexpectedFault
deriving DecidableEq

namespace Record

def level : Record → Level
  | stepCeiling _ | callCeiling _ => .warning
  | _ => .debug

def isOfReading : Record → Bool
  | reading .. | nestingLimit _ => true
  | _ => false

def message : Record → String
  | reading tokens isProgram =>
    s!"Parsing {tokens} tokens as " ++ if isProgram then "program" else "expression"
  | nestingLimit pos => s!"Nesting limit reached at offset {pos}"
  | registering f params => s!"Registering function {f}/{params}"
  | calling f depth => s!"Calling {f} at depth {depth}"
  | leaving f => s!"Leaving {f}"
  | stepCeiling steps => s!"Step ceiling of {steps} reached"
  | callCeiling depth => s!"Call depth ceiling of {depth} reached"
  | unexpectedFault => "Unexpected execution fault"

end Record

end MiniC

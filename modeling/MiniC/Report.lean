import MiniC.Location

/-! Failures as they are reported: a category, a message, and where it points if that is known. The
categories form a tree under the general failure. -/

namespace MiniC

inductive Category
  | failure
  | evaluation | divisionByZero | integerWidth | unsupportedTree | unknownOperator | unboundName
  | execution | undefinedFunction | stepLimit | callDepth
deriving DecidableEq

namespace Category

def all : List Category :=
  [failure, evaluation, divisionByZero, integerWidth, unsupportedTree, unknownOperator, unboundName,
    execution, undefinedFunction, stepLimit, callDepth]

def parent? : Category → Option Category
  | failure => none
  | evaluation | execution => some failure
  | divisionByZero | integerWidth | unsupportedTree | unknownOperator | unboundName =>
    some evaluation
  | undefinedFunction | stepLimit | callDepth => some execution

def ancestry (c : Category) : List Category :=
  match c.parent? with
  | none => [c]
  | some p => match p.parent? with
    | none => [c, p]
    | some q => [c, p, q]

end Category

structure Report where
  category : Category
  message : String
  location : Option Location

namespace Report

def text (r : Report) : String :=
  match r.location with
  | none => r.message
  | some l => l.display ++ "\n" ++ r.message

end Report

end MiniC

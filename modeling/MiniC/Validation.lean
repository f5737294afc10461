import MiniC.Number
import MiniC.Text.Quoted

/-! Rules for values that are given from outside, field by field, and what is said when one is
broken. -/

namespace MiniC

inductive Given
  | number (n : Number)
  | text (s : String)
  | bool (b : Bool)
  | other

namespace Given

def typeWord : Given → String
  | number (.int _) => "int"
  | number (.float _) => "float"
  | text _ => "str"
  | bool _ => "bool"
  | other => "object"

def shown : Given → String
  | number n => n.text
  | text s => Text.quote s
  | bool b => if b then "True" else "False"
  | other => "..."

end Given

inductive Rule
  | notInteger
  | fractional
  | notFinite
  | unreadable
  | tooLong
  | below (least : Nat)
  | notText
  | tooShort
  | noMember (members : List String)
deriving DecidableEq

namespace Rule

def code : Rule → String
  | notInteger => "int_type"
  | fractional => "int_from_float"
  | notFinite => "finite_number"
  | unreadable => "int_parsing"
  | tooLong => "int_parsing_size"
  | below _ => "greater_than_equal"
  | notText => "string_type"
  | tooShort => "string_too_short"
  | noMember _ => "enum"

def choices : List String → String
  | [] => ""
  | [m] => s!"'{m}'"
  | [m, n] => s!"'{m}' or '{n}'"
  | m :: ms => s!"'{m}', " ++ choices ms

def message : Rule → String
  | notInteger => "Input should be a valid integer"
  | fractional => "Input should be a valid integer, got a number with a fractional part"
  | notFinite => "Input should be a finite number"
  | unreadable => "Input should be a valid integer, unable to parse string as an integer"
  | tooLong => "Unable to parse input string as an integer, exceeded maximum size"
  | below least => s!"Input should be greater than or equal to {least}"
  | notText => "Input should be a valid string"
  | tooShort => "String should have at least 1 character"
  | noMember members => "Input should be " ++ choices members

end Rule

def Given.nonemptyText : Given → Except Rule String
  | .text s => if s.isEmpty then .error .tooShort else .ok s
  | _ => .error .notText

structure Issue where
  field : String
  rule : Rule
  given : Given

namespace Issue

def shorten (s : String) : String :=
  let cs := s.toList
  if 50 < cs.length then String.ofList (cs.take 25 ++ "...".toList ++ cs.drop (cs.length - 24))
  else s

def text (i : Issue) : String :=
  i.field ++ "\n  " ++ i.rule.message ++ s!" [type={i.rule.code}, input_value=" ++
    shorten i.given.shown ++ s!", input_type={i.given.typeWord}]"

def summary (title : String) (issues : List Issue) : String :=
  let noun := if issues.length = 1 then "error" else "errors"
  "\n".intercalate (s!"{issues.length} validation {noun} for {title}" :: issues.map text)

end Issue

end MiniC

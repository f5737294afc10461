import MiniC.Validation

/-! Integers that are given from outside. A text writes one in its plain form, or with blanks, a
plus sign, zeros, underscores or empty places around it, which are dropped first. -/

namespace MiniC.Given

/-- An integer in its plain form: digits without a zero in front, behind a minus sign or none. A run
of digits that is too long is found before what follows it. -/
def plainInteger (cs : List Char) : Except Rule Int :=
  let (negative, body) := match cs with
    | '-' :: ds => (true, ds)
    | ds => (false, ds)
  let run := body.takeWhile Text.isAsciiDigit
  if run.head? = some '0' then if body = ['0'] then .ok 0 else .error .unreadable
  else if Decimal.digitLimit < run.length + (if negative then 1 else 0) then .error .tooLong
  else if run.isEmpty || run.length < body.length then .error .unreadable
  else .ok (Decimal.signed negative (Decimal.valueOf (Decimal.digitValues run)))

def dropPlus : List Char → Option (List Char)
  | '+' :: '-' :: _ => none
  | '+' :: cs => some cs
  | cs => some cs

/-- What follows a run of zeros and underscores whose last is `last`: a number, or the places of a
zero, which keeps it. -/
def afterZeros (last : Char) : List Char → Option (List Char)
  | [] => some [last]
  | c :: cs =>
    if c = '0' || c = '_' then afterZeros c cs
    else if c = '.' then some (last :: c :: cs)
    else if c = '-' || Text.isAsciiDigit c then some (c :: cs)
    else none

def dropZeros : List Char → Option (List Char)
  | [] => none
  | c :: cs =>
    if c = '0' then afterZeros c cs
    else if c = '-' || Text.isAsciiDigit c then some (c :: cs)
    else none

def dropPlaces (cs : List Char) : List Char :=
  match cs.dropWhile (· ≠ '.') with
  | _ :: '0' :: ds => if ds.all (· = '0') then cs.takeWhile (· ≠ '.') else cs
  | _ => cs

def dropUnderscores (cs : List Char) : List Char :=
  let atEnd := cs.head? = some '_' || cs.getLast? = some '_'
  let doubled := (cs.zip cs.tail).contains ('_', '_')
  if atEnd || doubled then cs else cs.filter (· ≠ '_')

def tidied? (cs : List Char) : Option (List Char) := do
  let unsigned ← dropPlus (Text.trimBy Text.isNumberBlank cs)
  let digits ← dropZeros unsigned
  return dropUnderscores (dropPlaces digits)

def integerText (cs : List Char) : Except Rule Int :=
  match plainInteger cs with
  | .error .unreadable => match tidied? cs with
    | some ds => plainInteger ds
    | none => .error .unreadable
  | r => r

def integerFloat (x : Float) : Except Rule Int :=
  match Decimal.truncate? x with
  | none => .error .notFinite
  | some n =>
    if !Decimal.isWhole x then .error .fractional
    else if n.natAbs < 2 ^ 63 then .ok n
    else .error .tooLong

def integer : Given → Except Rule Int
  | .number (.int n) => .ok n
  | .number (.float x) => integerFloat x
  | .bool b => .ok (if b then 1 else 0)
  | .text s => integerText s.toList
  | .other => .error .notInteger

def atLeast (least : Nat) (g : Given) : Except Rule Nat := do
  let n ← g.integer
  if n < least then .error (.below least) else .ok n.toNat

end MiniC.Given

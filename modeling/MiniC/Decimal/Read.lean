import MiniC.Decimal.Shortest
import MiniC.Text.Blank
import MiniC.Text.DecimalDigit

/-! Reading written numbers: an integer or a binary64 number with blanks around it, a sign, digits
of any script, and single underscores between digits. -/

namespace MiniC.Decimal

def digitLimit : Nat := 4300

def isDigitMark (c : Char) : Bool := Text.isDecimalDigit c || c = '_'

/-- Every underscore stands between two digits, and there is a digit; `after` says that one stands
in front. -/
def separated (after : Bool) : List Char → Bool
  | [] => after
  | c :: cs => if c = '_' then after && separated false cs else separated true cs

def digitValues (cs : List Char) : List Nat := cs.filterMap Text.digitValue?

def valueOf (ds : List Nat) : Nat := ds.foldl (fun n d => 10 * n + d) 0

def takeSign : List Char → Bool × List Char
  | '-' :: cs => (true, cs)
  | '+' :: cs => (false, cs)
  | cs => (false, cs)

inductive IntFault
  | malformed
  | tooLong (digits : Nat)
deriving DecidableEq

def signed (negative : Bool) (n : Nat) : Int := if negative then -n else n

/-- The integer that a text writes. A run of digits that is too long is found before what follows
it. -/
def readInt (cs : List Char) : Except IntFault Int :=
  let (negative, body) := takeSign (Text.trimBy Text.isNumberBlank cs)
  let run := body.takeWhile isDigitMark
  let ds := digitValues run
  if !separated false run then .error .malformed
  else if digitLimit < ds.length then .error (.tooLong ds.length)
  else if body.dropWhile isDigitMark ≠ [] then .error .malformed
  else .ok (signed negative (valueOf ds))

def readExponent? : List Char → Option Int
  | [] => some 0
  | c :: cs =>
    if c = 'e' || c = 'E' then
      let (negative, run) := takeSign cs
      if run.all isDigitMark && separated false run then
        some (signed negative (valueOf (digitValues run)))
      else none
    else none

/-- The number nearest to `n` times `10 ^ e`. Exponents far outside the range are not computed. -/
def ofScientific (negative : Bool) (n : Nat) (e : Int) : Float :=
  let top := digitCount n + e
  if n = 0 || top < -400 then nearest negative ⟨0, 1⟩
  else if 400 < top then infinity negative
  else nearest negative (.scale n 10 e)

def isRun (cs : List Char) : Bool := cs.isEmpty || separated false cs

def takePlaces : List Char → List Char × List Char
  | '.' :: cs => (cs.takeWhile isDigitMark, cs.dropWhile isDigitMark)
  | cs => ([], cs)

def readFloat? (cs : List Char) : Option Float :=
  let (negative, body) := takeSign (Text.trimBy Text.isNumberBlank cs)
  let whole := body.takeWhile isDigitMark
  let (places, rest) := takePlaces (body.dropWhile isDigitMark)
  if isRun whole && isRun places && !(whole.isEmpty && places.isEmpty) then
    (readExponent? rest).map fun e =>
      let fraction := digitValues places
      ofScientific negative (valueOf (digitValues whole ++ fraction)) (e - fraction.length)
  else none

def ofText? (s : String) : Option Float :=
  if s = "nan" then some notANumber
  else if s = "inf" then some (infinity false)
  else if s = "-inf" then some (infinity true)
  else readFloat? s.toList

end MiniC.Decimal

import MiniC.Machine.Directive
import MiniC.Machine.Display
import MiniC.Number.Arithmetic

/-! Formatted text: a format is copied, and each of its directives is replaced by the next value,
set as the directive says. Values that are missing read as zero. -/

namespace MiniC.Machine

namespace Directive

def maxField : Nat := 1024

def exceeds (ds : List Char) : Bool :=
  let ds := ds.dropWhile (· = '0')
  4 < ds.length || maxField < Decimal.valueOf (Decimal.digitValues ds)

def precisionDigits (d : Directive) : List Char := d.precision.getD []

def checkField (d : Directive) : Except Fault Unit :=
  if exceeds d.width then .error (.fieldTooWide "width" (String.ofList d.text))
  else if exceeds d.precisionDigits then .error (.fieldTooWide "precision" (String.ofList d.text))
  else .ok ()

/-- Fields are set in ASCII digits; a digit of another script is refused where it stands. -/
def checkDigits (d : Directive) : Except Fault Unit :=
  match d.short.findIdx? fun c => Text.isDecimalDigit c && !Text.isAsciiDigit c with
  | none => .ok ()
  | some i =>
    let code := (d.short[i]?).elim 0 (·.toNat)
    .error (.formatCharacter (String.ofList (Nat.toDigits 16 code)) i '?')

def fieldWidth (d : Directive) : Nat := Decimal.valueOf (Decimal.digitValues d.width)

def precisionValue? (d : Directive) : Option Nat :=
  d.precision.map fun ds => Decimal.valueOf (Decimal.digitValues ds)

def spaces (n : Nat) : List Char := List.replicate n ' '

def setText (d : Directive) (cs : List Char) : List Char :=
  let gap := spaces (d.fieldWidth - cs.length)
  if d.has '-' then cs ++ gap else gap ++ cs

structure Numeral where
  sign : List Char
  base : List Char
  digits : List Char

def Numeral.text (t : Numeral) : List Char := t.sign ++ t.base ++ t.digits

def setNumeral (d : Directive) (t : Numeral) : List Char :=
  if d.has '0' && !d.has '-' then
    t.sign ++ t.base ++ Decimal.zeros (d.fieldWidth - t.text.length) ++ t.digits
  else d.setText t.text

def signOf (d : Directive) (negative : Bool) : List Char :=
  if negative then ['-'] else if d.has '+' then ['+'] else if d.has ' ' then [' '] else []

def paddedDigits (d : Directive) (ds : List Char) : List Char :=
  Decimal.zeros (d.precisionValue?.getD 0 - ds.length) ++ ds

def baseMark (d : Directive) (mark : Char) : List Char := if d.has '#' then ['0', mark] else []

def integer (d : Directive) (n : Int) : Except Fault (List Char) :=
  let set (base ds : List Char) := d.setNumeral ⟨d.signOf (n < 0), base, d.paddedDigits ds⟩
  match d.conversion with
  | 'o' => return set (d.baseMark 'o') (Nat.toDigits 8 n.natAbs)
  | 'x' => return set (d.baseMark 'x') (Nat.toDigits 16 n.natAbs)
  | 'X' => return set (d.baseMark 'X') ((Nat.toDigits 16 n.natAbs).map Char.toUpper)
  | _ => do
    let ds ← writeInt n.natAbs
    return set [] ds.toList

def character (d : Directive) (n : Int) : Except Fault (List Char) :=
  if n < 0 || 0x10FFFF < n then .error .characterRange else return d.setText [Char.ofNat n.toNat]

def isUpper (d : Directive) : Bool := d.conversion = 'E' || d.conversion = 'F' || d.conversion = 'G'

def realDigits (d : Directive) (x : Float) : List Char :=
  let places := d.precisionValue?.getD 6
  let mark := if d.isUpper then 'E' else 'e'
  match Decimal.parts x with
  | .nan => if d.isUpper then "NAN".toList else "nan".toList
  | .infinite _ => if d.isUpper then "INF".toList else "inf".toList
  | .finite _ m e =>
    let f := Decimal.Fraction.scale m 2 e
    match d.conversion with
    | 'f' | 'F' => Decimal.fixed (d.has '#') places f
    | 'e' | 'E' => Decimal.exponential mark (d.has '#') places f
    | _ => Decimal.general mark (d.has '#') places f

def real (d : Directive) (x : Float) : List Char :=
  d.setNumeral ⟨d.signOf (Decimal.isNegative x && !x.isNaN), [], d.realDigits x⟩

def number (d : Directive) (n : Number) : Except Fault (List Char) :=
  let lift {α : Type} : Except Number.Fault α → Except Fault α
    | .ok a => .ok a
    | .error f => .error (.number f)
  match d.conversion with
  | 'd' | 'i' | 'u' | 'o' | 'x' | 'X' => do
    let k ← lift n.truncate
    d.checkDigits
    d.integer k
  | 'c' => do
    let k ← lift n.truncate
    d.checkDigits
    d.character k
  | _ => do
    d.checkDigits
    let x ← lift n.toFloat
    return d.real x

def shownText (d : Directive) (t : String) : Except Fault (List Char) := do
  d.checkDigits
  let cs := t.toList
  return d.setText (match d.precisionValue? with
    | none => cs
    | some k => cs.take k)

def apply (s : State) (d : Directive) (v : Value) : Except Fault (List Char) := do
  d.checkField
  match d.conversion with
  | 's' => d.shownText (← s.display depthBudget v)
  | 'p' => d.shownText (← s.plainText v)
  | _ => match v with
    | .number n _ => d.number n
    | v => .error (.numberExpected d.conversion v.kind)

theorem take?_length {cs rest : List Char} {d : Directive} (h : take? cs = some (d, rest)) :
    rest.length ≤ cs.length := by
  have := congrArg List.length (take?_eq_some h)
  simp only [text, List.length_cons, List.length_append] at this
  omega

end Directive

def format (s : State) (cs : List Char) (vs : List Value) : Except Fault (List Char) :=
  match cs with
  | [] => return []
  | c :: cs =>
    if c = '%' then
      match _taken : Directive.take? cs with
      | some (d, rest) =>
        if d.conversion = '%' then do
          let text ← format s rest vs
          return '%' :: text
        else do
          let field ← d.apply s (vs.headD (.int 0))
          let text ← format s rest vs.tail
          return field ++ text
      | none => do
        let text ← format s cs vs
        return c :: text
    else do
      let text ← format s cs vs
      return c :: text
termination_by cs.length
decreasing_by
  all_goals simp only [List.length_cons]
  · have := Directive.take?_length _taken; omega
  · have := Directive.take?_length _taken; omega
  · omega
  · omega

def dropLastNewline (cs : List Char) : List Char :=
  match cs.getLast? with
  | some '\n' => cs.dropLast
  | _ => cs

def displayAll (s : State) (vs : List Value) : Except Fault (List Char) := do
  let ts ← vs.mapM (s.display depthBudget)
  return (" ".intercalate ts).toList

/-- The line that printing values gives. A first argument that was written as a text is a format;
without one the values are set side by side. One line feed at the end is dropped. -/
def outputLine (s : State) (args : List Expr) (vs : List Value) : Except Fault (List Char) :=
  dropLastNewline <$> match args, vs with
    | .string _ :: _, .text t :: vs => format s t.toList vs
    | _, vs => displayAll s vs

end MiniC.Machine

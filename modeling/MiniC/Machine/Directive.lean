import MiniC.Decimal.Read

/-! Format directives: a percent sign, flags, a width, a precision, a length and a conversion. Every
part is taken as long as it goes, and a percent sign that begins no directive stands for itself.
Main statement: a directive and what follows it are the text it was taken from. -/

namespace MiniC.Machine

/-- A directive without its percent sign, as written. -/
structure Directive where
  flags : List Char
  width : List Char
  precision : Option (List Char)
  length : List Char
  conversion : Char
deriving DecidableEq

namespace Directive

def isFlag (c : Char) : Bool := c = '-' || c = '+' || c = ' ' || c = '0' || c = '#'

def conversions : List Char :=
  ['d', 'i', 'u', 'o', 'x', 'X', 'e', 'E', 'f', 'F', 'g', 'G', 'c', 's', 'p', '%']

def takePrecision (cs : List Char) : Option (List Char) × List Char :=
  match cs with
  | '.' :: ds =>
    if ds.takeWhile Text.isDecimalDigit = [] then (none, cs)
    else (some (ds.takeWhile Text.isDecimalDigit), ds.dropWhile Text.isDecimalDigit)
  | _ => (none, cs)

def takeLength : List Char → List Char × List Char
  | 'h' :: 'h' :: cs => (['h', 'h'], cs)
  | 'h' :: cs => (['h'], cs)
  | 'l' :: 'l' :: cs => (['l', 'l'], cs)
  | 'l' :: cs => (['l'], cs)
  | 'L' :: cs => (['L'], cs)
  | 'z' :: cs => (['z'], cs)
  | 'j' :: cs => (['j'], cs)
  | 't' :: cs => (['t'], cs)
  | cs => ([], cs)

def take? (cs : List Char) : Option (Directive × List Char) :=
  let flags := cs.takeWhile isFlag
  let afterFlags := cs.dropWhile isFlag
  let width := afterFlags.takeWhile Text.isDecimalDigit
  let precision := takePrecision (afterFlags.dropWhile Text.isDecimalDigit)
  let length := takeLength precision.2
  match length.2 with
  | c :: rest =>
    if conversions.contains c then some (⟨flags, width, precision.1, length.1, c⟩, rest) else none
  | [] => none

def pointText : Option (List Char) → List Char
  | none => []
  | some ds => '.' :: ds

def text (d : Directive) : List Char :=
  '%' :: (d.flags ++ d.width ++ pointText d.precision ++ d.length ++ [d.conversion])

def short (d : Directive) : List Char := '%' :: (d.flags ++ d.width ++ pointText d.precision)

def has (d : Directive) (flag : Char) : Bool := d.flags.contains flag

theorem takePrecision_eq (cs : List Char) :
    pointText (takePrecision cs).1 ++ (takePrecision cs).2 = cs := by
  unfold takePrecision
  split
  · split <;> simp [pointText]
  · rfl

theorem takeLength_eq (cs : List Char) : (takeLength cs).1 ++ (takeLength cs).2 = cs := by
  unfold takeLength
  split <;> rfl

theorem take?_eq_some {cs rest : List Char} {d : Directive} (h : take? cs = some (d, rest)) :
    '%' :: cs = d.text ++ rest := by
  simp only [take?] at h
  split at h
  · rename_i c r hl
    split at h
    · obtain ⟨rfl, rfl⟩ := Prod.mk.inj (Option.some.inj h)
      have h₁ :=
        takeLength_eq (takePrecision ((cs.dropWhile isFlag).dropWhile Text.isDecimalDigit)).2
      have h₂ := takePrecision_eq ((cs.dropWhile isFlag).dropWhile Text.isDecimalDigit)
      rw [hl] at h₁
      simp only [text, List.cons_append, List.append_assoc, List.nil_append]
      rw [h₁, h₂, List.takeWhile_append_dropWhile, List.takeWhile_append_dropWhile]
    · exact absurd h (by simp)
  · exact absurd h (by simp)

end Directive

end MiniC.Machine

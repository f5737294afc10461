import MiniC.Text.Lines

/-! Places in a text: a line and a column, with up to three lines of the text that end at the place,
and the way they are shown. -/

namespace MiniC

structure Location where
  line : Int
  column : Int
  snippet : Option String
deriving DecidableEq

namespace Location

def header (l : Location) : String := s!"{l.line}:{l.column}"

def gutter (number : Int) : List Char := Text.padLeft 4 (toString number).toList ++ [' ', '|', ' ']

def marker (l : Location) : List Char :=
  List.replicate (((gutter l.line).length : Int) + l.column - 1).toNat ' ' ++ ['^', '^', '^']

def numberFrom (first : Int) : List (List Char) → List (List Char)
  | [] => []
  | cs :: rest => (gutter first ++ cs) :: numberFrom (first + 1) rest

def numberedLines (l : Location) (snippet : List Char) : List (List Char) :=
  let ls := Text.lines snippet
  numberFrom (l.line - ls.length + 1) ls ++ [l.marker]

def display (l : Location) : String :=
  match l.snippet with
  | none => l.header
  | some s =>
    if s.isEmpty then l.header
    else String.ofList (Text.unlines (l.header.toList :: l.numberedLines s.toList))

def clamp (size : Nat) (pos : Int) : Nat := min pos.toNat size

def lineOf (before : List Char) : Nat := before.count '\n' + 1

def columnOf (before : List Char) : Nat := (before.reverse.takeWhile (· ≠ '\n')).length + 1

def lastLines (n line : Nat) (ls : List (List Char)) : List (List Char) :=
  (ls.take line).drop (line - n)

/-- The place of an offset. Offsets outside the text stand for its nearest end. -/
def ofOffset (source : String) (pos : Int) : Location :=
  let cs := source.toList
  let before := cs.take (clamp cs.length pos)
  let line := lineOf before
  ⟨line, columnOf before, some (String.ofList (Text.unlines (lastLines 3 line (Text.lines cs))))⟩

theorem clamp_le (size : Nat) (pos : Int) : clamp size pos ≤ size := Nat.min_le_right _ _

end Location

end MiniC

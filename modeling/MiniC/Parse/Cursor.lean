import MiniC.Parse.Diagnostic
import MiniC.Token

/-! Cursors over tokens, and the steps every production is made of. A cursor stands on a token and
never moves past the last one. -/

namespace MiniC.Parse

structure Cursor where
  current : Token
  rest : List Token

namespace Cursor

def next : Cursor → Cursor
  | ⟨t, []⟩ => ⟨t, []⟩
  | ⟨_, t :: ts⟩ => ⟨t, ts⟩

def endMark : List Token → Token
  | [] => ⟨.eof, "", 0⟩
  | [t] => ⟨.eof, "", t.pos + t.text.length⟩
  | _ :: ts => endMark ts

def withEnd (ts : List Token) : List Token :=
  if (ts.getLast?.map (·.kind)) = some .eof then ts else ts ++ [endMark ts]

def ofTokens (ts : List Token) : Cursor :=
  match withEnd ts with
  | [] => ⟨endMark [], []⟩
  | t :: ts => ⟨t, ts⟩

theorem withEnd_ne_nil (ts : List Token) : withEnd ts ≠ [] := by
  unfold withEnd
  split
  · rename_i h
    rintro rfl
    simp at h
  · simp

end Cursor

abbrev Parser := StateT Cursor (Except Stop)

namespace Parser

def current : Parser Token := do return (← get).current

def advance : Parser Token := do
  let c ← get
  set c.next
  return c.current

def failAt {α : Type} (pos : Int) (cause : Cause) : Parser α := throw (.diagnostic ⟨cause, pos⟩)

def fail {α : Type} (cause : Cause) : Parser α := do failAt (← current).pos cause

def accept (k : Token.Kind) : Parser Bool := do
  if (← current).kind = k then
    let _ ← advance
    return true
  else return false

def acceptText (k : Token.Kind) (text : String) : Parser Bool := do
  if (← current).is k text then
    let _ ← advance
    return true
  else return false

def expect (k : Token.Kind) (cause : Cause) : Parser Token := do
  if (← current).kind = k then advance else fail cause

def manyOver {α : Type} (more : Token → Bool) (item : Parser α) : List Token → Parser (List α)
  | [] => return []
  | _ :: left => do
    if more (← current) then
      let x ← item
      let xs ← manyOver more item left
      return x :: xs
    else return []

/-- Repeats an item while the next token allows it. An item takes a token, so there are no more of
them than tokens left. -/
def many {α : Type} (more : Token → Bool) (item : Parser α) : Parser (List α) := do
  manyOver more item (← get).rest

def commaListOver {α : Type} (close : Token.Kind) (item : Parser α) : List Token → Parser (List α)
  | [] => return []
  | _ :: left => do
    let t ← current
    if t.kind = close || t.kind = .eof then return []
    else
      let x ← item
      if ← accept .comma then
        let xs ← commaListOver close item left
        return x :: xs
      else return [x]

/-- Items between commas up to the closing token, which is left in place; a comma may end the
list. -/
def commaList {α : Type} (close : Token.Kind) (item : Parser α) : Parser (List α) := do
  commaListOver close item (← get).rest

end Parser

end MiniC.Parse

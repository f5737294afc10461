import MiniC.Journal
import MiniC.Parse.Statement
import MiniC.Token.Scan

/-! Reading tokens or text as a tree. Tokens among which there is a word, a semicolon, a brace or a
preprocessor line are read as a program, all others as one expression. -/

namespace MiniC.Parse

/-- How many productions may be nested in one another. -/
def budget : Nat := 1000

def isProgramMarker (t : Token) : Bool :=
  match t.kind with
  | .keyword | .semicolon | .lbrace | .rbrace | .preprocessor => true
  | _ => false

def isProgram (ts : List Token) : Bool := ts.any isProgramMarker

namespace Parser

def tree (n : Nat) (isProgram : Bool) : Parser Tree := do
  if isProgram then return .program (← program n) else return .expr (← expression n .or)

def wholeTree (n : Nat) (isProgram : Bool) : Parser Tree := do
  let t ← tree n isProgram
  let u ← current
  if u.kind = .eof then return t else fail (.trailing u.text)

end Parser

def ofTokens (ts : List Token) : Except Stop Tree :=
  let ts := Cursor.withEnd ts
  match ts.find? (·.kind = .invalid) with
  | some t => .error (.diagnostic ⟨.invalidCharacter t.text, t.pos⟩)
  | none => (·.1) <$> Parser.wholeTree budget (isProgram ts) (Cursor.ofTokens ts)

def ofText (source : String) : Except Stop Tree :=
  if (Text.trim source.toList).isEmpty then .error (.diagnostic ⟨.empty, 0⟩)
  else ofTokens (Token.scan source)

def journal (ts : List Token) (result : Except Stop Tree) : List Record :=
  let ts := Cursor.withEnd ts
  if ts.any (·.kind = .invalid) then []
  else
    .reading ts.length (isProgram ts) ::
      match result with
      | .error (.diagnostic ⟨.tooDeep, pos⟩) => [.nestingLimit pos]
      | _ => []

def readTokens (ts : List Token) : Except Stop Tree × List Record :=
  let result := ofTokens ts
  (result, journal ts result)

def readText (source : String) : Except Stop Tree × List Record :=
  if (Text.trim source.toList).isEmpty then (ofText source, []) else readTokens (Token.scan source)

theorem readText_fst (source : String) : (readText source).1 = ofText source := by
  unfold readText ofText readTokens
  split <;> simp_all

end MiniC.Parse

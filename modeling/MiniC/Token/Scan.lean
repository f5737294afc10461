import MiniC.Text.Blank
import MiniC.Text.DecimalDigit
import MiniC.Token

/-! Scanning: a text is cut into lexemes from left to right, each as long as its class allows. White
space and comments are skipped, a character that begins nothing becomes an invalid token, and the
last token marks the end. Main statement: a lexeme is never empty and never longer than what is
left. -/

namespace MiniC.Token

def isWordStart (c : Char) : Bool := c.isAlpha || c = '_'
def isWordChar (c : Char) : Bool := isWordStart c || Text.isAsciiDigit c

def pairKind? : Char → Char → Option Kind
  | '+', '+' => some .increment
  | '-', '-' => some .decrement
  | '-', '>' => some .arrow
  | '+', '=' | '-', '=' | '*', '=' | '/', '=' | '%', '=' => some .compoundAssign
  | '=', '=' | '!', '=' | '<', '=' | '>', '=' => some .comparison
  | '&', '&' | '|', '|' => some .logical
  | _, _ => none

def singleKind : Char → Kind
  | '+' | '-' | '*' | '/' | '%' | '^' => .operator
  | '<' | '>' => .comparison
  | '!' => .logical
  | '=' => .assign
  | '&' => .ampersand
  | '(' => .lparen
  | ')' => .rparen
  | '\x7b' => .lbrace
  | '\x7d' => .rbrace
  | '[' => .lbracket
  | ']' => .rbracket
  | ';' => .semicolon
  | ',' => .comma
  | ':' => .colon
  | '.' => .dot
  | _ => .invalid

def lineLength (cs : List Char) : Nat := (cs.takeWhile (· ≠ '\n')).length

def commentLength : List Char → Nat
  | [] => 0
  | [_] => 1
  | c :: d :: cs => if c = '*' ∧ d = '/' then 2 else 1 + commentLength (d :: cs)

def quotedLength (q : Char) : List Char → Nat
  | [] => 0
  | [_] => 1
  | c :: d :: cs =>
    if c = q then 1
    else if c = '\\' then 2 + quotedLength q cs
    else 1 + quotedLength q (d :: cs)

def digitsLength (cs : List Char) : Nat := (cs.takeWhile Text.isAsciiDigit).length

def numberLength (cs : List Char) : Nat :=
  let n := digitsLength cs
  match cs.drop n with
  | '.' :: ds => n + 1 + digitsLength ds
  | _ => n

def wordLength (cs : List Char) : Nat := (cs.takeWhile isWordChar).length

def wordKind (cs : List Char) : Kind :=
  if keywords.contains (String.ofList cs) then .keyword else .identifier

structure Lexeme where
  kind? : Option Kind
  size : Nat

def lexeme (c : Char) (cs : List Char) : Lexeme :=
  if Text.isBlank c then ⟨none, 1⟩
  else if c = '#' then ⟨some .preprocessor, 1 + lineLength cs⟩
  else if c = '"' then ⟨some .string, 1 + quotedLength c cs⟩
  else if c = '\x27' then ⟨some .char, 1 + quotedLength c cs⟩
  else if c = '/' ∧ cs.head? = some '/' then ⟨none, 1 + lineLength cs⟩
  else if c = '/' ∧ cs.head? = some '*' then ⟨none, 2 + commentLength cs.tail⟩
  else if Text.isAsciiDigit c then ⟨some .number, 1 + numberLength cs⟩
  else if isWordStart c then
    let n := wordLength cs
    ⟨some (wordKind (c :: cs.take n)), 1 + n⟩
  else match cs.head?.bind (pairKind? c) with
    | some k => ⟨some k, 2⟩
    | none => ⟨some (singleKind c), 1⟩

theorem lineLength_le (cs : List Char) : lineLength cs ≤ cs.length :=
  (List.takeWhile_sublist _).length_le

theorem digitsLength_le (cs : List Char) : digitsLength cs ≤ cs.length :=
  (List.takeWhile_sublist _).length_le

theorem wordLength_le (cs : List Char) : wordLength cs ≤ cs.length :=
  (List.takeWhile_sublist _).length_le

theorem commentLength_le (cs : List Char) : commentLength cs ≤ cs.length := by
  fun_induction commentLength cs with
  | case1 => simp
  | case2 => simp
  | case3 => simp
  | case4 c d cs _ ih => simp only [List.length_cons] at ih ⊢; omega

theorem quotedLength_le (q : Char) (cs : List Char) : quotedLength q cs ≤ cs.length := by
  fun_induction quotedLength q cs with
  | case1 => simp
  | case2 => simp
  | case3 => simp
  | case4 d cs _ ih => simp only [List.length_cons]; omega
  | case5 c d cs _ _ ih => simp only [List.length_cons] at ih ⊢; omega

theorem numberLength_le (cs : List Char) : numberLength cs ≤ cs.length := by
  have h := digitsLength_le cs
  simp only [numberLength]
  split
  · rename_i ds hd
    have hl := congrArg List.length hd
    have := digitsLength_le ds
    simp only [List.length_drop, List.length_cons] at hl
    omega
  · exact h

/-- A lexeme takes at least one character, and no more than there are. -/
theorem lexeme_size (c : Char) (cs : List Char) :
    1 ≤ (lexeme c cs).size ∧ (lexeme c cs).size ≤ cs.length + 1 := by
  have hl := lineLength_le cs
  have hq := quotedLength_le c cs
  have hn := numberLength_le cs
  have hw := wordLength_le cs
  have hc := commentLength_le cs.tail
  simp only [lexeme]
  repeat' split
  all_goals try (dsimp only; omega)
  · rename_i h
    cases cs with
    | nil => simp at h
    | cons d ds => simp only [List.tail_cons, List.length_cons] at hc ⊢; omega
  · rename_i h
    cases cs with
    | nil => simp at h
    | cons d ds => simp

def scanFrom (pos : Nat) : List Char → List Token
  | [] => [⟨.eof, "", pos⟩]
  | c :: cs =>
    let x := lexeme c cs
    let rest := scanFrom (pos + x.size) ((c :: cs).drop x.size)
    match x.kind? with
    | some k => ⟨k, String.ofList ((c :: cs).take x.size), pos⟩ :: rest
    | none => rest
termination_by cs => cs.length
decreasing_by
  have := lexeme_size c cs
  simp only [List.length_drop, List.length_cons]
  omega

/-- The tokens of a text; offsets count from its first character that is not blank. -/
def scan (source : String) : List Token := scanFrom 0 (Text.trim source.toList)

end MiniC.Token

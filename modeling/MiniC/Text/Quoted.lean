import MiniC.Text.Printable

/-! Quoted text: a text between quotes, on one line, with everything unprintable escaped. Single
quotes are used unless the text holds single quotes and no double ones. -/

namespace MiniC.Text

def quoteMark (cs : List Char) : Char :=
  if cs.contains '\x27' && !cs.contains '"' then '"' else '\x27'

def hexTail : Nat → Nat → List Char
  | 0, _ => []
  | width + 1, n => hexTail width (n / 16) ++ [Nat.digitChar (n % 16)]

def escapeCode (n : Nat) : List Char :=
  if n < 0x100 then '\\' :: 'x' :: hexTail 2 n
  else if n < 0x10000 then '\\' :: 'u' :: hexTail 4 n
  else '\\' :: 'U' :: hexTail 8 n

def quotedChar (q c : Char) : List Char :=
  if c = q || c = '\\' then ['\\', c]
  else if c = '\n' then ['\\', 'n']
  else if c = '\r' then ['\\', 'r']
  else if c = '\t' then ['\\', 't']
  else if isPrintable c then [c]
  else escapeCode c.toNat

def quote (s : String) : String :=
  let cs := s.toList
  let q := quoteMark cs
  String.ofList (q :: cs.flatMap (quotedChar q) ++ [q])

end MiniC.Text

/-! Literals of text and characters: what stands between the quotes, with its escapes resolved. -/

namespace MiniC.Machine.Literal

/-- What stands before the closing quote, or all if there is none. A backslash takes the next
character with it. -/
def body (q : Char) : List Char → List Char
  | [] => []
  | [c] => if c = q then [] else [c]
  | c :: d :: cs =>
    if c = q then []
    else if c = '\\' then c :: d :: body q cs
    else c :: body q (d :: cs)

def escape : Char → Char
  | 'n' => '\n'
  | 't' => '\t'
  | 'r' => '\r'
  | '0' => '\x00'
  | 'a' => '\x07'
  | 'b' => '\x08'
  | 'f' => '\x0c'
  | 'v' => '\x0b'
  | c => c

def unescape : List Char → List Char
  | [] => []
  | [c] => [c]
  | c :: d :: cs => if c = '\\' then escape d :: unescape cs else c :: unescape (d :: cs)

def decode : List Char → List Char
  | [] => []
  | q :: cs => unescape (body q cs)

def decodeText (s : String) : String := String.ofList (decode s.toList)

def codeOf (s : String) : Nat :=
  match decode s.toList with
  | [] => 0
  | c :: _ => c.toNat

theorem toNat_lt (c : Char) : c.toNat < 0x110000 := by
  rcases c.valid with h | h
  · exact Nat.lt_trans h (by decide)
  · exact h.2

theorem codeOf_lt (s : String) : codeOf s < 0x110000 := by
  unfold codeOf
  split
  · decide
  · exact toNat_lt _

end MiniC.Machine.Literal

import MiniC.Text.Quoted

/-! Tokens of the language: a kind, the text as written, and the offset where it starts. -/

namespace MiniC

inductive Token.Kind
  | number | string | char
  | identifier | keyword
  | preprocessor
  | operator | assign | compoundAssign | comparison | logical
  | increment | decrement | ampersand | arrow | dot
  | lparen | rparen | lbrace | rbrace | lbracket | rbracket
  | semicolon | comma | colon
  | invalid
  | eof
deriving DecidableEq

structure Token where
  kind : Token.Kind
  text : String
  pos : Int
deriving DecidableEq

namespace Token

namespace Kind

def all : List Kind :=
  [number, string, char, identifier, keyword, preprocessor, operator, assign, compoundAssign,
    comparison, logical, increment, decrement, ampersand, arrow, dot, lparen, rparen, lbrace,
    rbrace, lbracket, rbracket, semicolon, comma, colon, invalid, eof]

def word : Kind → String
  | number => "number" | string => "string" | char => "char"
  | identifier => "identifier" | keyword => "keyword" | preprocessor => "preprocessor"
  | operator => "operator" | assign => "assign" | compoundAssign => "compound_assign"
  | comparison => "comparison" | logical => "logical"
  | increment => "increment" | decrement => "decrement" | ampersand => "ampersand"
  | arrow => "arrow" | dot => "dot"
  | lparen => "lparen" | rparen => "rparen" | lbrace => "lbrace" | rbrace => "rbrace"
  | lbracket => "lbracket" | rbracket => "rbracket"
  | semicolon => "semicolon" | comma => "comma" | colon => "colon"
  | invalid => "invalid" | eof => "eof"

def ofWord? (w : String) : Option Kind := all.find? (·.word = w)

end Kind

def keywords : List String :=
  ["int", "float", "char", "void", "if", "else", "while", "for", "return", "break", "continue",
    "struct", "const", "do", "switch", "case", "default", "double", "long", "short", "unsigned",
    "signed", "sizeof", "static", "extern", "auto", "register", "enum", "union", "typedef",
    "volatile", "goto"]

def is (t : Token) (k : Kind) (text : String) : Bool := t.kind = k && t.text = text

theorem is_iff {t : Token} {k : Kind} {text : String} :
    t.is k text = true ↔ t.kind = k ∧ t.text = text := by
  simp [is]

def listing (t : Token) : String := s!"Token({t.kind.word}, {Text.quote t.text}, pos={t.pos})"

end Token

end MiniC

import MiniC.Parse.Statement

/-! The grammar of the language: which tokens write which tree. Operators of two operands fold to
the left over the tier above, powers to the right over primaries. A list between commas may end with
a comma. An else belongs to the nearest if that is open, so that what stands before it does not end
with an open one. Nothing here bounds how deep trees are nested or how long a number is. -/

namespace MiniC.Grammar

open Parse (Tier isTypeWord)

def writtenInt (cs : List Char) : Int :=
  let (negative, body) := Decimal.takeSign (Text.trimBy Text.isNumberBlank cs)
  Decimal.signed negative
    (Decimal.valueOf (Decimal.digitValues (body.takeWhile Decimal.isDigitMark)))

def literalValue (text : String) : Number :=
  let cs := text.toList
  if cs.contains '.' then .float ((Decimal.readFloat? cs).getD 0) else .int (writtenInt cs)

def isLeft : Tier → Bool
  | .power | .primary => false
  | _ => true

def sign? (t : Token) : Option (Expr → Expr) :=
  if t.is .logical "!" then some (.unary .not)
  else if t.kind = .ampersand then some .addressOf
  else if t.is .operator "*" then some .deref
  else if t.is .operator "-" then some (.unary .neg)
  else if t.is .operator "+" then some (.unary .pos)
  else none

def Updates (t : Token) (op : UpdateOp) : Prop :=
  (t.kind = .increment ∨ t.kind = .decrement) ∧ t.text = op.symbol

/-- A part of an expression: an expression of a tier, the operands of a tier that follow a left one,
with what they make of it, or a list between commas. -/
inductive Phrase
  | tier (tier : Tier) (e : Expr)
  | operands (tier : Tier) (left e : Expr)
  | list (es : List Expr)

inductive Expression : Phrase → List Token → Prop
  | chain {tier : Tier} {left e : Expr} {u v : List Token} : isLeft tier = true →
      Expression (.tier tier.tighter left) u → Expression (.operands tier left e) v →
      Expression (.tier tier e) (u ++ v)
  | done {tier : Tier} {e : Expr} : Expression (.operands tier e e) []
  | operand {tier : Tier} {op : BinaryOp} {t : Token} {left right e : Expr} {u v : List Token} :
      isLeft tier = true → tier.operator? t = some op → Expression (.tier tier.tighter right) u →
      Expression (.operands tier (.binary op left right) e) v →
      Expression (.operands tier left e) (t :: (u ++ v))
  | base {e : Expr} {w : List Token} :
      Expression (.tier .primary e) w → Expression (.tier .power e) w
  | power {t : Token} {left right : Expr} {u v : List Token} :
      Expression (.tier .primary left) u → t.is .operator "^" = true →
      Expression (.tier .power right) v →
      Expression (.tier .power (.binary .pow left right)) (u ++ t :: v)
  | number {t : Token} :
      t.kind = .number → Expression (.tier .primary (.number (literalValue t.text) 0)) [t]
  | string {t : Token} : t.kind = .string → Expression (.tier .primary (.string t.text)) [t]
  | char {t : Token} : t.kind = .char → Expression (.tier .primary (.char t.text)) [t]
  | name {x : Token} : x.kind = .identifier → Expression (.tier .primary (.name x.text)) [x]
  | element {x l r : Token} {i : Expr} {w : List Token} :
      x.kind = .identifier → l.kind = .lbracket →
      Expression (.tier .or i) w → r.kind = .rbracket →
      Expression (.tier .primary (.element x.text i)) (x :: l :: (w ++ [r]))
  | call {x l r : Token} {es : List Expr} {w : List Token} :
      x.kind = .identifier → l.kind = .lparen →
      Expression (.list es) w → r.kind = .rparen →
      Expression (.tier .primary (.call x.text es)) (x :: l :: (w ++ [r]))
  | updateAfter {x t : Token} {op : UpdateOp} : x.kind = .identifier → Updates t op →
      Expression (.tier .primary (.update op x.text false)) [x, t]
  | updateBefore {x t : Token} {op : UpdateOp} : Updates t op → x.kind = .identifier →
      Expression (.tier .primary (.update op x.text true)) [t, x]
  | parentheses {l r : Token} {e : Expr} {w : List Token} :
      l.kind = .lparen → Expression (.tier .or e) w →
      r.kind = .rparen → Expression (.tier .primary e) (l :: (w ++ [r]))
  | signed {t : Token} {make : Expr → Expr} {e : Expr} {w : List Token} : sign? t = some make →
      Expression (.tier .primary e) w → Expression (.tier .primary (make e)) (t :: w)
  | braces {l r : Token} {es : List Expr} {w : List Token} :
      l.kind = .lbrace → Expression (.list es) w →
      r.kind = .rbrace → Expression (.tier .primary (.braces es)) (l :: (w ++ [r]))
  | nil : Expression (.list []) []
  | last {e : Expr} {w : List Token} : Expression (.tier .or e) w → Expression (.list [e]) w
  | cons {t : Token} {e : Expr} {es : List Expr} {u v : List Token} : Expression (.tier .or e) u →
      t.kind = .comma → Expression (.list es) v → Expression (.list (e :: es)) (u ++ t :: v)

inductive Optional : Option Expr → List Token → Prop
  | none : Optional none []
  | some {e : Expr} {w : List Token} : Expression (.tier .or e) w → Optional (some e) w

def Assigns (t : Token) (op : AssignOp) : Prop :=
  (t.kind = .assign ∨ t.kind = .compoundAssign) ∧ t.text = op.symbol

inductive Place : Target → List Token → Prop
  | name {x : Token} : x.kind = .identifier → Place (.name x.text) [x]
  | element {x l r : Token} {i : Expr} {w : List Token} :
      x.kind = .identifier → l.kind = .lbracket →
      Expression (.tier .or i) w → r.kind = .rbracket →
      Place (.element x.text i) (x :: l :: (w ++ [r]))

inductive Simple : Stmt → List Token → Prop
  | assign {t : Token} {op : AssignOp} {target : Target} {e : Expr} {u v : List Token} :
      Place target u → Assigns t op → Expression (.tier .or e) v →
      Simple (.assign target op e) (u ++ t :: v)
  | expr {e : Expr} {w : List Token} : Expression (.tier .or e) w → Simple (.expr e) w

inductive Step : Option Stmt → List Token → Prop
  | none : Step none []
  | some {s : Stmt} {w : List Token} : Simple s w → Step (some s) w

def TypeName (type : String) (w : List Token) : Prop :=
  w ≠ [] ∧ (∀ t ∈ w, isTypeWord t = true) ∧ type = " ".intercalate (w.map (·.text))

def Stars (depth : Nat) (w : List Token) : Prop :=
  (∀ t ∈ w, t.is .operator "*" = true) ∧ depth = w.length

inductive ParameterOf : Parameter → List Token → Prop
  | mk {type : String} {depth : Nat} {x : Token} {u v : List Token} :
      TypeName type u → Stars depth v →
      x.kind = .identifier → ParameterOf ⟨type, x.text, 0 < depth⟩ (u ++ (v ++ [x]))

inductive ParameterList : List Parameter → List Token → Prop
  | last {p : Parameter} {w : List Token} : ParameterOf p w → ParameterList [p] w
  | cons {t : Token} {p : Parameter} {ps : List Parameter} {u v : List Token} : ParameterOf p u →
      t.kind = .comma → ParameterList ps v → ParameterList (p :: ps) (u ++ t :: v)

inductive Parameters : List Parameter → List Token → Prop
  | none : Parameters [] []
  | void {t : Token} : t.is .keyword "void" = true → Parameters [] [t]
  | list {ps : List Parameter} {w : List Token} : ParameterList ps w → Parameters ps w

inductive Brackets : Option (Option Number) → List Token → Prop
  | none : Brackets none []
  | empty {l r : Token} : l.kind = .lbracket → r.kind = .rbracket → Brackets (some none) [l, r]
  | sized {l t r : Token} : l.kind = .lbracket → t.kind = .number → r.kind = .rbracket →
      Brackets (some (some (literalValue t.text))) [l, t, r]

inductive Initialiser : Option Expr → List Token → Prop
  | none : Initialiser none []
  | some {t : Token} {e : Expr} {w : List Token} : t.kind = .assign → Expression (.tier .or e) w →
      Initialiser (some e) (t :: w)

/-- Whether a statement ends with an if that has no else. -/
def endsOpen : Stmt → Bool
  | .branch _ _ none => true
  | .branch _ _ (some no) => endsOpen no
  | .whileLoop _ body | .forLoop _ _ _ body => endsOpen body
  | _ => false

def EndsLabel (t : Token) : Prop := t.kind = .colon ∨ t.kind = .semicolon

/-- A part of a program: a declaration, a statement, what stands first in the header of a for,
statements, or the sections of a switch with their cases and their default. -/
inductive Clause
  | declaration (s : Stmt)
  | statement (s : Stmt)
  | init (s : Option Stmt)
  | statements (ss : List Stmt)
  | sections (cases : List SwitchCase) (otherwise : Option (List Stmt))

inductive Statement : Clause → List Token → Prop
  | declare {type : String} {depth : Nat} {x z : Token} {size : Option (Option Number)}
      {init : Option Expr} {u v a i : List Token} :
      TypeName type u → Stars depth v → x.kind = .identifier → Brackets size a →
      Initialiser init i → z.kind = .semicolon →
      Statement (.declaration (.declare ⟨type, x.text, depth, size.isSome, size.join, init⟩))
        (u ++ (v ++ x :: (a ++ (i ++ [z]))))
  | function {type : String} {depth : Nat} {x l r l' r' : Token} {params : List Parameter}
      {body : List Stmt} {u v p b : List Token} :
      TypeName type u → Stars depth v → x.kind = .identifier → l.kind = .lparen →
      Parameters params p → r.kind = .rparen → l'.kind = .lbrace →
      Statement (.statements body) b → r'.kind = .rbrace →
      Statement (.declaration (.function (type ++ Parse.Parser.starText depth) x.text params body))
        (u ++ (v ++ x :: l :: (p ++ r :: l' :: (b ++ [r']))))
  | declaration {s : Stmt} {w : List Token} :
      Statement (.declaration s) w → Statement (.statement s) w
  | branch {t l r : Token} {c : Expr} {yes : Stmt} {u v : List Token} :
      t.is .keyword "if" = true → l.kind = .lparen → Expression (.tier .or c) u →
      r.kind = .rparen → Statement (.statement yes) v →
      Statement (.statement (.branch c yes none)) (t :: l :: (u ++ r :: v))
  | branchElse {t l r t' : Token} {c : Expr} {yes no : Stmt} {u v w : List Token} :
      t.is .keyword "if" = true → l.kind = .lparen → Expression (.tier .or c) u →
      r.kind = .rparen → Statement (.statement yes) v →
      endsOpen yes = false → t'.is .keyword "else" = true → Statement (.statement no) w →
      Statement (.statement (.branch c yes (some no))) (t :: l :: (u ++ r :: (v ++ t' :: w)))
  | whileLoop {t l r : Token} {c : Expr} {body : Stmt} {u v : List Token} :
      t.is .keyword "while" = true → l.kind = .lparen → Expression (.tier .or c) u →
      r.kind = .rparen → Statement (.statement body) v →
      Statement (.statement (.whileLoop c body)) (t :: l :: (u ++ r :: v))
  | doLoop {t t' l r z : Token} {c : Expr} {body : Stmt} {u v : List Token} :
      t.is .keyword "do" = true → Statement (.statement body) u →
      t'.is .keyword "while" = true → l.kind = .lparen →
      Expression (.tier .or c) v → r.kind = .rparen → z.kind = .semicolon →
      Statement (.statement (.doLoop body c)) (t :: (u ++ t' :: l :: (v ++ [r, z])))
  | forLoop {t l r z : Token} {init step : Option Stmt} {c : Option Expr} {body : Stmt}
      {i u v w : List Token} :
      t.is .keyword "for" = true → l.kind = .lparen → Statement (.init init) i → Optional c u →
      z.kind = .semicolon → Step step v → r.kind = .rparen → Statement (.statement body) w →
      Statement (.statement (.forLoop init c step body))
        (t :: l :: (i ++ (u ++ z :: (v ++ r :: w))))
  | noInit {z : Token} : z.kind = .semicolon → Statement (.init none) [z]
  | declarationInit {s : Stmt} {w : List Token} :
      Statement (.declaration s) w → Statement (.init (some s)) w
  | simpleInit {z : Token} {s : Stmt} {w : List Token} : Simple s w → z.kind = .semicolon →
      Statement (.init (some s)) (w ++ [z])
  | switch {t l r l' r' : Token} {test : Expr} {cases : List SwitchCase}
      {otherwise : Option (List Stmt)} {u v : List Token} :
      t.is .keyword "switch" = true → l.kind = .lparen → Expression (.tier .or test) u →
      r.kind = .rparen → l'.kind = .lbrace → Statement (.sections cases otherwise) v →
      r'.kind = .rbrace →
      Statement (.statement (.switch test cases otherwise))
        (t :: l :: (u ++ r :: l' :: (v ++ [r'])))
  | breakOut {t z : Token} : t.is .keyword "break" = true → z.kind = .semicolon →
      Statement (.statement .breakOut) [t, z]
  | continueOn {t z : Token} : t.is .keyword "continue" = true → z.kind = .semicolon →
      Statement (.statement .continueOn) [t, z]
  | ret {t z : Token} {value : Option Expr} {w : List Token} :
      t.is .keyword "return" = true → Optional value w → z.kind = .semicolon →
      Statement (.statement (.ret value)) (t :: (w ++ [z]))
  | block {l r : Token} {body : List Stmt} {w : List Token} :
      l.kind = .lbrace → Statement (.statements body) w →
      r.kind = .rbrace → Statement (.statement (.block body)) (l :: (w ++ [r]))
  | empty {z : Token} : z.kind = .semicolon → Statement (.statement (.block [])) [z]
  | simple {z : Token} {s : Stmt} {w : List Token} :
      Simple s w → w.head?.map (·.kind) ≠ some .lbrace → z.kind = .semicolon →
      Statement (.statement s) (w ++ [z])
  | nil : Statement (.statements []) []
  | cons {s : Stmt} {ss : List Stmt} {u v : List Token} :
      Statement (.statement s) u → Statement (.statements ss) v →
      Statement (.statements (s :: ss)) (u ++ v)
  | noSections : Statement (.sections [] none) []
  | caseSection {t z : Token} {value : Expr} {body : List Stmt} {cases : List SwitchCase}
      {otherwise : Option (List Stmt)} {u v w : List Token} :
      t.is .keyword "case" = true → Expression (.tier .or value) u → EndsLabel z →
      Statement (.statements body) v → Statement (.sections cases otherwise) w →
      Statement (.sections (.mk value body :: cases) otherwise) (t :: (u ++ z :: (v ++ w)))
  | defaultSection {t z : Token} {body : List Stmt} {cases : List SwitchCase} {v w : List Token} :
      t.is .keyword "default" = true → EndsLabel z → Statement (.statements body) v →
      Statement (.sections cases none) w →
      Statement (.sections cases (some body)) (t :: z :: (v ++ w))

inductive Program : List Stmt → List Token → Prop
  | nil : Program [] []
  | directive {t : Token} {ss : List Stmt} {w : List Token} :
      t.kind = .preprocessor → Program ss w → Program (.preprocessor t.text :: ss) (t :: w)
  | statement {s : Stmt} {ss : List Stmt} {u v : List Token} :
      Statement (.statement s) u → Program ss v → Program (s :: ss) (u ++ v)

end MiniC.Grammar

import MiniC.Parse.Cursor
import MiniC.Tree

/-! Reading expressions. Operators of two operands stand in six tiers, each folded to the left over
the next tighter one; powers fold to the right over primaries. Every production is given the parsers
of its parts, and `expression` ties them together under a budget of nested productions. -/

namespace MiniC.Parse

inductive Tier
  | or | and | equality | relational | additive | multiplicative
  | power
  | primary
deriving DecidableEq

namespace Tier

def tighter : Tier → Tier
  | or => and
  | and => equality
  | equality => relational
  | relational => additive
  | additive => multiplicative
  | multiplicative => power
  | power | primary => primary

def kind : Tier → Token.Kind
  | or | and => .logical
  | equality | relational => .comparison
  | _ => .operator

def ops : Tier → List BinaryOp
  | or => [.or]
  | and => [.and]
  | equality => [.eq, .ne]
  | relational => [.lt, .gt, .le, .ge]
  | additive => [.add, .sub]
  | multiplicative => [.mul, .div, .mod]
  | power => [.pow]
  | primary => []

def operator? (tier : Tier) (t : Token) : Option BinaryOp :=
  if t.kind = tier.kind then tier.ops.find? (·.symbol = t.text) else none

end Tier

namespace Parser

def tooDeep {α : Type} : Parser α := fail .tooDeep

def number? (text : String) : Option Number :=
  let cs := text.toList
  if cs.contains '.' then (Decimal.readFloat? cs).map .float
  else match Decimal.readInt cs with
    | .ok n => some (.int n)
    | .error _ => none

def number (t : Token) : Parser Number :=
  match number? t.text with
  | some n => return n
  | none => failAt t.pos .longNumber

def updateOp (t : Token) : Parser UpdateOp :=
  match UpdateOp.ofSymbol? t.text with
  | some op => return op
  | none => throw (.noOperator .update t.text)

/-- Operands that follow `e`, folded to the left, at most one for each token counted off. -/
def chainOver (operator? : Token → Option BinaryOp) (operand : Parser Expr) :
    List Token → Expr → Parser Expr
  | [], e => return e
  | _ :: left, e => do
    match operator? (← current) with
    | none => return e
    | some op =>
      let _ ← advance
      let right ← operand
      chainOver operator? operand left (.binary op e right)

def chain (operator? : Token → Option BinaryOp) (operand : Parser Expr) : Parser Expr := do
  let e ← operand
  chainOver operator? operand (← get).rest e

def power (base exponent : Parser Expr) : Parser Expr := do
  let left ← base
  if ← acceptText .operator "^" then return .binary .pow left (← exponent) else return left

def index (expr : Parser Expr) : Parser Expr := do
  let i ← expr
  let _ ← expect .rbracket .indexEnd
  return i

def named (expr : Parser Expr) : Parser Expr := do
  let x := (← advance).text
  if ← accept .lbracket then return .element x (← index expr)
  else if ← accept .lparen then
    let args ← commaList .rparen expr
    let _ ← expect .rparen .argumentsEnd
    return .call x args
  else
    let t ← current
    if t.kind = .increment || t.kind = .decrement then
      return .update (← updateOp (← advance)) x false
    else return .name x

def parenthesised (expr : Parser Expr) : Parser Expr := do
  let opening ← advance
  let e ← expr
  let t ← current
  if t.kind = .rparen then
    let _ ← advance
    return e
  else failAt opening.pos (.parenthesisEnd t.pos)

def braces (expr : Parser Expr) : Parser Expr := do
  let _ ← advance
  let items ← commaList .rbrace expr
  let _ ← expect .rbrace .bracesEnd
  return .braces items

def updated : Parser Expr := do
  let t ← advance
  let x ← expect .identifier (.updateName t.text)
  return .update (← updateOp t) x.text true

def signed (make : Expr → Expr) (operand : Parser Expr) : Parser Expr := do
  let _ ← advance
  return make (← operand)

def literal (make : String → Expr) : Parser Expr := do return make (← advance).text

def operatorExpr (text : String) (operand : Parser Expr) : Parser Expr :=
  if text = "*" then signed .deref operand
  else if text = "-" then signed (.unary .neg) operand
  else if text = "+" then signed (.unary .pos) operand
  else fail (.strayOperator text)

def primary (expr operand : Parser Expr) : Parser Expr := do
  let t ← current
  match t.kind with
  | .number => return .number (← number (← advance)) 0
  | .string => literal .string
  | .char => literal .char
  | .increment | .decrement => updated
  | .logical => if t.text = "!" then signed (.unary .not) operand else fail (.noExpression t.text)
  | .ampersand => signed .addressOf operand
  | .identifier => named expr
  | .lparen => parenthesised expr
  | .rparen => fail .strayParenthesis
  | .lbrace => braces expr
  | .operator => operatorExpr t.text operand
  | .eof => fail .endOfInput
  | _ => fail (.noExpression t.text)

def expression : Nat → Tier → Parser Expr
  | 0, _ => tooDeep
  | n + 1, .primary => primary (expression n .or) (expression n .primary)
  | n + 1, .power => power (expression n .primary) (expression n .power)
  | n + 1, tier => chain tier.operator? (expression n tier.tighter)

end Parser

end MiniC.Parse

import MiniC.Location
import MiniC.Text.Blank

/-! Diagnostics: what keeps tokens from being read, where, and what would help. -/

namespace MiniC.Parse

inductive Cause
  | empty
  | invalidCharacter (text : String)
  | trailing (text : String)
  | tooDeep
  -- expressions
  | longNumber
  | updateName (op : String)
  | indexEnd
  | argumentsEnd
  | bracesEnd
  | parenthesisEnd (pos : Int)
  | strayParenthesis
  | strayOperator (text : String)
  | endOfInput
  | noExpression (text : String)
  -- declarations
  | variableName (type : String)
  | sizeEnd
  | declarationEnd (isArray : Bool)
  | parameterType
  | parameterName (type : String)
  | parametersEnd
  | functionBody (name : String)
  -- statements
  | noStatement (text : String)
  | statementEnd
  | jumpEnd (word : String)
  | returnEnd
  | blockEnd
  | conditionStart (word : String)
  | conditionEnd (word : String)
  | doCondition
  | doEnd
  | forStart
  | forConditionEnd
  | forEnd
  | switchStart
  | switchTest
  | switchTestEnd
  | switchBody
  | caseColon
  | defaultColon
  | secondDefault
  | noLabel (text : String)
  | switchEnd
deriving DecidableEq

namespace Cause

def message : Cause → String
  | empty => "Empty expression"
  | invalidCharacter text => s!"Invalid character '{text}'"
  | trailing text => s!"Unexpected token '{text}'"
  | tooDeep => "Input nested too deeply"
  | longNumber => "Number literal too long"
  | updateName op => s!"Expected identifier after '{op}'"
  | indexEnd => "Expected ] after array index"
  | argumentsEnd => "Expected ) after function arguments"
  | bracesEnd => "Missing closing brace"
  | parenthesisEnd _ => "Missing closing parenthesis"
  | strayParenthesis => "Unexpected closing parenthesis"
  | strayOperator text => s!"Expected number or '(' but got operator '{text}'"
  | endOfInput => "Unexpected end of input"
  | noExpression text => s!"Expected number or '(' but got '{text}'"
  | variableName _ => "Expected identifier after type"
  | sizeEnd => "Expected ] after array size"
  | declarationEnd _ => "Missing semicolon"
  | parameterType => "Expected parameter type"
  | parameterName _ => "Expected parameter name"
  | parametersEnd => "Missing closing parenthesis in function declaration"
  | functionBody _ => "Missing function body"
  | noStatement text =>
    if text = "" then "Unexpected end of input" else s!"Unexpected token '{text}'"
  | statementEnd => "Missing semicolon"
  | jumpEnd word => s!"Missing semicolon after {word}"
  | returnEnd => "Missing semicolon after return"
  | blockEnd => "Missing closing brace"
  | conditionStart word => s!"Expected ( after {word}"
  | conditionEnd _ => "Expected ) after condition"
  | doCondition => "Expected 'while' after do body"
  | doEnd => "Missing semicolon after do-while"
  | forStart => "Expected ( after for"
  | forConditionEnd => "Expected ; after for condition"
  | forEnd => "Expected ) after for clauses"
  | switchStart => "Expected ( after switch"
  | switchTest => "Empty switch expression"
  | switchTestEnd => "Expected ) after switch expression"
  | switchBody => "Expected \x7b after switch"
  | caseColon => "Expected : after case value"
  | defaultColon => "Expected : after default"
  | secondDefault => "Duplicate default label"
  | noLabel text => s!"Expected case or default but got '{text}'"
  | switchEnd => "Expected \x7d to close switch"

def hint : Cause → String
  | empty => "Enter an arithmetic expression or C program"
  | invalidCharacter text => s!"Remove '{text}' or use valid characters"
  | trailing _ => "Check for missing operators, semicolons, or braces"
  | tooDeep => "Split the nested expression or block into smaller parts"
  | longNumber => "Use a shorter number"
  | updateName op => s!"Apply {op} to a variable name"
  | indexEnd => "Add ] to close array subscript"
  | argumentsEnd => "Add ) to close function call"
  | bracesEnd => "Add \x7d to close the initializer list"
  | parenthesisEnd pos => s!"Add ')' after position {pos}"
  | strayParenthesis => "Remove extra ) or add matching ( before it"
  | strayOperator _ => "Add a number or expression before the operator"
  | endOfInput => "Complete the expression with a number, variable or ("
  | noExpression _ => "Expression must start with a number or ("
  | variableName type => s!"Add variable name after '{type}'"
  | sizeEnd => "Add ] to close array declaration"
  | declarationEnd isArray =>
    if isArray then "Add ; after array declaration" else "Add ';' after declaration"
  | parameterType => "Start each parameter with a type, e.g. 'int a'"
  | parameterName type => s!"Add a name after '{type}'"
  | parametersEnd => "Add ) after parameters"
  | functionBody name => "Add \x7b ... \x7d after " ++ name ++ "(...)"
  | noStatement _ => "Expected declaration, statement, or expression"
  | statementEnd => "Add ; after statement"
  | jumpEnd word => s!"Add ; after {word}"
  | returnEnd => "Add ; after return statement"
  | blockEnd => "Add \x7d to close block"
  | conditionStart _ => "Add ( before condition"
  | conditionEnd word => s!"Add ) after {word} condition"
  | doCondition => "Add 'while (condition);' after do block"
  | doEnd => "Add ; after while (...)"
  | forStart => "Add ( before for clauses"
  | forConditionEnd => "Add ; after the loop condition"
  | forEnd => "Add ) after for loop header"
  | switchStart => "Add ( before expression"
  | switchTest => "Add an expression inside switch ( )"
  | switchTestEnd => "Add ) after expression"
  | switchBody => "Add \x7b to start switch body"
  | caseColon => "Add : after case value"
  | defaultColon => "Add : after default"
  | secondDefault => "Keep a single default: in each switch"
  | noLabel _ => "Start each switch section with 'case value:' or 'default:'"
  | switchEnd => "Add \x7d to close switch statement"

end Cause

structure Diagnostic where
  cause : Cause
  pos : Int
deriving DecidableEq

namespace Diagnostic

def display (d : Diagnostic) (source : String) : String :=
  let text := String.ofList (Text.trim source.toList)
  (Location.ofOffset text d.pos).display ++ "\n" ++ d.cause.message ++ "\nhint: " ++ d.cause.hint

end Diagnostic

inductive Family
  | assign | update
deriving DecidableEq

/-- Why reading stops: a diagnostic, or a token whose text is no operator of its kind. -/
inductive Stop
  | diagnostic (d : Diagnostic)
  | noOperator (family : Family) (text : String)
deriving DecidableEq

end MiniC.Parse

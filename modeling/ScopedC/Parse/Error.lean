import ScopedC.Token.Lexer
import ScopedC.Scopes
namespace ScopedC

def nestingLimit : Nat := 200

inductive Site where
  | ifKeyword
  | ifCondition
  | whileKeyword
  | whileCondition
  | returnValue
  | breakKeyword
  | continueKeyword
  | expression
  | assignment
  | declaration
  | blockOpen
  | blockClose
  | functionName
  | parameters
  | arguments
deriving DecidableEq, Repr

def Site.words : Site → String
  | .ifKeyword => "after 'if'"
  | .ifCondition => "after if condition"
  | .whileKeyword => "after 'while'"
  | .whileCondition => "after while condition"
  | .returnValue => "after return value"
  | .breakKeyword => "after 'break'"
  | .continueKeyword => "after 'continue'"
  | .expression => "after expression"
  | .assignment => "after assignment"
  | .declaration => "after declaration"
  | .blockOpen => "to open block"
  | .blockClose => "after block"
  | .functionName => "after function name"
  | .parameters => "after parameters"
  | .arguments => "after arguments"

inductive Wanted where
  | punct (p : Punct) (site : Site)
  | identifier
  | type
  | expression
  | statement
deriving DecidableEq, Repr

def Wanted.words : Wanted → String
  | .punct p site => s!"'{p.spelling}' {site.words}"
  | .identifier => "identifier"
  | .type => "type"
  | .expression => "expression"
  | .statement => "statement"

inductive SyntaxError where
  | unexpected (wanted : Wanted) (found : TokenKind)
  | tooDeep
deriving DecidableEq, Repr

def SyntaxError.message : SyntaxError → String
  | .unexpected wanted found => s!"Expected {wanted.words}, found {found.describe}"
  | .tooDeep => s!"nesting too deep (limit {nestingLimit})"

inductive InternalError where
  | scope (e : ScopeError)
  | functionLost (name : String)
deriving DecidableEq, Repr

def InternalError.message : InternalError → String
  | .scope e => e.message
  | .functionLost name => s!"function '{name}' is not in scope after its definition"

inductive ParseError where
  | lex (e : LexError)
  | malformed (e : SyntaxError) (pos : Pos)
  | undefined (name : String) (pos : Pos)
  | internal (e : InternalError)
deriving DecidableEq, Repr

namespace ParseError

def message : ParseError → String
  | .lex e => e.message
  | .malformed e pos => s!"Parse error at {pos.toText}: {e.message}"
  | .undefined name pos => s!"Undefined identifier '{name}' at {pos.toText}"
  | .internal e => s!"Internal error: {e.message}"

def pos? : ParseError → Option Pos
  | .lex e => some e.pos
  | .malformed _ pos | .undefined _ pos => some pos
  | .internal _ => none

end ParseError

end ScopedC

import ScopedC.Parser
import ScopedC.Syntax.Trace
namespace ScopedC

structure Program where
  root : Stmt
  state : ParseState

namespace Program

def initialState (builtins : Bool) : ParseState :=
  let s : ParseState := { scopes := Scopes.root }
  if builtins then s.withBuiltins else s

-- A token list is read up to its first end-of-input token; a list without one ends at its last
-- token's place, and an empty list at line 1, column 1.
def input (toks : List Token) : List Token × Pos :=
  let body := toks.takeWhile (·.kind != .eof)
  match toks.find? (·.kind == .eof), toks.getLast? with
  | some t, _ => (body, t.pos)
  | none, some t => (body, t.pos)
  | none, none => (body, Pos.start)

def parseFrom (s : ParseState) (toks : List Token) : Except Failure Program := do
  let (ts, stop) := input toks
  let ⟨items, s, _, _⟩ ← Parse.programItems stop s ts
  match s.chain items with
  | (some root, s) => pure ⟨root, s⟩
  | (none, s) => throw (Parse.unexpected stop s [] .statement)

def run (s : ParseState) (toks : List Token) :
    Except Fault (Parser.Along (Parser.fromTokens toks) 0 Stmt) :=
  Parser.program .limited (Parser.fromTokens toks) (Parser.start s)

def ofTokens (builtins : Bool) (toks : List Token) : Except ParseError Program :=
  match run (initialState builtins) toks with
  | .ok r => .ok ⟨r.value, r.parser.state⟩
  | .error f => .error f.error

def ofSource (builtins : Bool) (src : String) : Except ParseError Program :=
  match Token.scan src with
  | .error e => .error (.lex e)
  | .ok toks => ofTokens builtins toks

def trace (p : Program) : String := p.root.trace

end Program

end ScopedC

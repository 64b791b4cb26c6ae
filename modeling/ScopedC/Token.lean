import ScopedC.Pos
namespace ScopedC

inductive Keyword where
  | intKw
  | voidKw
  | constKw
  | ifKw
  | elseKw
  | whileKw
  | breakKw
  | continueKw
  | returnKw
deriving DecidableEq, Repr, Inhabited

namespace Keyword

def all : List Keyword :=
  [intKw, voidKw, constKw, ifKw, elseKw, whileKw, breakKw, continueKw, returnKw]

def spelling : Keyword → String
  | intKw => "int"
  | voidKw => "void"
  | constKw => "const"
  | ifKw => "if"
  | elseKw => "else"
  | whileKw => "while"
  | breakKw => "break"
  | continueKw => "continue"
  | returnKw => "return"

def ofWord? (w : String) : Option Keyword := all.find? (·.spelling == w)

def startsType : Keyword → Bool
  | intKw | voidKw | constKw => true
  | _ => false

end Keyword

inductive Punct where
  | plus
  | minus
  | star
  | slash
  | percent
  | eqEq
  | notEq
  | lt
  | le
  | gt
  | ge
  | andAnd
  | orOr
  | bang
  | assign
  | plusAssign
  | minusAssign
  | starAssign
  | slashAssign
  | plusPlus
  | minusMinus
  | lparen
  | rparen
  | lbrace
  | rbrace
  | lbracket
  | rbracket
  | semicolon
  | comma
deriving DecidableEq, Repr, Inhabited

namespace Punct

def all : List Punct :=
  [plus, minus, star, slash, percent, eqEq, notEq, lt, le, gt, ge, andAnd, orOr, bang, assign,
    plusAssign, minusAssign, starAssign, slashAssign, plusPlus, minusMinus, lparen, rparen,
    lbrace, rbrace, lbracket, rbracket, semicolon, comma]

def spelling : Punct → String
  | plus => "+"
  | minus => "-"
  | star => "*"
  | slash => "/"
  | percent => "%"
  | eqEq => "=="
  | notEq => "!="
  | lt => "<"
  | le => "<="
  | gt => ">"
  | ge => ">="
  | andAnd => "&&"
  | orOr => "||"
  | bang => "!"
  | assign => "="
  | plusAssign => "+="
  | minusAssign => "-="
  | starAssign => "*="
  | slashAssign => "/="
  | plusPlus => "++"
  | minusMinus => "--"
  | lparen => "("
  | rparen => ")"
  | lbrace => "\x7b"
  | rbrace => "\x7d"
  | lbracket => "["
  | rbracket => "]"
  | semicolon => ";"
  | comma => ","

def ofSpelling? (s : String) : Option Punct := all.find? (·.spelling == s)

end Punct

inductive TokenKind where
  -- The lexer only makes values that fit in 32 signed bits.
  | num (value : Int)
  | ident (name : String)
  | keyword (k : Keyword)
  | punct (p : Punct)
  | eof
deriving DecidableEq, Repr

-- A read past the end of a token vector, which the parser never makes, gives the end of input.
instance : Inhabited TokenKind := ⟨.eof⟩

def TokenKind.describe : TokenKind → String
  | .num v => s!"int literal {v}"
  | .ident name => s!"identifier '{name}'"
  | .keyword k => s!"'{k.spelling}'"
  | .punct p => s!"'{p.spelling}'"
  | .eof => "end of file"

structure Token where
  kind : TokenKind
  pos : Pos
deriving DecidableEq, Repr, Inhabited

end ScopedC

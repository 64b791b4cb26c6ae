import ScopedC.Token
namespace ScopedC

inductive LexError.Cause where
  -- Also a single `&` or `|`.
  | unexpectedChar (c : Char)
  | noHexDigits
  | outOfRange (digits : String)
  | unterminatedComment
deriving DecidableEq, Repr

structure LexError where
  cause : LexError.Cause
  pos : Pos
deriving DecidableEq, Repr

def LexError.Cause.message : LexError.Cause → String
  | .unexpectedChar c => s!"Unexpected character: '{c}'"
  | .noHexDigits => "Hexadecimal literal has no digits"
  | .outOfRange digits => s!"Integer literal out of range: {digits}"
  | .unterminatedComment => "Unterminated block comment"

def LexError.message (e : LexError) : String :=
  s!"Lexer error at {e.pos.toText}: {e.cause.message}"

namespace Lexer

-- The ASCII whitespace characters other than the vertical tab.
def isBlank (c : Char) : Bool :=
  c = ' ' || c = '\t' || c = '\n' || c = '\x0C' || c = '\r'

def isWordStart (c : Char) : Bool := c.isAlpha || c = '_'

def isWordChar (c : Char) : Bool := c.isAlphanum || c = '_'

def isHexDigit (c : Char) : Bool :=
  c.isDigit || ('a' ≤ c && c ≤ 'f') || ('A' ≤ c && c ≤ 'F')

def digitValue (c : Char) : Nat :=
  if c.isDigit then c.toNat - '0'.toNat
  else if 'a' ≤ c ∧ c ≤ 'f' then c.toNat - 'a'.toNat + 10
  else c.toNat - 'A'.toNat + 10

def numeralValue (base : Nat) (digits : List Char) : Nat :=
  digits.foldl (fun n d => n * base + digitValue d) 0

def maxLiteral : Nat := 2147483647

structure Cut (cs : List Char) where
  taken : List Char
  rest : List Char
  append_eq : taken ++ rest = cs

namespace Cut

def span (f : Char → Bool) (cs : List Char) : Cut cs :=
  ⟨cs.takeWhile f, cs.dropWhile f, List.takeWhile_append_dropWhile⟩

def none (cs : List Char) : Cut cs := ⟨[], cs, rfl⟩

def cons (c : Char) {cs : List Char} (k : Cut cs) : Cut (c :: cs) :=
  ⟨c :: k.taken, k.rest, by simp [k.append_eq]⟩

theorem rest_length_le {cs : List Char} (k : Cut cs) : k.rest.length ≤ cs.length := by
  have h := congrArg List.length k.append_eq
  simp only [List.length_append] at h
  omega

end Cut

def lineComment (cs : List Char) : Cut cs := Cut.span (· != '\n') cs

-- Up to and including the first `*/`.
def closeComment : (cs : List Char) → Option (Cut cs)
  | '*' :: '/' :: r => some ⟨['*', '/'], r, rfl⟩
  | c :: r => (closeComment r).map (Cut.cons c)
  | [] => none

abbrev Lexeme (cs : List Char) := TokenKind × Cut cs

def literal {cs : List Char} (base : Nat) (digits : List Char) (k : Cut cs) :
    Except LexError.Cause (Lexeme cs) :=
  let v := numeralValue base digits
  if v ≤ maxLiteral then .ok (.num v, k) else .error (.outOfRange (String.ofList digits))

def number (c : Char) (cs : List Char) : Except LexError.Cause (Lexeme cs) :=
  match c, cs with
  | '0', x :: r =>
    if x = 'x' ∨ x = 'X' then
      let k := Cut.span isHexDigit r
      if k.taken.isEmpty then .error .noHexDigits else literal 16 k.taken (k.cons x)
    else
      let k := Cut.span Char.isDigit (x :: r)
      literal 10 (c :: k.taken) k
  | _, cs =>
    let k := Cut.span Char.isDigit cs
    literal 10 (c :: k.taken) k

def word (c : Char) (cs : List Char) : Lexeme cs :=
  let k := Cut.span isWordChar cs
  let w := String.ofList (c :: k.taken)
  match Keyword.ofWord? w with
  | some kw => (.keyword kw, k)
  | none => (.ident w, k)

def withAssign (single double : Punct) : (cs : List Char) → Lexeme cs
  | '=' :: r => (.punct double, ⟨['='], r, rfl⟩)
  | cs => (.punct single, Cut.none cs)

def mark (p : Punct) (cs : List Char) : Lexeme cs := (.punct p, Cut.none cs)

def lexeme (c : Char) (cs : List Char) : Except LexError.Cause (Lexeme cs) :=
  if c.isDigit then number c cs
  else if isWordStart c then .ok (word c cs)
  else
    match c, cs with
    | '+', '+' :: r => .ok (.punct .plusPlus, ⟨['+'], r, rfl⟩)
    | '+', r => .ok (withAssign .plus .plusAssign r)
    | '-', '-' :: r => .ok (.punct .minusMinus, ⟨['-'], r, rfl⟩)
    | '-', r => .ok (withAssign .minus .minusAssign r)
    | '*', r => .ok (withAssign .star .starAssign r)
    | '/', r => .ok (withAssign .slash .slashAssign r)
    | '=', r => .ok (withAssign .assign .eqEq r)
    | '!', r => .ok (withAssign .bang .notEq r)
    | '<', r => .ok (withAssign .lt .le r)
    | '>', r => .ok (withAssign .gt .ge r)
    | '&', '&' :: r => .ok (.punct .andAnd, ⟨['&'], r, rfl⟩)
    | '|', '|' :: r => .ok (.punct .orOr, ⟨['|'], r, rfl⟩)
    | '%', r => .ok (mark .percent r)
    | '(', r => .ok (mark .lparen r)
    | ')', r => .ok (mark .rparen r)
    | '\x7b', r => .ok (mark .lbrace r)
    | '\x7d', r => .ok (mark .rbrace r)
    | '[', r => .ok (mark .lbracket r)
    | ']', r => .ok (mark .rbracket r)
    | ';', r => .ok (mark .semicolon r)
    | ',', r => .ok (mark .comma r)
    | c, _ => .error (.unexpectedChar c)

def scanFrom (p : Pos) (cs : List Char) (acc : Array Token) : Except LexError (Array Token) :=
  match cs with
  | [] => .ok (acc.push ⟨.eof, p⟩)
  | c :: r =>
    if isBlank c then scanFrom (p.next c) r acc
    else
      match c, r with
      | '/', '/' :: r' =>
        have := (lineComment r').rest_length_le
        scanFrom (p.skip ('/' :: '/' :: (lineComment r').taken)) (lineComment r').rest acc
      | '/', '*' :: r' =>
        match closeComment r' with
        | none => .error ⟨.unterminatedComment, p⟩
        | some k =>
          have := k.rest_length_le
          scanFrom (p.skip ('/' :: '*' :: k.taken)) k.rest acc
      | c, r =>
        match lexeme c r with
        | .error cause => .error ⟨cause, p⟩
        | .ok (kind, k) =>
          have := k.rest_length_le
          scanFrom (p.skip (c :: k.taken)) k.rest (acc.push ⟨kind, p⟩)
termination_by cs.length

end Lexer

def Token.scan (src : String) : Except LexError (List Token) :=
  (Lexer.scanFrom Pos.start src.toList #[]).map Array.toList

def Token.listText (ts : List Token) : String :=
  ts.foldl (fun out t => out ++ t.pos.toText ++ "\t" ++ t.kind.describe ++ "\n") ""

def Token.listing (src : String) : Except LexError String :=
  (Token.scan src).map Token.listText

end ScopedC

namespace ScopedC

structure Pos where
  line : Nat
  column : Nat
deriving DecidableEq, Repr, Inhabited

namespace Pos

def start : Pos := ⟨1, 1⟩

-- A column counts characters, not bytes; a newline moves to column 1 of the next line.
def next (p : Pos) (c : Char) : Pos :=
  if c = '\n' then ⟨p.line + 1, 1⟩ else ⟨p.line, p.column + 1⟩

def skip (p : Pos) (cs : List Char) : Pos := cs.foldl next p

def toText (p : Pos) : String := s!"line {p.line}, column {p.column}"

@[simp] theorem skip_nil (p : Pos) : p.skip [] = p := rfl

@[simp] theorem skip_cons (p : Pos) (c : Char) (cs : List Char) :
    p.skip (c :: cs) = (p.next c).skip cs := rfl

@[simp] theorem skip_append (p : Pos) (xs ys : List Char) :
    p.skip (xs ++ ys) = (p.skip xs).skip ys := List.foldl_append

end Pos

end ScopedC

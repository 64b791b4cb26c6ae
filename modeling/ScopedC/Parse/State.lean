import ScopedC.Parse.Error
import ScopedC.Syntax
namespace ScopedC

inductive Note where
  | entered (level : Nat)
  | exited (level : Nat)
  | installed (name : String) (level : Nat)
  | redeclared (name : String) (level : Nat)
  | temporary (label : Nat)
deriving DecidableEq, Repr

structure ParseState where
  scopes : Scopes Entry
  nodes : Nat := 0
  labels : Nat := 0
  decls : Nat := 0
  notes : Array Note := #[]
deriving Inhabited

-- A failed parse: why it failed, the state it failed in, and the unread input from the token
-- the failure is about.
structure Failure where
  error : ParseError
  state : ParseState
  rest : List Token

namespace ParseState

def freshNode (s : ParseState) : Nat × ParseState := (s.nodes, { s with nodes := s.nodes + 1 })

def freshLabel (s : ParseState) : Nat × ParseState :=
  (s.labels, { s with labels := s.labels + 1, notes := s.notes.push (.temporary s.labels) })

def bind (s : ParseState) (name : String) (e : Entry) : ParseState :=
  let level := s.scopes.level
  let note := if s.scopes.bindsHere name then Note.redeclared name level else .installed name level
  { s with scopes := s.scopes.install name e, notes := s.notes.push note }

def declare (s : ParseState) (name : String) (ty : Ty) : Entry × ParseState :=
  let e := Entry.ident s.decls name ty s.scopes.level
  (e, { s.bind name e with decls := s.decls + 1 })

def withBuiltins (s : ParseState) : ParseState :=
  Scopes.builtins.foldl (fun s b => { s.bind b.1 (.ident s.decls b.1 b.2 0) with
    decls := s.decls + 1 }) s

def enter (s : ParseState) : ParseState :=
  { s with scopes := s.scopes.enter, notes := s.notes.push (.entered (s.scopes.level + 1)) }

def exit (s : ParseState) (ts : List Token) : Except Failure ParseState :=
  match s.scopes.exit with
  | .ok sc => .ok { s with scopes := sc, notes := s.notes.push (.exited s.scopes.level) }
  | .error e => .error ⟨.internal (.scope e), s, ts⟩

-- A name no open scope binds is an error at its use.
def resolve (s : ParseState) (name : String) (pos : Pos) (ts : List Token) : Except Failure Entry :=
  match s.scopes.lookup name with
  | some e => .ok e
  | none => .error ⟨.undefined name pos, s, ts⟩

def identNode (s : ParseState) (e : Entry) (literal : Option Int) : Ident × ParseState :=
  let (n, s) := s.freshNode
  (⟨n, e, literal⟩, s)

def chain (s : ParseState) (items : List Stmt) : Option Stmt × ParseState :=
  let (root, n) := Stmt.chain items s.nodes
  (root, { s with nodes := n })

end ParseState

structure Step (ts : List Token) (α : Type) where
  value : α
  state : ParseState
  rest : List Token
  shorter : rest.length < ts.length

structure Steps (ts : List Token) (α : Type) where
  value : α
  state : ParseState
  rest : List Token
  le : rest.length ≤ ts.length

def Step.parts {ts : List Token} {α : Type} (x : Step ts α) : α × ParseState × List Token :=
  (x.value, x.state, x.rest)

def Steps.parts {ts : List Token} {α : Type} (x : Steps ts α) : α × ParseState × List Token :=
  (x.value, x.state, x.rest)

def Steps.afterToken {ts : List Token} {α : Type} (t : Token) (x : Steps ts α) :
    Step (t :: ts) α :=
  ⟨x.value, x.state, x.rest, by have := x.le; simp only [List.length_cons]; omega⟩

def Step.afterToken {ts : List Token} {α : Type} (t : Token) (x : Step ts α) :
    Step (t :: ts) α :=
  ⟨x.value, x.state, x.rest, by have := x.shorter; simp only [List.length_cons]; omega⟩

abbrev Shorter (ts : List Token) := { r : List Token // r.length < ts.length }

theorem shorter_trans {ts r r' : List Token} (h : r.length < ts.length)
    (h' : r'.length < r.length) : r'.length < ts.length :=
  Nat.lt_trans h' h

theorem tokens_induction {motive : List Token → Prop} (ts : List Token)
    (shorter : ∀ ts, (∀ ts', ts'.length < ts.length → motive ts') → motive ts) : motive ts := by
  induction hn : ts.length using Nat.strongRecOn generalizing ts with
  | _ n ih => exact shorter ts fun ts' hts' => ih _ (hn ▸ hts') ts' rfl

namespace Parse

-- At the end of the input, the end-of-input token at `stop`.
def peek (stop : Pos) : List Token → Token
  | t :: _ => t
  | [] => ⟨.eof, stop⟩

def failAt (stop : Pos) (s : ParseState) (ts : List Token) (e : SyntaxError) : Failure :=
  ⟨.malformed e (peek stop ts).pos, s, ts⟩

def unexpected (stop : Pos) (s : ParseState) (ts : List Token) (wanted : Wanted) : Failure :=
  failAt stop s ts (.unexpected wanted (peek stop ts).kind)

def deeper (stop : Pos) (depth : Nat) (s : ParseState) (ts : List Token) : Except Failure Nat :=
  if depth < nestingLimit then .ok (depth + 1) else .error (failAt stop s ts .tooDeep)

def atPunct (p : Punct) : List Token → Bool
  | t :: _ => t.kind = .punct p
  | [] => false

def expect (stop : Pos) (s : ParseState) (p : Punct) (site : Site) :
    (ts : List Token) → Except Failure (Shorter ts)
  | t :: r =>
    if t.kind = .punct p then .ok ⟨r, by simp only [List.length_cons]; omega⟩
    else .error (unexpected stop s (t :: r) (.punct p site))
  | [] => .error (unexpected stop s [] (.punct p site))

def expectIdent (stop : Pos) (s : ParseState) :
    (ts : List Token) → Except Failure (String × Shorter ts)
  | ⟨.ident name, _⟩ :: r => .ok (name, ⟨r, by simp only [List.length_cons]; omega⟩)
  | ts => .error (unexpected stop s ts .identifier)

def readType? : (ts : List Token) → Option (Ty × Shorter ts)
  | ⟨.keyword .intKw, _⟩ :: r => some (.int, ⟨r, by simp only [List.length_cons]; omega⟩)
  | ⟨.keyword .voidKw, _⟩ :: r => some (.void, ⟨r, by simp only [List.length_cons]; omega⟩)
  | ⟨.keyword .constKw, _⟩ :: ⟨.keyword .intKw, _⟩ :: r =>
    some (.const, ⟨r, by simp only [List.length_cons]; omega⟩)
  | ⟨.keyword .constKw, _⟩ :: r => some (.const, ⟨r, by simp only [List.length_cons]; omega⟩)
  | _ => none

def type (stop : Pos) (s : ParseState) (ts : List Token) : Except Failure (Ty × Shorter ts) :=
  match readType? ts with
  | some r => .ok r
  | none => .error (unexpected stop s ts .type)

def startsFunction (ts : List Token) : Bool :=
  match readType? ts with
  | some (_, r) =>
    match r.val with
    | ⟨.ident _, _⟩ :: ⟨.punct .lparen, _⟩ :: _ => true
    | _ => false
  | none => false

end Parse

end ScopedC

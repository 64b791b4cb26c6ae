import ScopedC.Entry
namespace ScopedC

abbrev Frame (α : Type) := List (String × α)

-- The current scope and the enclosing ones, innermost first; the root can never be closed.
structure Scopes (α : Type) where
  top : Frame α := []
  outer : List (Frame α) := []
deriving Inhabited

inductive ScopeError where
  | rootExit
deriving DecidableEq, Repr

def ScopeError.message : ScopeError → String
  | .rootExit => "cannot exit the root scope"

namespace Scopes

variable {α : Type}

def root : Scopes α := {}

def level (s : Scopes α) : Nat := s.outer.length

def enter (s : Scopes α) : Scopes α := ⟨[], s.top :: s.outer⟩

def exit (s : Scopes α) : Except ScopeError (Scopes α) :=
  match s.outer with
  | [] => .error .rootExit
  | f :: fs => .ok ⟨f, fs⟩

def install (s : Scopes α) (name : String) (v : α) : Scopes α :=
  { s with top := (name, v) :: s.top }

def bindsHere (s : Scopes α) (name : String) : Bool := (s.top.lookup name).isSome

def lookup (s : Scopes α) (name : String) : Option α :=
  (s.top :: s.outer).findSome? (·.lookup name)

def builtins : List (String × Ty) :=
  [("getint", .func .int []), ("putint", .func .void []), ("putch", .func .void [])]

def seedBuiltins (s : Scopes α) (tag : Entry → α) (next : Nat) : Scopes α × Nat :=
  builtins.foldl (fun (acc : Scopes α × Nat) (b : String × Ty) =>
    (acc.1.install b.1 (tag (.ident acc.2 b.1 b.2 0)), acc.2 + 1)) (s, next)

@[simp] theorem level_enter (s : Scopes α) : s.enter.level = s.level + 1 := rfl

@[simp] theorem level_install (s : Scopes α) (name : String) (v : α) :
    (s.install name v).level = s.level := rfl

theorem exit_enter (s : Scopes α) : s.enter.exit = .ok s := rfl

end Scopes

end ScopedC

import ScopedC.Ty
namespace ScopedC

inductive Entry where
  -- Two uses of a name denote the same declaration exactly when their numbers agree.
  | ident (decl : Nat) (name : String) (ty : Ty) (scope : Nat)
  | const (value : Int)
  | temp (label : Nat)
deriving Repr, Inhabited

namespace Entry

def ty : Entry → Ty
  | ident _ _ t _ => t
  | const _ => .int
  | temp _ => .int

def toText : Entry → String
  | ident _ name _ _ => name
  | const v => toString v
  | temp l => s!"t{l}"

def scopeLevel : Entry → Nat
  | ident _ _ _ s => s
  | _ => 0

def decl? : Entry → Option Nat
  | ident d _ _ _ => some d
  | _ => none

end Entry

end ScopedC

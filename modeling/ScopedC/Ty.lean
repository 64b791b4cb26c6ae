namespace ScopedC

inductive Ty where
  | int
  | void
  | const
  | func (ret : Ty) (params : List Ty)
deriving Repr, Inhabited

namespace Ty

mutual
def toText : Ty → String
  | int => "int"
  | void => "void"
  | const => "const"
  | func ret params => toText ret ++ "(" ++ listText params ++ ")"

def listText : List Ty → String
  | [] => ""
  | [t] => toText t
  | t :: ts => toText t ++ ", " ++ listText ts
end

def isFunction : Ty → Bool
  | func _ _ => true
  | _ => false

mutual
-- Structural equality, written out because the type nests through `List`.
def beq : Ty → Ty → Bool
  | int, int => true
  | void, void => true
  | const, const => true
  | func r ps, func r' ps' => beq r r' && beqList ps ps'
  | _, _ => false

def beqList : List Ty → List Ty → Bool
  | [], [] => true
  | t :: ts, t' :: ts' => beq t t' && beqList ts ts'
  | _, _ => false
end

mutual
theorem eq_of_beq : ∀ {a b : Ty}, beq a b = true → a = b
  | int, int, _ => rfl
  | void, void, _ => rfl
  | const, const, _ => rfl
  | func r ps, func r' ps', h => by
    simp only [beq, Bool.and_eq_true] at h
    rw [eq_of_beq h.1, eq_of_beqList h.2]
  | int, void, h | int, const, h | int, func _ _, h
  | void, int, h | void, const, h | void, func _ _, h
  | const, int, h | const, void, h | const, func _ _, h
  | func _ _, int, h | func _ _, void, h | func _ _, const, h => by simp [beq] at h

theorem eq_of_beqList : ∀ {as bs : List Ty}, beqList as bs = true → as = bs
  | [], [], _ => rfl
  | t :: ts, t' :: ts', h => by
    simp only [beqList, Bool.and_eq_true] at h
    rw [eq_of_beq h.1, eq_of_beqList h.2]
  | [], _ :: _, h | _ :: _, [], h => by simp [beqList] at h
end

mutual
theorem beq_self : ∀ a : Ty, beq a a = true
  | int => rfl
  | void => rfl
  | const => rfl
  | func r ps => by simp [beq, beq_self r, beqList_self ps]

theorem beqList_self : ∀ as : List Ty, beqList as as = true
  | [] => rfl
  | t :: ts => by simp [beqList, beq_self t, beqList_self ts]
end

theorem beq_iff_eq {a b : Ty} : beq a b = true ↔ a = b :=
  ⟨eq_of_beq, fun h => h ▸ beq_self a⟩

instance : DecidableEq Ty := fun _ _ => decidable_of_iff _ beq_iff_eq

end Ty

end ScopedC

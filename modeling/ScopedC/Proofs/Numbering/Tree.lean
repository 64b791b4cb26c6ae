import Mathlib
import ScopedC.Program
-- ids lists the node number of every node of a tree, each node after the nodes below it, and ops
-- lists its operators, each as its node number with its label.
namespace ScopedC

def Below (n : Nat) (l : List Nat) : Prop := ∀ i ∈ l, i < n

namespace Expr

mutual

def ids : Expr → List Nat
  | .binary n _ l r _ => l.ids ++ r.ids ++ [n]
  | .unary n _ a _ => a.ids ++ [n]
  | .ident i => [i.node]
  | .call n _ args => listIds args ++ [n]
  | .lit n _ => [n]

def listIds : List Expr → List Nat
  | [] => []
  | e :: es => e.ids ++ listIds es

end

mutual

def ops : Expr → List (Nat × Nat)
  | .binary n _ l r label => l.ops ++ r.ops ++ [(n, label)]
  | .unary n _ a label => a.ops ++ [(n, label)]
  | .ident _ => []
  | .call _ _ args => listOps args
  | .lit _ _ => []

def listOps : List Expr → List (Nat × Nat)
  | [] => []
  | e :: es => e.ops ++ listOps es

end

mutual

def Ordered : Expr → Prop
  | .binary n _ l r label =>
    l.Ordered ∧ r.Ordered ∧ Below n (l.ids ++ r.ids) ∧ Below label ((l.ops ++ r.ops).map (·.2))
  | .unary n _ a label => a.Ordered ∧ Below n a.ids ∧ Below label (a.ops.map (·.2))
  | .ident _ => True
  | .call n _ args => ListOrdered args ∧ Below n (listIds args)
  | .lit _ _ => True

def ListOrdered : List Expr → Prop
  | [] => True
  | e :: es => e.Ordered ∧ ListOrdered es

end

@[simp] theorem listIds_eq (es : List Expr) : listIds es = es.flatMap ids := by
  induction es with
  | nil => rfl
  | cons e es ih => simp [listIds, ih]

@[simp] theorem listOps_eq (es : List Expr) : listOps es = es.flatMap ops := by
  induction es with
  | nil => rfl
  | cons e es ih => simp [listOps, ih]

@[simp] theorem listOrdered_iff (es : List Expr) : ListOrdered es ↔ ∀ e ∈ es, e.Ordered := by
  induction es with
  | nil => simp [ListOrdered]
  | cons e es ih => simp [ListOrdered, ih]

def optIds : Option Expr → List Nat
  | none => []
  | some e => e.ids

def optOps : Option Expr → List (Nat × Nat)
  | none => []
  | some e => e.ops

def OptOrdered : Option Expr → Prop
  | none => True
  | some e => e.Ordered

mutual

def shift (k j : Nat) : Expr → Expr
  | .binary n op l r label => .binary (n + k) op (l.shift k j) (r.shift k j) (label + j)
  | .unary n op a label => .unary (n + k) op (a.shift k j) (label + j)
  | .ident i => .ident { i with node := i.node + k }
  | .call n callee args => .call (n + k) callee (shiftList k j args)
  | .lit n v => .lit (n + k) v

def shiftList (k j : Nat) : List Expr → List Expr
  | [] => []
  | e :: es => e.shift k j :: shiftList k j es

end

@[simp] theorem shiftList_eq (k j : Nat) (es : List Expr) : shiftList k j es = es.map (shift k j) := by
  induction es with
  | nil => rfl
  | cons e es ih => simp [shiftList, ih]

end Expr

def Param.ids (p : Param) : List Nat := Expr.optIds p.default ++ [p.ident.node]

def Stmt.declIds (items : List (Ident × Option Expr)) : List Nat :=
  items.flatMap fun item => Expr.optIds item.2 ++ [item.1.node]

namespace Stmt

def ids : Stmt → List Nat
  | .seq n first next => first.ids ++ next.ids ++ [n]
  | .block n body => body.ids ++ [n]
  | .emptyBlock n => [n]
  | .decl n items => declIds items ++ [n]
  | .ifThen n c t => c.ids ++ t.ids ++ [n]
  | .ifElse n c t e => c.ids ++ t.ids ++ e.ids ++ [n]
  | .whileLoop n c body => c.ids ++ body.ids ++ [n]
  | .breakLoop n => [n]
  | .continueLoop n => [n]
  | .returnValue n e => e.ids ++ [n]
  | .exprStmt n e => e.ids ++ [n]
  | .assign n target e => target.node :: e.ids ++ [n]
  | .empty n => [n]
  | .funcDef n _ params body => params.flatMap Param.ids ++ body.ids ++ [n]

def ops : Stmt → List (Nat × Nat)
  | .seq _ first next => first.ops ++ next.ops
  | .block _ body => body.ops
  | .emptyBlock _ => []
  | .decl _ items => items.flatMap (Expr.optOps ·.2)
  | .ifThen _ c t => c.ops ++ t.ops
  | .ifElse _ c t e => c.ops ++ t.ops ++ e.ops
  | .whileLoop _ c body => c.ops ++ body.ops
  | .breakLoop _ => []
  | .continueLoop _ => []
  | .returnValue _ e => e.ops
  | .exprStmt _ e => e.ops
  | .assign _ _ e => e.ops
  | .empty _ => []
  | .funcDef _ _ params body => params.flatMap (Expr.optOps ·.default) ++ body.ops

def Ordered : Stmt → Prop
  | .seq n first next => first.Ordered ∧ next.Ordered ∧ Below n (first.ids ++ next.ids)
  | .block n body => body.Ordered ∧ Below n body.ids
  | .emptyBlock _ => True
  | .decl n items => (∀ item ∈ items, Expr.OptOrdered item.2) ∧ Below n (declIds items)
  | .ifThen n c t => c.Ordered ∧ t.Ordered ∧ Below n (c.ids ++ t.ids)
  | .ifElse n c t e => c.Ordered ∧ t.Ordered ∧ e.Ordered ∧ Below n (c.ids ++ t.ids ++ e.ids)
  | .whileLoop n c body => c.Ordered ∧ body.Ordered ∧ Below n (c.ids ++ body.ids)
  | .breakLoop _ => True
  | .continueLoop _ => True
  | .returnValue n e => e.Ordered ∧ Below n e.ids
  | .exprStmt n e => e.Ordered ∧ Below n e.ids
  | .assign n target e => e.Ordered ∧ Below n (target.node :: e.ids)
  | .empty _ => True
  | .funcDef n _ params body =>
    (∀ p ∈ params, Expr.OptOrdered p.default) ∧ body.Ordered ∧
      Below n (params.flatMap Param.ids ++ body.ids)

def shift (k j : Nat) : Stmt → Stmt
  | .seq n first next => .seq (n + k) (first.shift k j) (next.shift k j)
  | .block n body => .block (n + k) (body.shift k j)
  | .emptyBlock n => .emptyBlock (n + k)
  | .decl n items =>
    .decl (n + k) (items.map fun item => ({ item.1 with node := item.1.node + k },
      item.2.map (Expr.shift k j)))
  | .ifThen n c t => .ifThen (n + k) (c.shift k j) (t.shift k j)
  | .ifElse n c t e => .ifElse (n + k) (c.shift k j) (t.shift k j) (e.shift k j)
  | .whileLoop n c body => .whileLoop (n + k) (c.shift k j) (body.shift k j)
  | .breakLoop n => .breakLoop (n + k)
  | .continueLoop n => .continueLoop (n + k)
  | .returnValue n e => .returnValue (n + k) (e.shift k j)
  | .exprStmt n e => .exprStmt (n + k) (e.shift k j)
  | .assign n target e => .assign (n + k) { target with node := target.node + k } (e.shift k j)
  | .empty n => .empty (n + k)
  | .funcDef n entry params body =>
    .funcDef (n + k) entry (params.map fun p => ⟨{ p.ident with node := p.ident.node + k },
      p.default.map (Expr.shift k j)⟩) (body.shift k j)

end Stmt

def Note.shift (j : Nat) : Note → Note
  | .temporary label => .temporary (label + j)
  | note => note

def ParseState.shift (k j : Nat) (s : ParseState) : ParseState :=
  { s with nodes := s.nodes + k, labels := s.labels + j, notes := s.notes.map (Note.shift j) }

def Program.shift (k j : Nat) (p : Program) : Program := ⟨p.root.shift k j, p.state.shift k j⟩

end ScopedC

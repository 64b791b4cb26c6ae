import ScopedC.Entry
namespace ScopedC

inductive BinOp where
  | mul | div | mod | add | sub | lt | gt | le | ge | eq | ne | and | or
deriving DecidableEq, Repr, Inhabited

inductive UnOp where
  | neg | pos | not | preInc | preDec
deriving DecidableEq, Repr, Inhabited

structure Ident where
  node : Nat
  entry : Entry
  literal : Option Int := none
deriving Repr, Inhabited

-- Node numbers are handed out as nodes are finished, so a parent's number is larger than its
-- children's.
inductive Expr where
  | binary (node : Nat) (op : BinOp) (lhs rhs : Expr) (label : Nat)
  | unary (node : Nat) (op : UnOp) (arg : Expr) (label : Nat)
  | ident (i : Ident)
  | call (node : Nat) (callee : Entry) (args : List Expr)
  | lit (node : Nat) (value : Int)
deriving Inhabited

structure Param where
  ident : Ident
  default : Option Expr

inductive Stmt where
  -- Longer runs nest to the right.
  | seq (node : Nat) (first next : Stmt)
  | block (node : Nat) (body : Stmt)
  | emptyBlock (node : Nat)
  | decl (node : Nat) (items : List (Ident × Option Expr))
  | ifThen (node : Nat) (cond : Expr) (thenBranch : Stmt)
  | ifElse (node : Nat) (cond : Expr) (thenBranch elseBranch : Stmt)
  | whileLoop (node : Nat) (cond : Expr) (body : Stmt)
  | breakLoop (node : Nat)
  | continueLoop (node : Nat)
  | returnValue (node : Nat) (value : Expr)
  | exprStmt (node : Nat) (value : Expr)
  | assign (node : Nat) (target : Ident) (value : Expr)
  | empty (node : Nat)
  | funcDef (node : Nat) (entry : Entry) (params : List Param) (body : Stmt)
deriving Inhabited

namespace Expr

def node : Expr → Nat
  | binary n .. | unary n .. | call n .. | lit n _ => n
  | ident i => i.node

def entry : Expr → Entry
  | binary _ _ _ _ l | unary _ _ _ l => .temp l
  | ident i => i.entry
  | call _ callee _ => callee
  | lit _ v => .const v

end Expr

namespace Stmt

def node : Stmt → Nat
  | seq n .. | block n _ | emptyBlock n | decl n _ | ifThen n .. | ifElse n .. | whileLoop n ..
  | breakLoop n | continueLoop n | returnValue n _ | exprStmt n _ | assign n .. | empty n
  | funcDef n .. => n

def statements : Stmt → List Stmt
  | seq _ first next => first.statements ++ next.statements
  | s => [s]

def links : Stmt → List Nat
  | seq n _ next => n :: next.links
  | _ => []

-- Links `last` behind `earlier`, given nearest first, numbering the links from `next` on.
def chainOnto (last : Stmt) : List Stmt → Nat → Stmt × Nat
  | [], n => (last, n)
  | s :: more, n => chainOnto (seq n s last) more (n + 1)

def chain (stmts : List Stmt) (next : Nat) : Option Stmt × Nat :=
  match stmts.reverse with
  | [] => (none, next)
  | last :: earlier =>
    let (s, n) := chainOnto last earlier next
    (some s, n)

@[simp] theorem chainOnto_nil (last : Stmt) (n : Nat) : chainOnto last [] n = (last, n) := rfl

@[simp] theorem chainOnto_cons (last s : Stmt) (more : List Stmt) (n : Nat) :
    chainOnto last (s :: more) n = chainOnto (seq n s last) more (n + 1) := rfl

@[simp] theorem statements_seq (n : Nat) (first next : Stmt) :
    (seq n first next).statements = first.statements ++ next.statements := rfl

@[simp] theorem links_seq (n : Nat) (first next : Stmt) :
    (seq n first next).links = n :: next.links := rfl

theorem chainOnto_next (last : Stmt) (earlier : List Stmt) (n : Nat) :
    (chainOnto last earlier n).2 = n + earlier.length := by
  induction earlier generalizing last n with
  | nil => simp
  | cons s more ih => simp only [chainOnto_cons, ih, List.length_cons]; omega

theorem statements_chainOnto (last : Stmt) (earlier : List Stmt) (n : Nat) :
    (chainOnto last earlier n).1.statements =
      earlier.reverse.flatMap statements ++ last.statements := by
  induction earlier generalizing last n with
  | nil => simp
  | cons s more ih => simp [ih]

theorem links_chainOnto (last : Stmt) (earlier : List Stmt) (n : Nat) :
    (chainOnto last earlier n).1.links = (List.range' n earlier.length).reverse ++ last.links := by
  induction earlier generalizing last n with
  | nil => simp
  | cons s more ih => simp [ih, List.range'_succ]

end Stmt

end ScopedC

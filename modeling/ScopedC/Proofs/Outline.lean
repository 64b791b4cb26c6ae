import ScopedC.Syntax.Trace
-- The outline of a syntax tree: its trace written by plain recursion.
namespace ScopedC

namespace Outline

def pad (n : Nat) : String := String.ofList (List.replicate n ' ')

def line (n : Nat) (text : String) : String := pad n ++ text ++ "\n"

def ident (n : Nat) (i : Ident) : String :=
  line n s!"Id\tname: {i.entry.toText}\tscope: {i.entry.scopeLevel}\ttype: {i.entry.ty.toText}"

mutual

def expr (n : Nat) : Expr → String
  | .binary _ op l r _ =>
    line n s!"BinaryExpr\top: {op.tag}" ++ expr (n + 4) l ++ expr (n + 4) r
  | .unary _ op a _ => line n s!"SingleExpr\top:{op.tag}" ++ expr (n + 4) a
  | .ident i => ident n i
  | .call _ callee args =>
    line n "FunctionExpr:" ++
      line (n + 4) s!"FunctionCall function name: {callee.toText}, type: {callee.ty.toText}" ++
      match args with
      | [] => ""
      | _ => line (n + 8) "ParameterList:" ++ exprs (n + 12) args
  | .lit _ v => line n s!"IntegerLiteral\tvalue: {v}\ttype: int"

def exprs (n : Nat) : List Expr → String
  | [] => ""
  | e :: es => expr n e ++ exprs n es

end

def param (q : Nat) (p : Param) : String :=
  ident q p.ident ++
    match p.ident.literal, p.default with
    | some v, _ => line q s!"value: {v}"
    | none, some d => expr (q + 4) d
    | none, none => ""

def declared (n : Nat) (item : Ident × Option Expr) : String :=
  ident n item.1 ++ item.2.elim "" (expr n)

def stmt (n : Nat) : Stmt → String
  | .seq _ first next => line n "Sequence" ++ stmt (n + 4) first ++ stmt (n + 4) next
  | .block _ b => line n "CompoundStmt" ++ stmt (n + 4) b
  | .emptyBlock _ => line n "EmptyBlock"
  | .decl _ items => line n "DeclStmt" ++ String.join (items.map (declared (n + 4)))
  | .ifThen _ c t => line n "IfStmt" ++ expr (n + 4) c ++ stmt (n + 4) t
  | .ifElse _ c t e =>
    line n "IfElseStmt" ++ expr (n + 4) c ++ stmt (n + 4) t ++ stmt (n + 4) e
  | .whileLoop _ c b => line n "WhileStmt" ++ expr (n + 4) c ++ stmt (n + 4) b
  | .breakLoop _ => line n "BreakStmt"
  | .continueLoop _ => line n "ContinueStmt"
  | .returnValue _ e => line n "ReturnStmt" ++ expr (n + 4) e
  | .exprStmt _ e => line n "ExprStmt" ++ expr (n + 4) e
  | .assign _ t e => line n "AssignStmt" ++ ident (n + 4) t ++ expr (n + 4) e
  | .empty _ => line n "EmptyStmt"
  | .funcDef _ f ps body =>
    line n s!"FunctionDefine function name: {f.toText}, type: {f.ty.toText}" ++
      (match ps with
        | [] => ""
        | _ => line (n + 4) "ParameterList:" ++ String.join (ps.map (param (n + 8)))) ++
      stmt (n + 4) body

end Outline

namespace Trace

theorem spaceRun_toList : spaceRun.toList = List.replicate 64 ' ' := by decide

theorem padding_eq_pad (n : Nat) : padding n = Outline.pad n := by
  induction n using Nat.strongRecOn with
  | ind n ih =>
    rw [padding]
    split
    · next h => simp [h, Outline.pad]
    · next h =>
      have hlen : spaceRun.length = 64 := by decide
      -- a piece of `min n 64` spaces, and `n - min n 64` still to write
      have hrest := ih (n - min n 64) (by omega)
      simp only [hlen, hrest, spaceRun_toList, List.take_replicate, Outline.pad,
        ← String.ofList_append, List.replicate_append_replicate]
      congr 2
      omega

theorem line_eq (n : Nat) (text : String) : line n text = Outline.line n text := by
  rw [line, Outline.line, padding_eq_pad]

theorem ident_eq (n : Nat) (i : Ident) : ident n i = Outline.ident n i := by
  rw [ident, Outline.ident, line_eq]

theorem expr_eq : ∀ (n : Nat) (e : Expr), expr n e = Outline.expr n e := by
  -- along the recursion of `expr` and `exprs`, with the arguments of a call as one list
  refine expr.induct (fun n e => expr n e = Outline.expr n e)
    (fun n es => exprs n es = Outline.exprs n es) ?binary ?unary ?ident ?call ?lit ?nil ?cons
  case binary =>
    intro n _ op l r _ hl hr
    rw [expr, Outline.expr, line_eq, hl, hr]
  case unary =>
    intro n _ op a _ ha
    rw [expr, Outline.expr, line_eq, ha]
  case ident =>
    intro n i
    rw [expr, Outline.expr, ident_eq]
  case call =>
    intro n _ callee args hargs
    cases args with
    | nil => simp only [expr, Outline.expr, line_eq]
    | cons a as => simp only [expr, Outline.expr, line_eq, hargs]
  case lit =>
    intro n _ v
    rw [expr, Outline.expr, line_eq]
  case nil =>
    intro n
    rw [exprs, Outline.exprs]
  case cons =>
    intro n e es he hes
    rw [exprs, Outline.exprs, he, hes]

theorem params_eq (q : Nat) (ps : List Param) :
    params q ps = String.join (ps.map (Outline.param q)) := by
  induction ps with
  | nil => rfl
  | cons p more ih =>
    -- a literal value, another default, or nothing after the name
    rcases p with ⟨⟨node, entry, literal⟩, default⟩
    cases literal with
    | some v => simp [params, Outline.param, ident_eq, line_eq, ih, String.join_cons]
    | none =>
      cases default with
      | some d => simp [params, Outline.param, ident_eq, expr_eq, ih, String.join_cons]
      | none => simp [params, Outline.param, ident_eq, ih, String.join_cons]

theorem decls_eq (n : Nat) (items : List (Ident × Option Expr)) :
    decls n items = String.join (items.map (Outline.declared n)) := by
  induction items with
  | nil => rfl
  | cons item more ih =>
    rcases item with ⟨i, init⟩
    cases init with
    | some e => simp [decls, Outline.declared, ident_eq, expr_eq, ih, String.join_cons]
    | none => simp [decls, Outline.declared, ident_eq, ih, String.join_cons]

theorem spine_last {last : Stmt} (level : Nat) (out : String)
    (h : ∀ node first next, last ≠ .seq node first next) :
    spine level last out = out ++ stmt level last := by
  rw [spine.eq_2 _ _ _ (fun node first next heq => h node first next heq)]

theorem outline_of_last {last : Stmt} (h : ∀ node first next, last ≠ .seq node first next)
    (hlast : ∀ n, stmt n last = Outline.stmt n last) :
    (∀ n, stmt n last = Outline.stmt n last) ∧
      ∀ level out, spine level last out = out ++ Outline.stmt level last :=
  ⟨hlast, fun level out => by rw [spine_last level out h, hlast]⟩

theorem stmt_spine_eq (s : Stmt) :
    (∀ n, stmt n s = Outline.stmt n s) ∧
      ∀ level out, spine level s out = out ++ Outline.stmt level s := by
  -- by induction on the statement: a link's rest is written by the loop, whose invariant is
  -- that it has written `out` and still writes the outline of `current`
  induction s with
  | seq node first next hfirst hnext =>
    refine ⟨fun n => ?_, fun level out => ?_⟩
    · rw [stmt, hnext.2, hfirst.1, line_eq, Outline.stmt]
    · rw [spine, hnext.2, hfirst.1, line_eq, Outline.stmt]
      simp only [String.append_assoc]
  | block node b hb =>
    exact outline_of_last (by simp) fun n => by rw [stmt, Outline.stmt, line_eq, hb.1]
  | emptyBlock node =>
    exact outline_of_last (by simp) fun n => by rw [stmt, Outline.stmt, line_eq]
  | decl node items =>
    exact outline_of_last (by simp) fun n => by rw [stmt, Outline.stmt, line_eq, decls_eq]
  | ifThen node c t ht =>
    exact outline_of_last (by simp) fun n => by rw [stmt, Outline.stmt, line_eq, expr_eq, ht.1]
  | ifElse node c t e ht he =>
    exact outline_of_last (by simp) fun n => by
      rw [stmt, Outline.stmt, line_eq, expr_eq, ht.1, he.1]
  | whileLoop node c b hb =>
    exact outline_of_last (by simp) fun n => by rw [stmt, Outline.stmt, line_eq, expr_eq, hb.1]
  | breakLoop node =>
    exact outline_of_last (by simp) fun n => by rw [stmt, Outline.stmt, line_eq]
  | continueLoop node =>
    exact outline_of_last (by simp) fun n => by rw [stmt, Outline.stmt, line_eq]
  | returnValue node e =>
    exact outline_of_last (by simp) fun n => by rw [stmt, Outline.stmt, line_eq, expr_eq]
  | exprStmt node e =>
    exact outline_of_last (by simp) fun n => by rw [stmt, Outline.stmt, line_eq, expr_eq]
  | assign node t e =>
    exact outline_of_last (by simp) fun n => by
      rw [stmt, Outline.stmt, line_eq, ident_eq, expr_eq]
  | empty node =>
    exact outline_of_last (by simp) fun n => by rw [stmt, Outline.stmt, line_eq]
  | funcDef node f ps body hbody =>
    refine outline_of_last (by simp) fun n => ?_
    -- no `ParameterList:` line for `()`
    cases ps with
    | nil => simp only [stmt, Outline.stmt, line_eq, hbody.1]
    | cons p more => simp only [stmt, Outline.stmt, line_eq, params_eq, hbody.1]

end Trace

theorem render_eq_outline :
    (∀ n, Trace.padding n = Outline.pad n) ∧
      (∀ (n : Nat) (e : Expr), Trace.expr n e = Outline.expr n e) ∧
      (∀ (n : Nat) (s : Stmt), Trace.stmt n s = Outline.stmt n s) ∧
      ∀ root : Stmt, root.trace = "program\n" ++ Outline.stmt 4 root :=
  ⟨Trace.padding_eq_pad, Trace.expr_eq, fun n s => (Trace.stmt_spine_eq s).1 n,
    fun root => by rw [Stmt.trace, (Trace.stmt_spine_eq root).1]⟩

end ScopedC

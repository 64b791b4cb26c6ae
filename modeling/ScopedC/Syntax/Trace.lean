import ScopedC.Syntax
namespace ScopedC

def BinOp.tag : BinOp → String
  | .add => "add"
  | .sub => "sub"
  | .mul => "mul"
  | .div => "div"
  | .mod => "delivery"
  | .and => "and"
  | .or => "or"
  | .lt => "less"
  | .gt => "more"
  | .le => "lesseq"
  | .ge => "moreeq"
  | .eq => "equal"
  | .ne => "unequal"

def UnOp.tag : UnOp → String
  | .neg => "umnus"
  | .pos => "non"
  | .not => "non"
  | .preInc => "inplus"
  | .preDec => "inminus"

namespace Trace

def spaceRun : String := "                                                                "

-- As much of the space run as is still wanted, again and again.
def padding (n : Nat) : String :=
  if n = 0 then ""
  else
    let step := min n spaceRun.length
    String.ofList (spaceRun.toList.take step) ++ padding (n - step)
termination_by n
decreasing_by
  have : spaceRun.length = 64 := by decide
  omega

def line (indent : Nat) (text : String) : String :=
  padding indent ++ text ++ "\n"

def ident (indent : Nat) (i : Ident) : String :=
  line indent s!"Id\tname: {i.entry.toText}\tscope: {i.entry.scopeLevel}\ttype: {i.entry.ty.toText}"

mutual
def expr (indent : Nat) : Expr → String
  | .binary _ op l r _ =>
    line indent s!"BinaryExpr\top: {op.tag}" ++ expr (indent + 4) l ++ expr (indent + 4) r
  | .unary _ op a _ => line indent s!"SingleExpr\top:{op.tag}" ++ expr (indent + 4) a
  | .ident i => ident indent i
  | .call _ callee args =>
    line indent "FunctionExpr:" ++
      line (indent + 4)
        s!"FunctionCall function name: {callee.toText}, type: {callee.ty.toText}" ++
      match args with
      | [] => ""
      | _ => line (indent + 8) "ParameterList:" ++ exprs (indent + 12) args
  | .lit _ v => line indent s!"IntegerLiteral\tvalue: {v}\ttype: int"

def exprs (indent : Nat) : List Expr → String
  | [] => ""
  | e :: es => expr indent e ++ exprs indent es
end

def params (indent : Nat) : List Param → String
  | [] => ""
  | p :: ps =>
    ident indent p.ident ++
      (match p.ident.literal, p.default with
        | some v, _ => line indent s!"value: {v}"
        | none, some d => expr (indent + 4) d
        | none, none => "") ++
      params indent ps

def decls (indent : Nat) : List (Ident × Option Expr) → String
  | [] => ""
  | (i, init) :: more =>
    ident indent i ++ (match init with | some e => expr indent e | none => "") ++
      decls indent more

mutual

def stmt (indent : Nat) : Stmt → String
  | .seq _ first next =>
    spine (indent + 4) next (line indent "Sequence" ++ stmt (indent + 4) first)
  | .block _ b => line indent "CompoundStmt" ++ stmt (indent + 4) b
  | .emptyBlock _ => line indent "EmptyBlock"
  | .decl _ items => line indent "DeclStmt" ++ decls (indent + 4) items
  | .ifThen _ c t => line indent "IfStmt" ++ expr (indent + 4) c ++ stmt (indent + 4) t
  | .ifElse _ c t e =>
    line indent "IfElseStmt" ++ expr (indent + 4) c ++ stmt (indent + 4) t ++
      stmt (indent + 4) e
  | .whileLoop _ c b => line indent "WhileStmt" ++ expr (indent + 4) c ++ stmt (indent + 4) b
  | .breakLoop _ => line indent "BreakStmt"
  | .continueLoop _ => line indent "ContinueStmt"
  | .returnValue _ e => line indent "ReturnStmt" ++ expr (indent + 4) e
  | .exprStmt _ e => line indent "ExprStmt" ++ expr (indent + 4) e
  | .assign _ t e => line indent "AssignStmt" ++ ident (indent + 4) t ++ expr (indent + 4) e
  | .empty _ => line indent "EmptyStmt"
  | .funcDef _ f ps body =>
    line indent s!"FunctionDefine function name: {f.toText}, type: {f.ty.toText}" ++
      (match ps with
        | [] => ""
        | _ => line (indent + 4) "ParameterList:" ++ params (indent + 8) ps) ++
      stmt (indent + 4) body
termination_by s => (sizeOf s, 0)

-- Each further link gives a `Sequence` line and its first statement a step in, one step deeper
-- than the link before.
def spine (level : Nat) (current : Stmt) (out : String) : String :=
  match current with
  | .seq _ first next =>
    spine (level + 4) next (out ++ line level "Sequence" ++ stmt (level + 4) first)
  | last => out ++ stmt level last
termination_by (sizeOf current, 1)

end

end Trace

def Stmt.trace (root : Stmt) : String := "program\n" ++ Trace.stmt 4 root

end ScopedC

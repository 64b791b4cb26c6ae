import ScopedC.Parse.Expr
namespace ScopedC

namespace Raw

-- Expressions as written.
inductive Expr where
  | binary (op : BinOp) (lhs rhs : Expr)
  | unary (op : UnOp) (arg : Expr)
  | name (x : String)
  | call (callee : String) (args : List Expr)
  | lit (value : Int)

-- A formal parameter as written.
structure Param where
  ty : Ty
  name : String
  default : Option Expr

-- Statements as written; a declaration keeps its declarators in source order.
inductive Stmt where
  | block (items : List Stmt)
  | decl (ty : Ty) (declarators : List (String × Option Expr))
  | funcDef (ret : Ty) (name : String) (params : List Param) (body : List Stmt)
  | ifThen (cond : Expr) (thenBranch : Stmt)
  | ifElse (cond : Expr) (thenBranch elseBranch : Stmt)
  | whileLoop (cond : Expr) (body : Stmt)
  | returnValue (value : Expr)
  | breakLoop
  | continueLoop
  | assign (target : String) (value : Expr)
  | exprStmt (value : Expr)
  | empty

-- The value a parameter records when its default is an integer literal.
def Param.literal (p : Param) : Option Int :=
  match p.default with
  | some (.lit v) => some v
  | _ => none

end Raw

namespace Gram

open Parse

mutual

-- `operand { op operand }` at one binary level.
inductive Chain : Level → List Token → Raw.Expr → List Token → Prop
  | mk {lvl : Level} {ts r rest : List Token} {e e' : Raw.Expr} :
      Operand lvl ts e r → Links lvl e r e' rest → Chain lvl ts e' rest

-- The links after the operands so far, which read as `acc`.
inductive Links : Level → Raw.Expr → List Token → Raw.Expr → List Token → Prop
  | nil {lvl : Level} {acc : Raw.Expr} {ts : List Token} : Links lvl acc ts acc ts
  | cons {lvl : Level} {acc e e' : Raw.Expr} {t : Token} {ts r rest : List Token} {op : BinOp} :
      lvl.binOp? t.kind = some op → Operand lvl ts e r → Links lvl (.binary op acc e) r e' rest →
      Links lvl acc (t :: ts) e' rest

-- An operand of a level: a chain of the next tighter level, or a prefix expression.
inductive Operand : Level → List Token → Raw.Expr → List Token → Prop
  | tighter {lvl l : Level} {ts rest : List Token} {e : Raw.Expr} :
      lvl.tighter? = some l → Chain l ts e rest → Operand lvl ts e rest
  | unary {lvl : Level} {ts rest : List Token} {e : Raw.Expr} :
      lvl.tighter? = none → Unary ts e rest → Operand lvl ts e rest

inductive Unary : List Token → Raw.Expr → List Token → Prop
  | prefixed {t : Token} {ts rest : List Token} {op : UnOp} {e : Raw.Expr} :
      prefixOp? t.kind = some op → Unary ts e rest → Unary (t :: ts) (.unary op e) rest
  | primary {ts rest : List Token} {e : Raw.Expr} : Primary ts e rest → Unary ts e rest

inductive Primary : List Token → Raw.Expr → List Token → Prop
  | lit {v : Int} {p : Pos} {rest : List Token} : Primary (⟨.num v, p⟩ :: rest) (.lit v) rest
  | name {x : String} {p : Pos} {rest : List Token} : Primary (⟨.ident x, p⟩ :: rest) (.name x) rest
  | call {f : String} {p q : Pos} {ts rest : List Token} {args : List Raw.Expr} :
      CallArgs ts args rest → Primary (⟨.ident f, p⟩ :: ⟨.punct .lparen, q⟩ :: ts) (.call f args) rest
  | paren {p q : Pos} {ts rest : List Token} {e : Raw.Expr} :
      Chain .or ts e (⟨.punct .rparen, q⟩ :: rest) → Primary (⟨.punct .lparen, p⟩ :: ts) e rest

-- What follows `f(`: the arguments, if any, and `)`.
inductive CallArgs : List Token → List Raw.Expr → List Token → Prop
  | none {p : Pos} {rest : List Token} : CallArgs (⟨.punct .rparen, p⟩ :: rest) [] rest
  | some {p : Pos} {ts rest : List Token} {args : List Raw.Expr} :
      Args ts args (⟨.punct .rparen, p⟩ :: rest) → CallArgs ts args rest

-- Expressions separated by commas.
inductive Args : List Token → List Raw.Expr → List Token → Prop
  | one {ts rest : List Token} {e : Raw.Expr} : Chain .or ts e rest → Args ts [e] rest
  | cons {p : Pos} {ts r rest : List Token} {e : Raw.Expr} {es : List Raw.Expr} :
      Chain .or ts e (⟨.punct .comma, p⟩ :: r) → Args r es rest → Args ts (e :: es) rest

end

-- `int`, `void`, `const` or `const int`.
inductive TypeName : List Token → Ty → List Token → Prop
  | int {p : Pos} {rest : List Token} : TypeName (⟨.keyword .intKw, p⟩ :: rest) .int rest
  | void {p : Pos} {rest : List Token} : TypeName (⟨.keyword .voidKw, p⟩ :: rest) .void rest
  | const {p : Pos} {rest : List Token} : TypeName (⟨.keyword .constKw, p⟩ :: rest) .const rest
  | constInt {p q : Pos} {rest : List Token} :
      TypeName (⟨.keyword .constKw, p⟩ :: ⟨.keyword .intKw, q⟩ :: rest) .const rest

-- An optional `= expr`.
inductive Init : List Token → Option Raw.Expr → List Token → Prop
  | none {ts : List Token} : Init ts none ts
  | some {p : Pos} {ts rest : List Token} {e : Raw.Expr} :
      Chain .or ts e rest → Init (⟨.punct .assign, p⟩ :: ts) (some e) rest

-- `name [= expr] { , name [= expr] }`.
inductive Declarators : List Token → List (String × Option Raw.Expr) → List Token → Prop
  | one {x : String} {p : Pos} {ts rest : List Token} {i : Option Raw.Expr} :
      Init ts i rest → Declarators (⟨.ident x, p⟩ :: ts) [(x, i)] rest
  | cons {x : String} {p q : Pos} {ts r rest : List Token} {i : Option Raw.Expr}
      {ds : List (String × Option Raw.Expr)} :
      Init ts i (⟨.punct .comma, q⟩ :: r) → Declarators r ds rest →
      Declarators (⟨.ident x, p⟩ :: ts) ((x, i) :: ds) rest

-- `type name [= expr] { , type name [= expr] }`.
inductive Params : List Token → List Raw.Param → List Token → Prop
  | one {ty : Ty} {x : String} {p : Pos} {ts r rest : List Token} {i : Option Raw.Expr} :
      TypeName ts ty (⟨.ident x, p⟩ :: r) → Init r i rest → Params ts [⟨ty, x, i⟩] rest
  | cons {ty : Ty} {x : String} {p q : Pos} {ts r r' rest : List Token} {i : Option Raw.Expr}
      {ps : List Raw.Param} :
      TypeName ts ty (⟨.ident x, p⟩ :: r) → Init r i (⟨.punct .comma, q⟩ :: r') → Params r' ps rest →
      Params ts (⟨ty, x, i⟩ :: ps) rest

-- The parameters between a function's parentheses: none when `)` follows at once.
inductive ParamList : List Token → List Raw.Param → List Token → Prop
  | none {p : Pos} {rest : List Token} :
      ParamList (⟨.punct .rparen, p⟩ :: rest) [] (⟨.punct .rparen, p⟩ :: rest)
  | some {ts rest : List Token} {ps : List Raw.Param} : Params ts ps rest → ParamList ts ps rest

-- Whether the tokens start with `else`.
def startsElse : List Token → Bool
  | ⟨.keyword .elseKw, _⟩ :: _ => true
  | _ => false

mutual

inductive Statement : List Token → Raw.Stmt → List Token → Prop
  | decl {ty : Ty} {ds : List (String × Option Raw.Expr)} {p : Pos} {ts r rest : List Token} :
      TypeName ts ty r → Declarators r ds (⟨.punct .semicolon, p⟩ :: rest) →
      Statement ts (.decl ty ds) rest
  | funcDef {ret : Ty} {f : String} {ps : List Raw.Param} {body : List Raw.Stmt} {p q q' : Pos}
      {ts r r' rest : List Token} :
      TypeName ts ret (⟨.ident f, p⟩ :: ⟨.punct .lparen, q⟩ :: r) →
      ParamList r ps (⟨.punct .rparen, q'⟩ :: r') → Block r' body rest →
      Statement ts (.funcDef ret f ps body) rest
  | block {ts rest : List Token} {items : List Raw.Stmt} :
      Block ts items rest → Statement ts (.block items) rest
  | ifThen {c : Raw.Expr} {t : Raw.Stmt} {p q q' : Pos} {ts r rest : List Token} :
      Chain .or ts c (⟨.punct .rparen, q'⟩ :: r) → Statement r t rest → startsElse rest = false →
      Statement (⟨.keyword .ifKw, p⟩ :: ⟨.punct .lparen, q⟩ :: ts) (.ifThen c t) rest
  | ifElse {c : Raw.Expr} {t e : Raw.Stmt} {p q q' p' : Pos} {ts r r' rest : List Token} :
      Chain .or ts c (⟨.punct .rparen, q'⟩ :: r) → Statement r t (⟨.keyword .elseKw, p'⟩ :: r') →
      Statement r' e rest →
      Statement (⟨.keyword .ifKw, p⟩ :: ⟨.punct .lparen, q⟩ :: ts) (.ifElse c t e) rest
  | whileLoop {c : Raw.Expr} {b : Raw.Stmt} {p q q' : Pos} {ts r rest : List Token} :
      Chain .or ts c (⟨.punct .rparen, q'⟩ :: r) → Statement r b rest →
      Statement (⟨.keyword .whileKw, p⟩ :: ⟨.punct .lparen, q⟩ :: ts) (.whileLoop c b) rest
  | returnValue {e : Raw.Expr} {p q : Pos} {ts rest : List Token} :
      Chain .or ts e (⟨.punct .semicolon, q⟩ :: rest) →
      Statement (⟨.keyword .returnKw, p⟩ :: ts) (.returnValue e) rest
  | breakLoop {p q : Pos} {rest : List Token} :
      Statement (⟨.keyword .breakKw, p⟩ :: ⟨.punct .semicolon, q⟩ :: rest) .breakLoop rest
  | continueLoop {p q : Pos} {rest : List Token} :
      Statement (⟨.keyword .continueKw, p⟩ :: ⟨.punct .semicolon, q⟩ :: rest) .continueLoop rest
  | assign {x : String} {e : Raw.Expr} {p q q' : Pos} {ts rest : List Token} :
      Chain .or ts e (⟨.punct .semicolon, q'⟩ :: rest) →
      Statement (⟨.ident x, p⟩ :: ⟨.punct .assign, q⟩ :: ts) (.assign x e) rest
  | exprStmt {e : Raw.Expr} {q : Pos} {ts rest : List Token} :
      Chain .or ts e (⟨.punct .semicolon, q⟩ :: rest) → Statement ts (.exprStmt e) rest
  | empty {p : Pos} {rest : List Token} : Statement (⟨.punct .semicolon, p⟩ :: rest) .empty rest

-- `{ stmt* }`.
inductive Block : List Token → List Raw.Stmt → List Token → Prop
  | mk {p q : Pos} {ts rest : List Token} {items : List Raw.Stmt} :
      Items ts items (⟨.punct .rbrace, q⟩ :: rest) → Block (⟨.punct .lbrace, p⟩ :: ts) items rest

-- `stmt*`.
inductive Items : List Token → List Raw.Stmt → List Token → Prop
  | nil {ts : List Token} : Items ts [] ts
  | cons {ts r rest : List Token} {s : Raw.Stmt} {ss : List Raw.Stmt} :
      Statement ts s r → Items r ss rest → Items ts (s :: ss) rest

end

-- `program ::= stmt+`: the tokens are exactly one or more statements.
def Sentence (ts : List Token) (items : List Raw.Stmt) : Prop :=
  Items ts items [] ∧ items ≠ []

-- What follows a phrase is a suffix of the tokens the phrase starts.

mutual

theorem Chain.suffix {lvl : Level} {ts rest : List Token} {e : Raw.Expr} :
    Chain lvl ts e rest → rest <:+ ts
  | .mk o l => l.suffix.trans o.suffix

theorem Links.suffix {lvl : Level} {acc e : Raw.Expr} {ts rest : List Token} :
    Links lvl acc ts e rest → rest <:+ ts
  | .nil => List.suffix_refl _
  | .cons _ o l => (l.suffix.trans o.suffix).trans (List.suffix_cons _ _)

theorem Operand.suffix {lvl : Level} {ts rest : List Token} {e : Raw.Expr} :
    Operand lvl ts e rest → rest <:+ ts
  | .tighter _ c => c.suffix
  | .unary _ u => u.suffix

theorem Unary.suffix {ts rest : List Token} {e : Raw.Expr} : Unary ts e rest → rest <:+ ts
  | .prefixed _ u => u.suffix.trans (List.suffix_cons _ _)
  | .primary p => p.suffix

theorem Primary.suffix {ts rest : List Token} {e : Raw.Expr} : Primary ts e rest → rest <:+ ts
  | .lit | .name => List.suffix_cons _ _
  | .call a => (a.suffix.trans (List.suffix_cons _ _)).trans (List.suffix_cons _ _)
  | .paren c => ((List.suffix_cons _ _).trans c.suffix).trans (List.suffix_cons _ _)

theorem CallArgs.suffix {ts rest : List Token} {args : List Raw.Expr} :
    CallArgs ts args rest → rest <:+ ts
  | .none => List.suffix_cons _ _
  | .some a => (List.suffix_cons _ _).trans a.suffix

theorem Args.suffix {ts rest : List Token} {args : List Raw.Expr} : Args ts args rest → rest <:+ ts
  | .one c => c.suffix
  | .cons c a => (a.suffix.trans (List.suffix_cons _ _)).trans c.suffix

end

theorem TypeName.suffix {ts rest : List Token} {ty : Ty} : TypeName ts ty rest → rest <:+ ts
  | .int | .void | .const => List.suffix_cons _ _
  | .constInt => (List.suffix_cons _ _).trans (List.suffix_cons _ _)

theorem Init.suffix {ts rest : List Token} {i : Option Raw.Expr} : Init ts i rest → rest <:+ ts
  | .none => List.suffix_refl _
  | .some c => c.suffix.trans (List.suffix_cons _ _)

theorem Declarators.suffix {ts rest : List Token} {ds : List (String × Option Raw.Expr)} :
    Declarators ts ds rest → rest <:+ ts
  | .one i => i.suffix.trans (List.suffix_cons _ _)
  | .cons i d => ((d.suffix.trans (List.suffix_cons _ _)).trans i.suffix).trans (List.suffix_cons _ _)

theorem Params.suffix {ts rest : List Token} {ps : List Raw.Param} : Params ts ps rest → rest <:+ ts
  | .one ty i => (i.suffix.trans (List.suffix_cons _ _)).trans ty.suffix
  | .cons ty i ps =>
    ((((ps.suffix.trans (List.suffix_cons _ _)).trans i.suffix).trans (List.suffix_cons _ _)).trans
      ty.suffix)

theorem ParamList.suffix {ts rest : List Token} {ps : List Raw.Param} :
    ParamList ts ps rest → rest <:+ ts
  | .none => List.suffix_refl _
  | .some p => p.suffix

mutual

theorem Statement.suffix {ts rest : List Token} {st : Raw.Stmt} : Statement ts st rest → rest <:+ ts
  | .decl ty d => (List.suffix_cons _ _).trans (d.suffix.trans ty.suffix)
  | .funcDef ty ps b =>
    (b.suffix.trans (List.suffix_cons _ _)).trans
      (ps.suffix.trans ((List.suffix_cons _ _).trans ((List.suffix_cons _ _).trans ty.suffix)))
  | .block b => b.suffix
  | .ifThen c t _ | .whileLoop c t =>
    (((t.suffix.trans (List.suffix_cons _ _)).trans c.suffix).trans (List.suffix_cons _ _)).trans
      (List.suffix_cons _ _)
  | .ifElse c t e =>
    ((((e.suffix.trans (List.suffix_cons _ _)).trans t.suffix).trans
      ((List.suffix_cons _ _).trans c.suffix)).trans (List.suffix_cons _ _)).trans
        (List.suffix_cons _ _)
  | .returnValue c => ((List.suffix_cons _ _).trans c.suffix).trans (List.suffix_cons _ _)
  | .breakLoop | .continueLoop => (List.suffix_cons _ _).trans (List.suffix_cons _ _)
  | .assign c =>
    (((List.suffix_cons _ _).trans c.suffix).trans (List.suffix_cons _ _)).trans
      (List.suffix_cons _ _)
  | .exprStmt c => (List.suffix_cons _ _).trans c.suffix
  | .empty => List.suffix_cons _ _

theorem Block.suffix {ts rest : List Token} {items : List Raw.Stmt} : Block ts items rest → rest <:+ ts
  | .mk i => ((List.suffix_cons _ _).trans i.suffix).trans (List.suffix_cons _ _)

theorem Items.suffix {ts rest : List Token} {items : List Raw.Stmt} : Items ts items rest → rest <:+ ts
  | .nil => List.suffix_refl _
  | .cons st i => i.suffix.trans st.suffix

end

-- The tokens an expression can start with: a literal, a name, `(` or a prefix operator.
def startsExpr : TokenKind → Bool
  | .num _ | .ident _ | .punct .lparen => true
  | k => (prefixOp? k).isSome

theorem Primary.head {ts rest : List Token} {e : Raw.Expr} (g : Primary ts e rest) :
    ∃ t r, ts = t :: r ∧ startsExpr t.kind = true ∧ prefixOp? t.kind = none := by
  cases g <;> exact ⟨_, _, rfl, rfl, rfl⟩

theorem startsExpr_of_prefixOp? {k : TokenKind} {op : UnOp} (h : prefixOp? k = some op) :
    startsExpr k = true := by
  unfold startsExpr
  split <;> simp_all

theorem Unary.head {ts rest : List Token} {e : Raw.Expr} :
    Unary ts e rest → ∃ t r, ts = t :: r ∧ startsExpr t.kind = true
  | .prefixed hop _ => ⟨_, _, rfl, startsExpr_of_prefixOp? hop⟩
  | .primary p => by
    obtain ⟨t, r, h, hs, -⟩ := p.head
    exact ⟨t, r, h, hs⟩

mutual

theorem Chain.head {lvl : Level} {ts rest : List Token} {e : Raw.Expr} :
    Chain lvl ts e rest → ∃ t r, ts = t :: r ∧ startsExpr t.kind = true
  | .mk o _ => o.head

theorem Operand.head {lvl : Level} {ts rest : List Token} {e : Raw.Expr} :
    Operand lvl ts e rest → ∃ t r, ts = t :: r ∧ startsExpr t.kind = true
  | .tighter _ c => c.head
  | .unary _ u => u.head

end

end Gram

end ScopedC

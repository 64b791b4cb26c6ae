import ScopedC.Program
-- The parse functions run on fuel: each call takes one unit and hands the rest to the calls it
-- makes, and a routine that comes back to itself without reading a token stops the run.
namespace ScopedC

namespace Parse

inductive Routine where
  | programItems | blockItems | statement | declarators | formals
  | expression | arguments | links | unary
deriving DecidableEq, Repr

namespace Checked

structure Frame where
  routine : Routine
  left : Nat

inductive Halt where
  | failed (f : Failure)
  | stalled (r : Routine) (rest : List Token)

abbrev Run := ExceptT Halt Option

def exhausted {α : Type} : Run α := ExceptT.mk none

def lift {α : Type} (x : Except Failure α) : Run α := ExceptT.mk (some (x.mapError .failed))

def progressed (stack : List Frame) (r : Routine) (n : Nat) : Bool :=
  stack.all fun f => f.routine != r || decide (n < f.left)

mutual

def expression (fuel : Nat) (stop : Pos) (depth : Nat) (stack : List Frame) (s : ParseState)
    (ts : List Token) : Run (Expr × ParseState × List Token) :=
  match fuel with
  | 0 => exhausted
  | fuel + 1 =>
    if progressed stack .expression ts.length then do
      let stack := ⟨.expression, ts.length⟩ :: stack
      let depth ← lift (deeper stop depth s ts)
      chain fuel stop depth stack .or s ts
    else throw (.stalled .expression ts)

def chain (fuel : Nat) (stop : Pos) (depth : Nat) (stack : List Frame) (lvl : Level)
    (s : ParseState) (ts : List Token) : Run (Expr × ParseState × List Token) :=
  match fuel with
  | 0 => exhausted
  | fuel + 1 => do
    let (left, s, r) ← operand fuel stop depth stack lvl s ts
    links fuel stop depth stack lvl left s r

def operand (fuel : Nat) (stop : Pos) (depth : Nat) (stack : List Frame) (lvl : Level)
    (s : ParseState) (ts : List Token) : Run (Expr × ParseState × List Token) :=
  match fuel with
  | 0 => exhausted
  | fuel + 1 =>
    match lvl.tighter? with
    | some l => chain fuel stop depth stack l s ts
    | none => unary fuel stop depth stack s ts

def links (fuel : Nat) (stop : Pos) (depth : Nat) (stack : List Frame) (lvl : Level)
    (left : Expr) (s : ParseState) (ts : List Token) : Run (Expr × ParseState × List Token) :=
  match fuel with
  | 0 => exhausted
  | fuel + 1 =>
    if progressed stack .links ts.length then
      let stack := ⟨.links, ts.length⟩ :: stack
      match ts with
      | t :: r =>
        match lvl.binOp? t.kind with
        | some op => do
          let depth ← lift (deeper stop depth s r)
          let (right, s, r') ← operand fuel stop depth stack lvl s r
          let (label, s) := s.freshLabel
          let (node, s) := s.freshNode
          links fuel stop depth stack lvl (.binary node op left right label) s r'
        | none => pure (left, s, t :: r)
      | [] => pure (left, s, [])
    else throw (.stalled .links ts)

def unary (fuel : Nat) (stop : Pos) (depth : Nat) (stack : List Frame) (s : ParseState)
    (ts : List Token) : Run (Expr × ParseState × List Token) :=
  match fuel with
  | 0 => exhausted
  | fuel + 1 =>
    if progressed stack .unary ts.length then
      let stack := ⟨.unary, ts.length⟩ :: stack
      match ts with
      | t :: r =>
        match prefixOp? t.kind with
        | some op => do
          let depth ← lift (deeper stop depth s r)
          let (arg, s, r') ← unary fuel stop depth stack s r
          let (label, s) := s.freshLabel
          let (node, s) := s.freshNode
          pure (.unary node op arg label, s, r')
        | none => primary fuel stop depth stack s (t :: r)
      | [] => primary fuel stop depth stack s []
    else throw (.stalled .unary ts)

def primary (fuel : Nat) (stop : Pos) (depth : Nat) (stack : List Frame) (s : ParseState)
    (ts : List Token) : Run (Expr × ParseState × List Token) :=
  match fuel with
  | 0 => exhausted
  | fuel + 1 =>
    match ts with
    | ⟨.num v, _⟩ :: r =>
      let (node, s) := s.freshNode
      pure (.lit node v, s, r)
    | ⟨.ident name, pos⟩ :: ⟨.punct .lparen, q⟩ :: r => do
      let callee ← lift (s.resolve name pos (⟨.ident name, pos⟩ :: ⟨.punct .lparen, q⟩ :: r))
      call fuel stop depth stack callee s r
    | ⟨.ident name, pos⟩ :: r => do
      let entry ← lift (s.resolve name pos (⟨.ident name, pos⟩ :: r))
      let (i, s) := s.identNode entry none
      pure (.ident i, s, r)
    | ⟨.punct .lparen, _⟩ :: r => do
      let (e, s, r') ← expression fuel stop depth stack s r
      let ⟨r'', _⟩ ← lift (expect stop s .rparen .expression r')
      pure (e, s, r'')
    | ts => throw (.failed (unexpected stop s ts .expression))

def call (fuel : Nat) (stop : Pos) (depth : Nat) (stack : List Frame) (callee : Entry)
    (s : ParseState) (ts : List Token) : Run (Expr × ParseState × List Token) :=
  match fuel with
  | 0 => exhausted
  | fuel + 1 =>
    match ts with
    | ⟨.punct .rparen, _⟩ :: r =>
      let (node, s) := s.freshNode
      pure (.call node callee [], s, r)
    | ts => do
      let (args, s, r) ← arguments fuel stop depth stack s ts
      let ⟨r', _⟩ ← lift (expect stop s .rparen .arguments r)
      let (node, s) := s.freshNode
      pure (.call node callee args, s, r')

def arguments (fuel : Nat) (stop : Pos) (depth : Nat) (stack : List Frame) (s : ParseState)
    (ts : List Token) : Run (List Expr × ParseState × List Token) :=
  match fuel with
  | 0 => exhausted
  | fuel + 1 =>
    if progressed stack .arguments ts.length then do
      let stack := ⟨.arguments, ts.length⟩ :: stack
      let (e, s, r) ← expression fuel stop depth stack s ts
      match r with
      | ⟨.punct .comma, _⟩ :: r' =>
        let (more, s, r'') ← arguments fuel stop depth stack s r'
        pure (e :: more, s, r'')
      | r => pure ([e], s, r)
    else throw (.stalled .arguments ts)

end

def initializer (fuel : Nat) (stop : Pos) (depth : Nat) (stack : List Frame) (s : ParseState)
    (ts : List Token) : Run (Option Expr × ParseState × List Token) :=
  match fuel with
  | 0 => exhausted
  | fuel + 1 =>
    match ts with
    | ⟨.punct .assign, _⟩ :: r => do
      let (e, s, r') ← expression fuel stop depth stack s r
      pure (some e, s, r')
    | ts => pure (none, s, ts)

def declarators (fuel : Nat) (stop : Pos) (depth : Nat) (stack : List Frame) (s : ParseState)
    (ts : List Token) (acc : List (String × Option Expr)) :
    Run (List (String × Option Expr) × ParseState × List Token) :=
  match fuel with
  | 0 => exhausted
  | fuel + 1 =>
    if progressed stack .declarators ts.length then do
      let stack := ⟨.declarators, ts.length⟩ :: stack
      let (name, ⟨r, _⟩) ← lift (expectIdent stop s ts)
      let (init, s, r') ← initializer fuel stop depth stack s r
      let acc := insertByName name init acc
      match r' with
      | ⟨.punct .comma, _⟩ :: r'' => declarators fuel stop depth stack s r'' acc
      | r' => pure (acc, s, r')
    else throw (.stalled .declarators ts)

def declaration (fuel : Nat) (stop : Pos) (depth : Nat) (stack : List Frame) (s : ParseState)
    (ts : List Token) : Run (Stmt × ParseState × List Token) :=
  match fuel with
  | 0 => exhausted
  | fuel + 1 => do
    let (ty, ⟨r, _⟩) ← lift (type stop s ts)
    let (items, s, r') ← declarators fuel stop depth stack s r []
    let ⟨r'', _⟩ ← lift (expect stop s .semicolon .declaration r')
    let (decls, s) := declareAll ty items s
    let (node, s) := s.freshNode
    pure (.decl node decls, s, r'')

def formals (fuel : Nat) (stop : Pos) (depth : Nat) (stack : List Frame) (s : ParseState)
    (ts : List Token) : Run (List Formal × ParseState × List Token) :=
  match fuel with
  | 0 => exhausted
  | fuel + 1 =>
    if progressed stack .formals ts.length then do
      let stack := ⟨.formals, ts.length⟩ :: stack
      let (ty, ⟨r, _⟩) ← lift (type stop s ts)
      let (name, ⟨r1, _⟩) ← lift (expectIdent stop s r)
      let (default, s, r2) ← initializer fuel stop depth stack s r1
      match r2 with
      | ⟨.punct .comma, _⟩ :: r3 =>
        let (more, s, r4) ← formals fuel stop depth stack s r3
        pure (⟨name, ty, default⟩ :: more, s, r4)
      | r2 => pure ([⟨name, ty, default⟩], s, r2)
    else throw (.stalled .formals ts)

def formalsOrNone (fuel : Nat) (stop : Pos) (depth : Nat) (stack : List Frame)
    (s : ParseState) (ts : List Token) : Run (List Formal × ParseState × List Token) :=
  match fuel with
  | 0 => exhausted
  | fuel + 1 =>
    if atPunct .rparen ts then pure ([], s, ts)
    else formals fuel stop depth stack s ts

def exprStatement (fuel : Nat) (stop : Pos) (depth : Nat) (stack : List Frame)
    (s : ParseState) (ts : List Token) : Run (Stmt × ParseState × List Token) :=
  match fuel with
  | 0 => exhausted
  | fuel + 1 => do
    let (e, s, r) ← expression fuel stop depth stack s ts
    let ⟨r', _⟩ ← lift (expect stop s .semicolon .expression r)
    let (node, s) := s.freshNode
    pure (.exprStmt node e, s, r')

def assignment (fuel : Nat) (stop : Pos) (depth : Nat) (stack : List Frame) (entry : Entry)
    (s : ParseState) (ts : List Token) : Run (Stmt × ParseState × List Token) :=
  match fuel with
  | 0 => exhausted
  | fuel + 1 => do
    let (target, s) := s.identNode entry none
    let (e, s, r) ← expression fuel stop depth stack s ts
    let ⟨r', _⟩ ← lift (expect stop s .semicolon .assignment r)
    let (node, s) := s.freshNode
    pure (.assign node target e, s, r')

def jump (fuel : Nat) (stop : Pos) (depth : Nat) (stack : List Frame) (k : Keyword)
    (s : ParseState) (ts : List Token) : Run (Stmt × ParseState × List Token) :=
  match fuel with
  | 0 => exhausted
  | fuel + 1 =>
    match k with
    | .returnKw => do
      let (e, s, r) ← expression fuel stop depth stack s ts
      let ⟨r', _⟩ ← lift (expect stop s .semicolon .returnValue r)
      let (node, s) := s.freshNode
      pure (.returnValue node e, s, r')
    | .breakKw => do
      let ⟨r, _⟩ ← lift (expect stop s .semicolon .breakKeyword ts)
      let (node, s) := s.freshNode
      pure (.breakLoop node, s, r)
    | _ => do
      let ⟨r, _⟩ ← lift (expect stop s .semicolon .continueKeyword ts)
      let (node, s) := s.freshNode
      pure (.continueLoop node, s, r)

mutual

def statement (fuel : Nat) (stop : Pos) (depth : Nat) (stack : List Frame) (s : ParseState)
    (ts : List Token) : Run (Stmt × ParseState × List Token) :=
  match fuel with
  | 0 => exhausted
  | fuel + 1 =>
    if progressed stack .statement ts.length then
      let stack := ⟨.statement, ts.length⟩ :: stack
      if depth < nestingLimit then
        let depth := depth + 1
        match ts with
        | t :: r =>
          match t.kind with
          | .keyword .intKw | .keyword .voidKw | .keyword .constKw =>
            if startsFunction (t :: r) then funcDef fuel stop depth stack s (t :: r)
            else declaration fuel stop depth stack s (t :: r)
          | .punct .lbrace => block fuel stop depth stack s (t :: r)
          | .keyword .ifKw => do
            let ⟨r1, _⟩ ← lift (expect stop s .lparen .ifKeyword r)
            let (c, s, r2) ← expression fuel stop depth stack s r1
            let ⟨r3, _⟩ ← lift (expect stop s .rparen .ifCondition r2)
            let (th, s, r4) ← statement fuel stop depth stack s r3
            match r4 with
            | ⟨.keyword .elseKw, _⟩ :: r5 =>
              let (el, s, r6) ← statement fuel stop depth stack s r5
              let (node, s) := s.freshNode
              pure (.ifElse node c th el, s, r6)
            | r4 =>
              let (node, s) := s.freshNode
              pure (.ifThen node c th, s, r4)
          | .keyword .whileKw => do
            let ⟨r1, _⟩ ← lift (expect stop s .lparen .whileKeyword r)
            let (c, s, r2) ← expression fuel stop depth stack s r1
            let ⟨r3, _⟩ ← lift (expect stop s .rparen .whileCondition r2)
            let (body, s, r4) ← statement fuel stop depth stack s r3
            let (node, s) := s.freshNode
            pure (.whileLoop node c body, s, r4)
          | .keyword .returnKw => jump fuel stop depth stack .returnKw s r
          | .keyword .breakKw => jump fuel stop depth stack .breakKw s r
          | .keyword .continueKw => jump fuel stop depth stack .continueKw s r
          | .punct .semicolon =>
            let (node, s) := s.freshNode
            pure (.empty node, s, r)
          | .ident name =>
            match r with
            | a :: r' =>
              if a.kind = .punct .assign then do
                let entry ← lift (s.resolve name t.pos (t :: a :: r'))
                assignment fuel stop depth stack entry s r'
              else exprStatement fuel stop depth stack s (t :: a :: r')
            | [] => exprStatement fuel stop depth stack s [t]
          | _ => exprStatement fuel stop depth stack s (t :: r)
        | [] => exprStatement fuel stop depth stack s []
      else throw (.failed (failAt stop s ts .tooDeep))
    else throw (.stalled .statement ts)

def block (fuel : Nat) (stop : Pos) (depth : Nat) (stack : List Frame) (s : ParseState)
    (ts : List Token) : Run (Stmt × ParseState × List Token) :=
  match fuel with
  | 0 => exhausted
  | fuel + 1 => do
    let ⟨r, _⟩ ← lift (expect stop s .lbrace .blockOpen ts)
    let (items, s, r') ← blockItems fuel stop depth stack s.enter r
    let ⟨r'', _⟩ ← lift (expect stop s .rbrace .blockClose r')
    let s ← lift (s.exit r'')
    let (inner, s) := s.chain items
    let (node, s) := s.freshNode
    match inner with
    | some inner => pure (.block node inner, s, r'')
    | none => pure (.emptyBlock node, s, r'')

def blockItems (fuel : Nat) (stop : Pos) (depth : Nat) (stack : List Frame) (s : ParseState)
    (ts : List Token) : Run (List Stmt × ParseState × List Token) :=
  match fuel with
  | 0 => exhausted
  | fuel + 1 =>
    if progressed stack .blockItems ts.length then
      let stack := ⟨.blockItems, ts.length⟩ :: stack
      match ts with
      | [] => pure ([], s, [])
      | t :: r =>
        if t.kind = .punct .rbrace then pure ([], s, t :: r)
        else do
          let (st, s, r') ← statement fuel stop depth stack s (t :: r)
          let (more, s, r'') ← blockItems fuel stop depth stack s r'
          pure (st :: more, s, r'')
    else throw (.stalled .blockItems ts)

def funcDef (fuel : Nat) (stop : Pos) (depth : Nat) (stack : List Frame) (s : ParseState)
    (ts : List Token) : Run (Stmt × ParseState × List Token) :=
  match fuel with
  | 0 => exhausted
  | fuel + 1 => do
    let (ret, ⟨r1, _⟩) ← lift (type stop s ts)
    let (name, ⟨r2, _⟩) ← lift (expectIdent stop s r1)
    let ⟨r3, _⟩ ← lift (expect stop s .lparen .functionName r2)
    let (fs, s, r4) ← formalsOrNone fuel stop depth stack s r3
    let (_, s) := s.declare name (.func ret (fs.map (·.ty)))
    let (params, s) := declareParams fs s.enter
    let ⟨r5, _⟩ ← lift (expect stop s .rparen .parameters r4)
    let (body, s, r6) ← block fuel stop depth stack s r5
    let s ← lift (s.exit r6)
    let entry ← match s.scopes.lookup name with
      | some e => pure e
      | none => throw (.failed ⟨.internal (.functionLost name), s, r6⟩)
    let (node, s) := s.freshNode
    pure (.funcDef node entry params body, s, r6)

end

def programItems (fuel : Nat) (stop : Pos) (stack : List Frame) (s : ParseState)
    (ts : List Token) : Run (List Stmt × ParseState × List Token) :=
  match fuel with
  | 0 => exhausted
  | fuel + 1 =>
    if progressed stack .programItems ts.length then
      let stack := ⟨.programItems, ts.length⟩ :: stack
      match ts with
      | [] => pure ([], s, [])
      | t :: r => do
        let (st, s, r') ← statement fuel stop 0 stack s (t :: r)
        let (more, s, r'') ← programItems fuel stop stack s r'
        pure (st :: more, s, r'')
    else throw (.stalled .programItems ts)

def parseFrom (fuel : Nat) (s : ParseState) (toks : List Token) : Run Program := do
  let (ts, stop) := Program.input toks
  let (items, s, _) ← programItems fuel stop [] s ts
  match s.chain items with
  | (some root, s) => pure ⟨root, s⟩
  | (none, s) => throw (.failed (unexpected stop s [] .statement))

end Checked

end Parse

end ScopedC

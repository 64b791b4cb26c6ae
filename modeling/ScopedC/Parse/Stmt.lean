import ScopedC.Parse.Expr
namespace ScopedC

namespace Parse

-- A repeated name keeps the later initializer.
def insertByName (name : String) (init : Option Expr) :
    List (String × Option Expr) → List (String × Option Expr)
  | [] => [(name, init)]
  | (n, i) :: more =>
    if name < n then (name, init) :: (n, i) :: more
    else if name = n then (name, init) :: more
    else (n, i) :: insertByName name init more

def initializer (stop : Pos) (depth : Nat) (s : ParseState) :
    (ts : List Token) → Except Failure (Steps ts (Option Expr))
  | ⟨.punct .assign, _⟩ :: r => do
    let ⟨e, s, r', h⟩ ← expression stop depth s r
    pure ⟨some e, s, r', by simp only [List.length_cons]; omega⟩
  | ts => pure ⟨none, s, ts, Nat.le_refl _⟩

def declarators (stop : Pos) (depth : Nat) (s : ParseState) (ts : List Token)
    (acc : List (String × Option Expr)) :
    Except Failure (Step ts (List (String × Option Expr))) := do
  let (name, ⟨r, h⟩) ← expectIdent stop s ts
  let ⟨init, s, r', h'⟩ ← initializer stop depth s r
  let acc := insertByName name init acc
  match r', h' with
  | ⟨.punct .comma, _⟩ :: r'', h' =>
    have : r''.length < ts.length := by simp only [List.length_cons] at h'; omega
    let ⟨acc, s, r''', h''⟩ ← declarators stop depth s r'' acc
    pure ⟨acc, s, r''', by omega⟩
  | r', h' => pure ⟨acc, s, r', by omega⟩
termination_by ts.length

def declareAll (ty : Ty) :
    List (String × Option Expr) → ParseState → List (Ident × Option Expr) × ParseState
  | [], s => ([], s)
  | (name, init) :: more, s =>
    let (e, s) := s.declare name ty
    let (i, s) := s.identNode e none
    let (rest, s) := declareAll ty more s
    ((i, init) :: rest, s)

def declaration (stop : Pos) (depth : Nat) (s : ParseState) (ts : List Token) :
    Except Failure (Step ts Stmt) := do
  let (ty, ⟨r, h⟩) ← type stop s ts
  let ⟨items, s, r', h'⟩ ← declarators stop depth s r []
  let ⟨r'', h''⟩ ← expect stop s .semicolon .declaration r'
  let (decls, s) := declareAll ty items s
  let (node, s) := s.freshNode
  pure ⟨.decl node decls, s, r'', by omega⟩

structure Formal where
  name : String
  ty : Ty
  default : Option Expr

def formals (stop : Pos) (depth : Nat) (s : ParseState) (ts : List Token) :
    Except Failure (Step ts (List Formal)) := do
  let (ty, ⟨r, h⟩) ← type stop s ts
  let (name, ⟨r1, h1⟩) ← expectIdent stop s r
  let ⟨default, s, r2, h2⟩ ← initializer stop depth s r1
  match r2, h2 with
  | ⟨.punct .comma, _⟩ :: r3, h2 =>
    have : r3.length < ts.length := by simp only [List.length_cons] at h2; omega
    let ⟨more, s, r4, h4⟩ ← formals stop depth s r3
    pure ⟨⟨name, ty, default⟩ :: more, s, r4, by omega⟩
  | r2, h2 => pure ⟨[⟨name, ty, default⟩], s, r2, by omega⟩
termination_by ts.length

def formalsOrNone (stop : Pos) (depth : Nat) (s : ParseState) (ts : List Token) :
    Except Failure (Steps ts (List Formal)) :=
  if atPunct .rparen ts then pure ⟨[], s, ts, Nat.le_refl _⟩
  else do
    let ⟨fs, s, r, h⟩ ← formals stop depth s ts
    pure ⟨fs, s, r, Nat.le_of_lt h⟩

def declareParams : List Formal → ParseState → List Param × ParseState
  | [], s => ([], s)
  | f :: fs, s =>
    let (e, s) := s.declare f.name f.ty
    let literal := match f.default with
      | some (.lit _ v) => some v
      | _ => none
    let (i, s) := s.identNode e literal
    let (ps, s) := declareParams fs s
    (⟨i, f.default⟩ :: ps, s)

def exprStatement (stop : Pos) (depth : Nat) (s : ParseState) (ts : List Token) :
    Except Failure (Step ts Stmt) := do
  let ⟨e, s, r, h⟩ ← expression stop depth s ts
  let ⟨r', h'⟩ ← expect stop s .semicolon .expression r
  let (node, s) := s.freshNode
  pure ⟨.exprStmt node e, s, r', shorter_trans h h'⟩

def assignment (stop : Pos) (depth : Nat) (entry : Entry) (s : ParseState) (ts : List Token) :
    Except Failure (Step ts Stmt) := do
  let (target, s) := s.identNode entry none
  let ⟨e, s, r, h⟩ ← expression stop depth s ts
  let ⟨r', h'⟩ ← expect stop s .semicolon .assignment r
  let (node, s) := s.freshNode
  pure ⟨.assign node target e, s, r', shorter_trans h h'⟩

def jump (stop : Pos) (depth : Nat) (k : Keyword) (s : ParseState) (ts : List Token) :
    Except Failure (Steps ts Stmt) :=
  match k with
  | .returnKw => do
    let ⟨e, s, r, h⟩ ← expression stop depth s ts
    let ⟨r', h'⟩ ← expect stop s .semicolon .returnValue r
    let (node, s) := s.freshNode
    pure ⟨.returnValue node e, s, r', by omega⟩
  | .breakKw => do
    let ⟨r, h⟩ ← expect stop s .semicolon .breakKeyword ts
    let (node, s) := s.freshNode
    pure ⟨.breakLoop node, s, r, by omega⟩
  | _ => do
    let ⟨r, h⟩ ← expect stop s .semicolon .continueKeyword ts
    let (node, s) := s.freshNode
    pure ⟨.continueLoop node, s, r, by omega⟩

mutual

-- A statement that starts with a type is a function definition when a name and `(` follow the
-- type, and a declaration otherwise.
def statement (stop : Pos) (depth : Nat) (s : ParseState) (ts : List Token) :
    Except Failure (Step ts Stmt) :=
  if depth < nestingLimit then
    let depth := depth + 1
    match ts with
    | t :: r =>
      match t.kind with
      | .keyword .intKw | .keyword .voidKw | .keyword .constKw =>
        if startsFunction (t :: r) then funcDef stop depth s (t :: r)
        else declaration stop depth s (t :: r)
      | .punct .lbrace => block stop depth s (t :: r)
      | .keyword .ifKw => do
        let ⟨r1, h1⟩ ← expect stop s .lparen .ifKeyword r
        let ⟨c, s, r2, h2⟩ ← expression stop depth s r1
        let ⟨r3, h3⟩ ← expect stop s .rparen .ifCondition r2
        let ⟨th, s, r4, h4⟩ ← statement stop depth s r3
        match r4, h4 with
        | ⟨.keyword .elseKw, _⟩ :: r5, h4 =>
          have : r5.length < r.length := by simp only [List.length_cons] at h4; omega
          let ⟨el, s, r6, h6⟩ ← statement stop depth s r5
          let (node, s) := s.freshNode
          pure ⟨.ifElse node c th el, s, r6, by simp only [List.length_cons]; omega⟩
        | r4, h4 =>
          let (node, s) := s.freshNode
          pure ⟨.ifThen node c th, s, r4, by simp only [List.length_cons]; omega⟩
      | .keyword .whileKw => do
        let ⟨r1, h1⟩ ← expect stop s .lparen .whileKeyword r
        let ⟨c, s, r2, h2⟩ ← expression stop depth s r1
        let ⟨r3, h3⟩ ← expect stop s .rparen .whileCondition r2
        let ⟨body, s, r4, h4⟩ ← statement stop depth s r3
        let (node, s) := s.freshNode
        pure ⟨.whileLoop node c body, s, r4, by simp only [List.length_cons]; omega⟩
      | .keyword .returnKw => (jump stop depth .returnKw s r).map (·.afterToken t)
      | .keyword .breakKw => (jump stop depth .breakKw s r).map (·.afterToken t)
      | .keyword .continueKw => (jump stop depth .continueKw s r).map (·.afterToken t)
      | .punct .semicolon =>
        let (node, s) := s.freshNode
        pure ⟨.empty node, s, r, by simp only [List.length_cons]; omega⟩
      | .ident name =>
        match r with
        | a :: r' =>
          if a.kind = .punct .assign then do
            -- the target is resolved before its value is read
            let entry ← s.resolve name t.pos (t :: a :: r')
            (assignment stop depth entry s r').map fun x => (x.afterToken a).afterToken t
          else exprStatement stop depth s (t :: a :: r')
        | [] => exprStatement stop depth s [t]
      | _ => exprStatement stop depth s (t :: r)
    | [] => exprStatement stop depth s []
  else .error (failAt stop s ts .tooDeep)
termination_by (ts.length, 1)

def block (stop : Pos) (depth : Nat) (s : ParseState) (ts : List Token) :
    Except Failure (Step ts Stmt) := do
  let ⟨r, h⟩ ← expect stop s .lbrace .blockOpen ts
  let ⟨items, s, r', h'⟩ ← blockItems stop depth s.enter r
  let ⟨r'', h''⟩ ← expect stop s .rbrace .blockClose r'
  let s ← s.exit r''
  let (inner, s) := s.chain items
  let (node, s) := s.freshNode
  match inner with
  | some inner => pure ⟨.block node inner, s, r'', by omega⟩
  | none => pure ⟨.emptyBlock node, s, r'', by omega⟩
termination_by (ts.length, 0)

def blockItems (stop : Pos) (depth : Nat) (s : ParseState) (ts : List Token) :
    Except Failure (Steps ts (List Stmt)) :=
  match ts with
  | [] => pure ⟨[], s, [], Nat.le_refl _⟩
  | t :: r =>
    if t.kind = .punct .rbrace then pure ⟨[], s, t :: r, Nat.le_refl _⟩
    else do
      let ⟨st, s, r', h⟩ ← statement stop depth s (t :: r)
      let ⟨more, s, r'', h'⟩ ← blockItems stop depth s r'
      pure ⟨st :: more, s, r'', by omega⟩
termination_by (ts.length, 2)

def funcDef (stop : Pos) (depth : Nat) (s : ParseState) (ts : List Token) :
    Except Failure (Step ts Stmt) := do
  let (ret, ⟨r1, h1⟩) ← type stop s ts
  let (name, ⟨r2, h2⟩) ← expectIdent stop s r1
  let ⟨r3, h3⟩ ← expect stop s .lparen .functionName r2
  let ⟨fs, s, r4, h4⟩ ← formalsOrNone stop depth s r3
  let (_, s) := s.declare name (.func ret (fs.map (·.ty)))
  let (params, s) := declareParams fs s.enter
  let ⟨r5, h5⟩ ← expect stop s .rparen .parameters r4
  let ⟨body, s, r6, h6⟩ ← block stop depth s r5
  let s ← s.exit r6
  let entry ← match s.scopes.lookup name with
    | some e => pure e
    | none => throw ⟨.internal (.functionLost name), s, r6⟩
  let (node, s) := s.freshNode
  pure ⟨.funcDef node entry params body, s, r6, by omega⟩
termination_by (ts.length, 0)

end

def programItems (stop : Pos) (s : ParseState) (ts : List Token) :
    Except Failure (Steps ts (List Stmt)) :=
  match ts with
  | [] => pure ⟨[], s, [], Nat.le_refl _⟩
  | t :: r => do
    let ⟨st, s, r', h⟩ ← statement stop 0 s (t :: r)
    let ⟨more, s, r'', h'⟩ ← programItems stop s r'
    pure ⟨st :: more, s, r'', by omega⟩
termination_by ts.length
decreasing_by
  simp only [List.length_cons] at *
  omega

end Parse

end ScopedC

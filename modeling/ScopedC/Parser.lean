import ScopedC.Parse.Stmt
namespace ScopedC

-- The parser over a token vector: where it reads, what it has built, how deeply it is nested.
structure Parser where
  position : Nat
  state : ParseState
  depth : Nat

structure Fault where
  error : ParseError
  parser : Parser

-- What the parser asks of the monad it runs in: failing, what a failure does to the depth on
-- its way out of a nesting level, and the test a new nesting level must pass.
structure Runner (m : Type → Type) where
  fail {α : Type} : Fault → m α
  unwind {α : Type} : (Nat → Nat) → m α → m α
  level : Nat → Fault → m Unit

namespace Runner

variable {m : Type → Type} [Monad m] {α : Type}

def lift (R : Runner m) : Except Fault α → m α
  | .ok a => pure a
  | .error f => R.fail f

def limited : Runner (Except Fault) where
  fail := .error
  unwind f x := x.mapError fun e => ⟨e.error, { e.parser with depth := f e.parser.depth }⟩
  level d e := if d < nestingLimit then .ok () else .error e

end Runner

namespace Parser

def start (s : ParseState) : Parser := ⟨0, s, 0⟩

def deeper (p : Parser) : Parser := { p with depth := p.depth + 1 }

def withDepth (f : Nat → Nat) (p : Parser) : Parser := { p with depth := f p.depth }

def withState (p : Parser) (s : ParseState) : Parser := { p with state := s }

@[simp] theorem deeper_position (p : Parser) : p.deeper.position = p.position := rfl
@[simp] theorem deeper_state (p : Parser) : p.deeper.state = p.state := rfl
@[simp] theorem deeper_depth (p : Parser) : p.deeper.depth = p.depth + 1 := rfl
@[simp] theorem withDepth_position (f : Nat → Nat) (p : Parser) :
    (p.withDepth f).position = p.position := rfl
@[simp] theorem withDepth_state (f : Nat → Nat) (p : Parser) : (p.withDepth f).state = p.state :=
  rfl
@[simp] theorem withDepth_depth (f : Nat → Nat) (p : Parser) : (p.withDepth f).depth = f p.depth :=
  rfl
@[simp] theorem withState_position (p : Parser) (s : ParseState) :
    (p.withState s).position = p.position := rfl
@[simp] theorem withState_state (p : Parser) (s : ParseState) : (p.withState s).state = s := rfl
@[simp] theorem withState_depth (p : Parser) (s : ParseState) : (p.withState s).depth = p.depth :=
  rfl

def fromTokens (toks : List Token) : Array Token :=
  if toks.getLast?.map (·.kind) = some .eof then toks.toArray
  else toks.toArray.push ⟨.eof, (toks.getLast?.map (·.pos)).getD Pos.start⟩

section Reading

variable (toks : Array Token)

def peek (p : Parser) : Token := toks[p.position]!

def atEnd (p : Parser) : Bool := (peek toks p).kind = .eof

def advance (p : Parser) : Parser :=
  if atEnd toks p then p else { p with position := p.position + 1 }

def check (p : Parser) (k : TokenKind) : Bool := (peek toks p).kind = k

def peekAhead (p : Parser) (n : Nat) : Option Token := toks[p.position + n]?

def syntaxError (p : Parser) (e : SyntaxError) : Fault := ⟨.malformed e (peek toks p).pos, p⟩

def unexpected (p : Parser) (w : Wanted) : Fault :=
  syntaxError toks p (.unexpected w (peek toks p).kind)

structure Ahead (i : Nat) (α : Type) where
  value : α
  parser : Parser
  ahead : toks.size - parser.position < toks.size - i

structure Along (i : Nat) (α : Type) where
  value : α
  parser : Parser
  along : toks.size - parser.position ≤ toks.size - i

variable {toks} {p : Parser}

-- The parse's recursion descends in this order: toward the end of the vector.
theorem position_induction {motive : Parser → Prop} (p : Parser)
    (ahead : ∀ p, (∀ q, toks.size - q.position < toks.size - p.position → motive q) → motive p) :
    motive p := by
  induction hn : toks.size - p.position using Nat.strongRecOn generalizing p with
  | _ n ih => exact ahead p fun q hq => ih _ (hn ▸ hq) q rfl

theorem position_lt_of_ne_eof (h : (peek toks p).kind ≠ .eof) : p.position < toks.size := by
  apply Nat.lt_of_not_le
  intro hp
  unfold peek at h
  rw [getElem!_neg toks p.position (by omega)] at h
  exact h rfl

theorem advance_of_ne_eof (h : (peek toks p).kind ≠ .eof) :
    advance toks p = { p with position := p.position + 1 } := by
  simp [advance, atEnd, h]

theorem advance_ahead (h : (peek toks p).kind ≠ .eof) :
    toks.size - (advance toks p).position < toks.size - p.position := by
  have := position_lt_of_ne_eof h
  rw [advance_of_ne_eof h]
  dsimp only
  omega

theorem advance_along : toks.size - (advance toks p).position ≤ toks.size - p.position := by
  unfold advance
  split
  · exact Nat.le_refl _
  · dsimp only
    omega

@[simp] theorem advance_state : (advance toks p).state = p.state := by
  unfold advance
  split <;> rfl

@[simp] theorem advance_depth : (advance toks p).depth = p.depth := by
  unfold advance
  split <;> rfl

variable (toks)

def expect (p : Parser) (k : Punct) (site : Site) : Except Fault (Ahead toks p.position Unit) :=
  if h : (peek toks p).kind = .punct k then .ok ⟨(), advance toks p, advance_ahead (by simp [h])⟩
  else .error (unexpected toks p (.punct k site))

def expectIdent (p : Parser) : Except Fault (Ahead toks p.position String) :=
  match h : (peek toks p).kind with
  | .ident name => .ok ⟨name, advance toks p, advance_ahead (by simp [h])⟩
  | _ => .error (unexpected toks p .identifier)

def type (p : Parser) : Except Fault (Ahead toks p.position Ty) :=
  match h : (peek toks p).kind with
  | .keyword .intKw => .ok ⟨.int, advance toks p, advance_ahead (by simp [h])⟩
  | .keyword .voidKw => .ok ⟨.void, advance toks p, advance_ahead (by simp [h])⟩
  | .keyword .constKw =>
    -- `const` takes an `int` after it if one follows
    if hi : (peek toks (advance toks p)).kind = .keyword .intKw then
      .ok ⟨.const, advance toks (advance toks p),
        Nat.lt_trans (advance_ahead (by simp [hi])) (advance_ahead (by simp [h]))⟩
    else .ok ⟨.const, advance toks p, advance_ahead (by simp [h])⟩
  | _ => .error (unexpected toks p .type)

def functionHead (p : Parser) : Bool × Parser :=
  match type toks p with
  | .error _ => (false, p)
  | .ok t =>
    match expectIdent toks t.parser with
    | .error _ => (false, t.parser)
    | .ok n => (check toks n.parser (.punct .lparen), n.parser)

-- The lookahead of a statement that starts with a type: the reads of a function head, then
-- back to the position saved before them.
def isFunctionDefinition (p : Parser) : Bool × Parser :=
  let saved := p.position
  let head := functionHead toks p
  (head.1, { head.2 with position := saved })

def resolve (p : Parser) (name : String) (pos : Pos) : Except Fault Entry :=
  (p.state.resolve name pos []).mapError fun f => ⟨f.error, p⟩

def exitScope (p : Parser) : Except Fault ParseState :=
  (p.state.exit []).mapError fun f => ⟨f.error, p⟩

end Reading

theorem binOp?_ne_eof {lvl : Parse.Level} {k : TokenKind} {op : BinOp}
    (h : lvl.binOp? k = some op) : k ≠ .eof := by
  rintro rfl
  cases lvl <;> simp [Parse.Level.binOp?] at h

theorem prefixOp?_ne_eof {k : TokenKind} {op : UnOp} (h : Parse.prefixOp? k = some op) :
    k ≠ .eof := by
  rintro rfl
  simp [Parse.prefixOp?] at h

section Run

variable {m : Type → Type} [Monad m] (R : Runner m) (toks : Array Token) {α : Type}

def nested (p : Parser) (body : m (Ahead toks p.position α)) : m (Ahead toks p.position α) := do
  R.level p.depth (syntaxError toks p .tooDeep)
  R.unwind (· - 1) do
    let r ← body
    pure ⟨r.value, r.parser.withDepth (· - 1), r.ahead⟩

-- A chain's links each take a level, all given back when the chain ends, also when it fails.
def restoring (p : Parser) (body : m (Ahead toks p.position α)) : m (Ahead toks p.position α) :=
  R.unwind (fun _ => p.depth) do
    let r ← body
    pure ⟨r.value, r.parser.withDepth fun _ => p.depth, r.ahead⟩

mutual

def expression (p : Parser) : m (Ahead toks p.position Expr) :=
  nested R toks p (chain .or p.deeper)
termination_by (toks.size - p.position, 3 * Parse.Level.or.height + 6)

def chain (lvl : Parse.Level) (p : Parser) : m (Ahead toks p.position Expr) :=
  restoring R toks p (binaryLinks lvl p)
termination_by (toks.size - p.position, 3 * lvl.height + 5)

def binaryLinks (lvl : Parse.Level) (p : Parser) : m (Ahead toks p.position Expr) := do
  let ⟨left, q, hq⟩ ← operand lvl p
  let ⟨e, q', hq'⟩ ← links lvl left q
  pure ⟨e, q', Nat.lt_of_le_of_lt hq' hq⟩
termination_by (toks.size - p.position, 3 * lvl.height + 4)

def operand (lvl : Parse.Level) (p : Parser) : m (Ahead toks p.position Expr) :=
  match h : lvl.tighter? with
  | some l =>
    have := Parse.Level.height_of_tighter? h
    chain l p
  | none => unary p
termination_by (toks.size - p.position, 3 * lvl.height + 3)

def links (lvl : Parse.Level) (left : Expr) (p : Parser) : m (Along toks p.position Expr) :=
  match h : lvl.binOp? (peek toks p).kind with
  | some op => do
    have ha : toks.size - (advance toks p).deeper.position < toks.size - p.position :=
      advance_ahead (binOp?_ne_eof h)
    R.level (advance toks p).depth (syntaxError toks (advance toks p) .tooDeep)
    let ⟨right, r, hr⟩ ← operand lvl (advance toks p).deeper
    let (label, s) := r.state.freshLabel
    let (node, s) := s.freshNode
    have hs : toks.size - (r.withState s).position < toks.size - p.position := Nat.lt_trans hr ha
    let ⟨e, r', hr'⟩ ← links lvl (.binary node op left right label) (r.withState s)
    pure ⟨e, r', Nat.le_of_lt (Nat.lt_of_le_of_lt hr' hs)⟩
  | none => pure ⟨left, p, Nat.le_refl _⟩
termination_by (toks.size - p.position, 0)

def unary (p : Parser) : m (Ahead toks p.position Expr) :=
  match h : Parse.prefixOp? (peek toks p).kind with
  | some op => do
    have ha : toks.size - (advance toks p).deeper.position < toks.size - p.position :=
      advance_ahead (prefixOp?_ne_eof h)
    let ⟨arg, r, hr⟩ ← nested R toks (advance toks p) (unary (advance toks p).deeper)
    let (label, s) := r.state.freshLabel
    let (node, s) := s.freshNode
    pure ⟨.unary node op arg label, r.withState s, Nat.lt_trans hr ha⟩
  | none => primary p
termination_by (toks.size - p.position, 2)

def primary (p : Parser) : m (Ahead toks p.position Expr) :=
  let loc := (peek toks p).pos
  if he : (peek toks p).kind = .eof then R.fail (unexpected toks p .expression)
  else
    have ha : toks.size - (advance toks p).position < toks.size - p.position := advance_ahead he
    match (peek toks p).kind with
    | .punct .lparen => do
      let ⟨e, q, hq⟩ ← expression (advance toks p)
      let ⟨(), q', hq'⟩ ← R.lift (expect toks q .rparen .expression)
      pure ⟨e, q', Nat.lt_trans hq' (Nat.lt_trans hq ha)⟩
    | .num v =>
      let (node, s) := p.state.freshNode
      pure ⟨.lit node v, (advance toks p).withState s, ha⟩
    | .ident name =>
      if hc : (peek toks (advance toks p)).kind = .punct .lparen then do
        have hb : toks.size - (advance toks (advance toks p)).position < toks.size - p.position :=
          Nat.lt_trans (advance_ahead (by simp [hc])) ha
        let ⟨e, r, hr⟩ ← call name loc (advance toks (advance toks p))
        pure ⟨e, r, Nat.lt_trans hr hb⟩
      else do
        let entry ← R.lift ((advance toks p).resolve name loc)
        let (i, s) := (advance toks p).state.identNode entry none
        pure ⟨.ident i, (advance toks p).withState s, ha⟩
    | _ => R.fail (unexpected toks p .expression)
termination_by (toks.size - p.position, 1)

def call (name : String) (loc : Pos) (p : Parser) : m (Ahead toks p.position Expr) := do
  let callee ← R.lift (p.resolve name loc)
  if h : (peek toks p).kind = .punct .rparen then
    let (node, s) := p.state.freshNode
    pure ⟨.call node callee [], (advance toks p).withState s, advance_ahead (by simp [h])⟩
  else do
    let ⟨args, q, hq⟩ ← arguments p
    let ⟨(), q', hq'⟩ ← R.lift (expect toks q .rparen .arguments)
    let (node, s) := q'.state.freshNode
    pure ⟨.call node callee args, q'.withState s, Nat.lt_trans hq' hq⟩
termination_by (toks.size - p.position, 3 * Parse.Level.or.height + 8)

def arguments (p : Parser) : m (Ahead toks p.position (List Expr)) := do
  let ⟨e, q, hq⟩ ← expression p
  if hc : (peek toks q).kind = .punct .comma then do
    have ha : toks.size - (advance toks q).position < toks.size - p.position :=
      Nat.lt_trans (advance_ahead (by simp [hc])) hq
    let ⟨more, r, hr⟩ ← arguments (advance toks q)
    pure ⟨e :: more, r, Nat.lt_trans hr ha⟩
  else pure ⟨[e], q, hq⟩
termination_by (toks.size - p.position, 3 * Parse.Level.or.height + 7)

end

def initializer (p : Parser) : m (Along toks p.position (Option Expr)) :=
  if h : (peek toks p).kind = .punct .assign then do
    let ⟨e, q, hq⟩ ← expression R toks (advance toks p)
    pure ⟨some e, q, Nat.le_of_lt (Nat.lt_trans hq (advance_ahead (by simp [h])))⟩
  else pure ⟨none, p, Nat.le_refl _⟩

def declarators (p : Parser) (acc : List (String × Option Expr)) :
    m (Ahead toks p.position (List (String × Option Expr))) := do
  let ⟨name, q, hq⟩ ← R.lift (expectIdent toks p)
  let ⟨init, q', hq'⟩ ← initializer R toks q
  let acc := Parse.insertByName name init acc
  have hq'' : toks.size - q'.position < toks.size - p.position := Nat.lt_of_le_of_lt hq' hq
  if hc : (peek toks q').kind = .punct .comma then do
    have ha : toks.size - (advance toks q').position < toks.size - p.position :=
      Nat.lt_trans (advance_ahead (by simp [hc])) hq''
    let ⟨acc, r, hr⟩ ← declarators (advance toks q') acc
    pure ⟨acc, r, Nat.lt_trans hr ha⟩
  else pure ⟨acc, q', hq''⟩
termination_by toks.size - p.position

def declaration (p : Parser) : m (Ahead toks p.position Stmt) := do
  let ⟨ty, q, hq⟩ ← R.lift (type toks p)
  let ⟨items, q', hq'⟩ ← declarators R toks q []
  let ⟨(), q'', hq''⟩ ← R.lift (expect toks q' .semicolon .declaration)
  let (decls, s) := Parse.declareAll ty items q''.state
  let (node, s) := s.freshNode
  pure ⟨.decl node decls, q''.withState s, Nat.lt_trans hq'' (Nat.lt_trans hq' hq)⟩

def formals (p : Parser) : m (Ahead toks p.position (List Parse.Formal)) := do
  let ⟨ty, q, hq⟩ ← R.lift (type toks p)
  let ⟨name, q1, hq1⟩ ← R.lift (expectIdent toks q)
  let ⟨default, q2, hq2⟩ ← initializer R toks q1
  have h2 : toks.size - q2.position < toks.size - p.position :=
    Nat.lt_of_le_of_lt hq2 (Nat.lt_trans hq1 hq)
  if hc : (peek toks q2).kind = .punct .comma then do
    have ha : toks.size - (advance toks q2).position < toks.size - p.position :=
      Nat.lt_trans (advance_ahead (by simp [hc])) h2
    let ⟨more, r, hr⟩ ← formals (advance toks q2)
    pure ⟨⟨name, ty, default⟩ :: more, r, Nat.lt_trans hr ha⟩
  else pure ⟨[⟨name, ty, default⟩], q2, h2⟩
termination_by toks.size - p.position

def formalsOrNone (p : Parser) : m (Along toks p.position (List Parse.Formal)) :=
  if check toks p (.punct .rparen) then pure ⟨[], p, Nat.le_refl _⟩
  else do
    let ⟨fs, q, hq⟩ ← formals R toks p
    pure ⟨fs, q, Nat.le_of_lt hq⟩

def exprStatement (p : Parser) : m (Ahead toks p.position Stmt) := do
  let ⟨e, q, hq⟩ ← expression R toks p
  let ⟨(), q', hq'⟩ ← R.lift (expect toks q .semicolon .expression)
  let (node, s) := q'.state.freshNode
  pure ⟨.exprStmt node e, q'.withState s, Nat.lt_trans hq' hq⟩

-- An assignment once its name and `=` are read: the target is resolved before the value.
def assignment (name : String) (loc : Pos) (p : Parser) : m (Ahead toks p.position Stmt) := do
  let entry ← R.lift (p.resolve name loc)
  let (target, s) := p.state.identNode entry none
  let ⟨e, q, hq⟩ ← expression R toks (p.withState s)
  let ⟨(), q', hq'⟩ ← R.lift (expect toks q .semicolon .assignment)
  let (node, s) := q'.state.freshNode
  pure ⟨.assign node target e, q'.withState s, Nat.lt_trans hq' hq⟩

mutual

def statement (p : Parser) : m (Ahead toks p.position Stmt) :=
  nested R toks p (statementBody p.deeper)
termination_by (toks.size - p.position, 2)

def statementBody (p : Parser) : m (Ahead toks p.position Stmt) :=
  let loc := (peek toks p).pos
  -- at the end of the input nothing but an expression statement can be tried
  if he : (peek toks p).kind = .eof then exprStatement R toks p
  else
    have ha : toks.size - (advance toks p).position < toks.size - p.position := advance_ahead he
    match (peek toks p).kind with
    | .punct .lbrace => block p
    | .keyword .intKw | .keyword .voidKw | .keyword .constKw =>
      let r := isFunctionDefinition toks p
      if r.1 then funcDef r.2 else declaration R toks r.2
    | .keyword .ifKw => do
      let ⟨(), q1, h1⟩ ← R.lift (expect toks (advance toks p) .lparen .ifKeyword)
      let ⟨c, q2, h2⟩ ← expression R toks q1
      let ⟨(), q3, h3⟩ ← R.lift (expect toks q2 .rparen .ifCondition)
      have h3' : toks.size - q3.position < toks.size - p.position :=
        Nat.lt_trans h3 (Nat.lt_trans h2 (Nat.lt_trans h1 ha))
      let ⟨th, q4, h4⟩ ← statement q3
      if hel : (peek toks q4).kind = .keyword .elseKw then do
        have h5 : toks.size - (advance toks q4).position < toks.size - p.position :=
          Nat.lt_trans (advance_ahead (by simp [hel])) (Nat.lt_trans h4 h3')
        let ⟨el, q5, h6⟩ ← statement (advance toks q4)
        let (node, s) := q5.state.freshNode
        pure ⟨.ifElse node c th el, q5.withState s, Nat.lt_trans h6 h5⟩
      else
        let (node, s) := q4.state.freshNode
        pure ⟨.ifThen node c th, q4.withState s, Nat.lt_trans h4 h3'⟩
    | .keyword .whileKw => do
      let ⟨(), q1, h1⟩ ← R.lift (expect toks (advance toks p) .lparen .whileKeyword)
      let ⟨c, q2, h2⟩ ← expression R toks q1
      let ⟨(), q3, h3⟩ ← R.lift (expect toks q2 .rparen .whileCondition)
      have h3' : toks.size - q3.position < toks.size - p.position :=
        Nat.lt_trans h3 (Nat.lt_trans h2 (Nat.lt_trans h1 ha))
      let ⟨body, q4, h4⟩ ← statement q3
      let (node, s) := q4.state.freshNode
      pure ⟨.whileLoop node c body, q4.withState s, Nat.lt_trans h4 h3'⟩
    | .keyword .returnKw => do
      let ⟨e, q1, h1⟩ ← expression R toks (advance toks p)
      let ⟨(), q2, h2⟩ ← R.lift (expect toks q1 .semicolon .returnValue)
      let (node, s) := q2.state.freshNode
      pure ⟨.returnValue node e, q2.withState s, Nat.lt_trans h2 (Nat.lt_trans h1 ha)⟩
    | .keyword .breakKw => do
      let ⟨(), q1, h1⟩ ← R.lift (expect toks (advance toks p) .semicolon .breakKeyword)
      let (node, s) := q1.state.freshNode
      pure ⟨.breakLoop node, q1.withState s, Nat.lt_trans h1 ha⟩
    | .keyword .continueKw => do
      let ⟨(), q1, h1⟩ ← R.lift (expect toks (advance toks p) .semicolon .continueKeyword)
      let (node, s) := q1.state.freshNode
      pure ⟨.continueLoop node, q1.withState s, Nat.lt_trans h1 ha⟩
    | .punct .semicolon =>
      let (node, s) := p.state.freshNode
      pure ⟨.empty node, (advance toks p).withState s, ha⟩
    | .ident name =>
      -- an assignment when `=` is the token after the name
      if (peekAhead toks p 1).map (·.kind) = some (.punct .assign) then do
        let ⟨st, q, hq⟩ ← assignment R toks name loc (advance toks (advance toks p))
        pure ⟨st, q, Nat.lt_of_lt_of_le (Nat.lt_of_lt_of_le hq advance_along) (Nat.le_of_lt ha)⟩
      else exprStatement R toks p
    | _ => exprStatement R toks p
termination_by (toks.size - p.position, 1)

def block (p : Parser) : m (Ahead toks p.position Stmt) := do
  let ⟨(), q, hq⟩ ← R.lift (expect toks p .lbrace .blockOpen)
  let ⟨items, q', hq'⟩ ← blockItems (q.withState q.state.enter)
  let ⟨(), q'', hq''⟩ ← R.lift (expect toks q' .rbrace .blockClose)
  have h : toks.size - q''.position < toks.size - p.position :=
    Nat.lt_trans hq'' (Nat.lt_of_le_of_lt hq' hq)
  let s ← R.lift q''.exitScope
  let (inner, s) := s.chain items
  let (node, s) := s.freshNode
  match inner with
  | some inner => pure ⟨.block node inner, q''.withState s, h⟩
  | none => pure ⟨.emptyBlock node, q''.withState s, h⟩
termination_by (toks.size - p.position, 0)

def blockItems (p : Parser) : m (Along toks p.position (List Stmt)) :=
  if check toks p (.punct .rbrace) || atEnd toks p then pure ⟨[], p, Nat.le_refl _⟩
  else do
    let ⟨st, q, hq⟩ ← statement p
    let ⟨more, q', hq'⟩ ← blockItems q
    pure ⟨st :: more, q', Nat.le_of_lt (Nat.lt_of_le_of_lt hq' hq)⟩
termination_by (toks.size - p.position, 3)

def funcDef (p : Parser) : m (Ahead toks p.position Stmt) := do
  let ⟨ret, q1, h1⟩ ← R.lift (type toks p)
  let ⟨name, q2, h2⟩ ← R.lift (expectIdent toks q1)
  let ⟨(), q3, h3⟩ ← R.lift (expect toks q2 .lparen .functionName)
  let ⟨fs, q4, h4⟩ ← formalsOrNone R toks q3
  let (_, s) := q4.state.declare name (.func ret (fs.map (·.ty)))
  let (params, s) := Parse.declareParams fs s.enter
  let ⟨(), q5, h5⟩ ← R.lift (expect toks (q4.withState s) .rparen .parameters)
  have ha : toks.size - q5.position < toks.size - p.position :=
    Nat.lt_of_lt_of_le h5 (Nat.le_trans h4 (Nat.le_of_lt (Nat.lt_trans h3 (Nat.lt_trans h2 h1))))
  let ⟨body, q6, h6⟩ ← block q5
  let s ← R.lift q6.exitScope
  let entry ← match s.scopes.lookup name with
    | some e => pure e
    | none => R.fail ⟨.internal (.functionLost name), q6.withState s⟩
  let (node, s) := s.freshNode
  pure ⟨.funcDef node entry params body, q6.withState s, Nat.lt_trans h6 ha⟩
termination_by (toks.size - p.position, 0)

end

def programItems (p : Parser) : m (Along toks p.position (List Stmt)) :=
  if atEnd toks p then pure ⟨[], p, Nat.le_refl _⟩
  else do
    let ⟨st, q, hq⟩ ← statement R toks p
    let ⟨more, q', hq'⟩ ← programItems q
    pure ⟨st :: more, q', Nat.le_of_lt (Nat.lt_of_le_of_lt hq' hq)⟩
termination_by toks.size - p.position

def program (p : Parser) : m (Along toks p.position Stmt) := do
  let ⟨items, q, hq⟩ ← programItems R toks p
  match q.state.chain items with
  | (some root, s) => pure ⟨root, q.withState s, hq⟩
  | (none, s) => R.fail (unexpected toks (q.withState s) .statement)

end Run

end Parser

end ScopedC

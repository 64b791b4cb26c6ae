import ScopedC.Parse.State
namespace ScopedC

namespace Parse

-- The binary precedence levels, loosest first.
inductive Level where
  | or | and | rel | add | mul
deriving DecidableEq, Repr

namespace Level

def binOp? : Level → TokenKind → Option BinOp
  | .or, .punct .orOr => some .or
  | .and, .punct .andAnd => some .and
  | .rel, .punct .lt => some .lt
  | .rel, .punct .gt => some .gt
  | .rel, .punct .le => some .le
  | .rel, .punct .ge => some .ge
  | .rel, .punct .eqEq => some .eq
  | .rel, .punct .notEq => some .ne
  | .add, .punct .plus => some .add
  | .add, .punct .minus => some .sub
  | .mul, .punct .star => some .mul
  | .mul, .punct .slash => some .div
  | .mul, .punct .percent => some .mod
  | _, _ => none

def tighter? : Level → Option Level
  | .or => some .and
  | .and => some .rel
  | .rel => some .add
  | .add => some .mul
  | .mul => none

def height : Level → Nat
  | .or => 4
  | .and => 3
  | .rel => 2
  | .add => 1
  | .mul => 0

theorem height_of_tighter? {lvl l : Level} (h : lvl.tighter? = some l) :
    l.height + 1 = lvl.height := by
  cases lvl <;> simp [tighter?] at h <;> subst h <;> rfl

theorem tighter_induction {motive : Level → Prop} (lvl : Level)
    (step : ∀ lvl, (∀ l, lvl.tighter? = some l → motive l) → motive lvl) : motive lvl := by
  -- `mul` has no tighter level; each other level has the one built before it
  have hmul := step .mul fun l h => by cases h
  have hadd := step .add fun l h => by cases h; exact hmul
  have hrel := step .rel fun l h => by cases h; exact hadd
  have hand := step .and fun l h => by cases h; exact hrel
  have hor := step .or fun l h => by cases h; exact hand
  cases lvl <;> assumption

end Level

def prefixOp? : TokenKind → Option UnOp
  | .punct .minus => some .neg
  | .punct .plus => some .pos
  | .punct .bang => some .not
  | .punct .plusPlus => some .preInc
  | .punct .minusMinus => some .preDec
  | _ => none

mutual

def expression (stop : Pos) (depth : Nat) (s : ParseState) (ts : List Token) :
    Except Failure (Step ts Expr) := do
  let depth ← deeper stop depth s ts
  chain stop depth .or s ts
termination_by (ts.length, 2 * Level.or.height + 5)

def chain (stop : Pos) (depth : Nat) (lvl : Level) (s : ParseState) (ts : List Token) :
    Except Failure (Step ts Expr) := do
  let ⟨left, s, r, h⟩ ← operand stop depth lvl s ts
  let ⟨e, s, r', h'⟩ ← links stop depth lvl left s r
  pure ⟨e, s, r', by omega⟩
termination_by (ts.length, 2 * lvl.height + 4)

def operand (stop : Pos) (depth : Nat) (lvl : Level) (s : ParseState) (ts : List Token) :
    Except Failure (Step ts Expr) :=
  match h : lvl.tighter? with
  | some l =>
    have := Level.height_of_tighter? h
    chain stop depth l s ts
  | none => unary stop depth s ts
termination_by (ts.length, 2 * lvl.height + 3)

-- Each operand after an operator nests one level deeper than the one before.
def links (stop : Pos) (depth : Nat) (lvl : Level) (left : Expr) (s : ParseState)
    (ts : List Token) : Except Failure (Steps ts Expr) :=
  match ts with
  | t :: r =>
    match lvl.binOp? t.kind with
    | some op => do
      let depth ← deeper stop depth s r
      let ⟨right, s, r', h⟩ ← operand stop depth lvl s r
      let (label, s) := s.freshLabel
      let (node, s) := s.freshNode
      let ⟨e, s, r'', h'⟩ ← links stop depth lvl (.binary node op left right label) s r'
      pure ⟨e, s, r'', Nat.le_succ_of_le (Nat.le_trans h' (Nat.le_of_lt h))⟩
    | none => pure ⟨left, s, t :: r, Nat.le_refl _⟩
  | [] => pure ⟨left, s, [], Nat.le_refl _⟩
termination_by (ts.length, 0)

def unary (stop : Pos) (depth : Nat) (s : ParseState) (ts : List Token) :
    Except Failure (Step ts Expr) :=
  match ts with
  | t :: r =>
    match prefixOp? t.kind with
    | some op => do
      let depth ← deeper stop depth s r
      let ⟨arg, s, r', h⟩ ← unary stop depth s r
      let (label, s) := s.freshLabel
      let (node, s) := s.freshNode
      pure ⟨.unary node op arg label, s, r', by simp only [List.length_cons]; omega⟩
    | none => primary stop depth s (t :: r)
  | [] => primary stop depth s []
termination_by (ts.length, 1)

def primary (stop : Pos) (depth : Nat) (s : ParseState) (ts : List Token) :
    Except Failure (Step ts Expr) :=
  match ts with
  | ⟨.num v, _⟩ :: r =>
    let (node, s) := s.freshNode
    pure ⟨.lit node v, s, r, by simp⟩
  | ⟨.ident name, pos⟩ :: ⟨.punct .lparen, q⟩ :: r => do
    let callee ← s.resolve name pos (⟨.ident name, pos⟩ :: ⟨.punct .lparen, q⟩ :: r)
    let ⟨e, s, r', h⟩ ← call stop depth callee s r
    pure ⟨e, s, r', by simp only [List.length_cons]; omega⟩
  | ⟨.ident name, pos⟩ :: r => do
    let entry ← s.resolve name pos (⟨.ident name, pos⟩ :: r)
    let (i, s) := s.identNode entry none
    pure ⟨.ident i, s, r, by simp⟩
  | ⟨.punct .lparen, _⟩ :: r => do
    let ⟨e, s, r', h⟩ ← expression stop depth s r
    let ⟨r'', h'⟩ ← expect stop s .rparen .expression r'
    pure ⟨e, s, r'', by simp only [List.length_cons]; omega⟩
  | ts => .error (unexpected stop s ts .expression)
termination_by (ts.length, 0)

def call (stop : Pos) (depth : Nat) (callee : Entry) (s : ParseState) (ts : List Token) :
    Except Failure (Step ts Expr) :=
  match ts with
  | ⟨.punct .rparen, _⟩ :: r =>
    let (node, s) := s.freshNode
    pure ⟨.call node callee [], s, r, by simp only [List.length_cons]; omega⟩
  | ts => do
    let ⟨args, s, r, h⟩ ← arguments stop depth s ts
    let ⟨r', h'⟩ ← expect stop s .rparen .arguments r
    let (node, s) := s.freshNode
    pure ⟨.call node callee args, s, r', by omega⟩
termination_by (ts.length, 2 * Level.or.height + 7)

def arguments (stop : Pos) (depth : Nat) (s : ParseState) (ts : List Token) :
    Except Failure (Step ts (List Expr)) := do
  let ⟨e, s, r, h⟩ ← expression stop depth s ts
  match r, h with
  | ⟨.punct .comma, _⟩ :: r', h =>
    have : r'.length < ts.length := by simp only [List.length_cons] at h; omega
    let ⟨more, s, r'', h'⟩ ← arguments stop depth s r'
    pure ⟨e :: more, s, r'', by omega⟩
  | r, h => pure ⟨[e], s, r, h⟩
termination_by (ts.length, 2 * Level.or.height + 6)

end

section

variable {stop : Pos} {depth : Nat} {lvl l : Level} {s : ParseState} {ts : List Token}

theorem operand_eq_chain (h : lvl.tighter? = some l) :
    operand stop depth lvl s ts = chain stop depth l s ts := by
  rw [operand.eq_def]
  split
  · rename_i l' h'
    cases h.symm.trans h'
    rfl
  · rename_i h'
    cases h.symm.trans h'

theorem operand_eq_unary (h : lvl.tighter? = none) :
    operand stop depth lvl s ts = unary stop depth s ts := by
  rw [operand.eq_def]
  split
  · rename_i l' h'
    cases h.symm.trans h'
  · rfl

end

end Parse

end ScopedC

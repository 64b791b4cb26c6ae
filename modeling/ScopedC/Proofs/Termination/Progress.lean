import ScopedC.Proofs.Termination.Checked
import ScopedC.Proofs.Numbering.Parse
import ScopedC.Proofs.EndOfInput
namespace ScopedC

namespace Parse

-- A call that reads no token first goes from a routine to one of lower rank.
def Routine.rank : Routine → Nat
  | .programItems | .blockItems => 19
  | .statement => 18
  | .declarators | .formals => 17
  | .arguments => 14
  | .expression => 13
  | .unary => 1
  | .links => 0

theorem Level.height_le (lvl : Level) : lvl.height ≤ 4 := by
  cases lvl <;> decide

namespace Checked

section Run

variable {α β σ τ : Type}

-- A parse step that calls no watched routine is taken as it is, and its continuation is
-- compared with the parse's.
theorem bind_plain {x : Except Failure σ} {k : σ → Except Failure τ} {q : τ → β}
    {k' : σ → Run β} (hk : ∀ a, k' a = lift ((k a).map q)) :
    lift x >>= k' = lift ((x >>= k).map q) := by
  cases x with
  | error e => rfl
  | ok a => exact hk a

-- A checked step that gives the parse step's parts, and a continuation that agrees on them.
theorem bind_step {w : Run α} {x : Except Failure σ} {p : σ → α} (hw : w = lift (x.map p))
    {k : σ → Except Failure τ} {q : τ → β} {k' : α → Run β}
    (hk : ∀ a, k' (p a) = lift ((k a).map q)) :
    w >>= k' = lift ((x >>= k).map q) := by
  subst hw
  cases x with
  | error e => rfl
  | ok a => exact hk a

-- A checked tail call, where the parse only rebuilds the length fact of what it returns.
theorem tail_step {w : Run α} {x : Except Failure σ} {p : σ → α} (hw : w = lift (x.map p))
    {k : σ → Except Failure τ} {q : τ → α} (hk : ∀ a, (k a).map q = .ok (p a)) :
    w = lift ((x >>= k).map q) := by
  subst hw
  cases x with
  | error e => rfl
  | ok a =>
    show pure (p a) = lift ((k a).map q)
    rw [hk a]
    rfl

-- A checked call whose result the parse only restates with a longer length fact.
theorem map_step {w : Run α} {x : Except Failure σ} {p : σ → α} (hw : w = lift (x.map p))
    {f : σ → τ} {q : τ → α} (hf : ∀ a, q (f a) = p a) :
    w = lift ((x.map f).map q) := by
  subst hw
  cases x with
  | error e => rfl
  | ok a => exact congrArg (pure : α → Run α) (hf a).symm

end Run

def Below (stack : List Frame) (n k : Nat) : Prop :=
  ∀ f ∈ stack, n < f.left ∨ n = f.left ∧ k < f.routine.rank

section Below

variable {stack : List Frame} {n m k k' : Nat}

theorem below_nil : Below [] n k := by
  intro f hf
  cases hf

-- A routine entered below the stack at its own rank finds fewer tokens than at each of its
-- earlier entries.
theorem Below.progressed {r : Routine} (below : Below stack n r.rank) :
    progressed stack r n = true := by
  unfold Checked.progressed
  rw [List.all_eq_true]
  intro f hf
  rcases below f hf with fewer | ⟨rfl, higher⟩
  · simp [fewer]
  · have other : f.routine ≠ r := fun same => by rw [same] at higher; omega
    simp [other]

-- A call with fewer tokens left, or with as many to a lower rank, stays below the stack.
theorem Below.descend (below : Below stack n k) (step : m < n ∨ m = n ∧ k' < k) :
    Below stack m k' := by
  intro f hf
  rcases below f hf with fewer | ⟨rfl, higher⟩
  · left
    omega
  · rcases step with fewer' | ⟨rfl, lower⟩
    · left
      exact fewer'
    · right
      exact ⟨rfl, Nat.lt_trans lower higher⟩

-- The entry of a routine is below the stack for every call it makes.
theorem Below.enter {r : Routine} (below : Below stack n r.rank)
    (step : m < n ∨ m = n ∧ k < r.rank) : Below (⟨r, n⟩ :: stack) m k := by
  intro f hf
  rcases List.mem_cons.mp hf with rfl | older
  · rcases step with fewer | ⟨rfl, lower⟩
    · left
      exact fewer
    · right
      exact ⟨rfl, lower⟩
  · exact (below.descend step) f older

-- The fuel exceeds twenty units a token and the rank, and the stack is above the call.
structure Fits (fuel : Nat) (stack : List Frame) (n k : Nat) : Prop where
  room : 20 * n + k < fuel
  below : Below stack n k

variable {fuel : Nat}

theorem Fits.start (room : 20 * n + k < fuel) : Fits fuel [] n k := ⟨room, below_nil⟩

theorem Fits.spend (fits : Fits fuel stack n k) : ∃ rest, fuel = rest + 1 :=
  ⟨fuel - 1, by have := fits.room; omega⟩

theorem Fits.progressed {r : Routine} (fits : Fits fuel stack n r.rank) :
    progressed stack r n = true :=
  fits.below.progressed

-- A call spends a unit of fuel. It still fits with as many tokens left at a lower rank,
theorem Fits.lower (fits : Fits (fuel + 1) stack n k) (lower : k' < k) : Fits fuel stack n k' := by
  have room := fits.room
  exact ⟨by omega, fits.below.descend (.inr ⟨rfl, lower⟩)⟩

-- or with fewer tokens left at any rank below twenty.
theorem Fits.fewer (fits : Fits (fuel + 1) stack n k) (fewer : m < n) (bound : k' < 20) :
    Fits fuel stack m k' := by
  have room := fits.room
  exact ⟨by omega, fits.below.descend (.inl fewer)⟩

-- So do the calls of a routine just entered, on the stack with that entry on top.
theorem Fits.enter_lower {r : Routine} (fits : Fits (fuel + 1) stack n r.rank)
    (lower : k < r.rank) : Fits fuel (⟨r, n⟩ :: stack) n k := by
  have room := fits.room
  exact ⟨by omega, fits.below.enter (.inr ⟨rfl, lower⟩)⟩

theorem Fits.enter_fewer {r : Routine} (fits : Fits (fuel + 1) stack n r.rank) (fewer : m < n)
    (bound : k < 20) : Fits fuel (⟨r, n⟩ :: stack) m k := by
  have room := fits.room
  exact ⟨by omega, fits.below.enter (.inl fewer)⟩

end Below

structure ExprAgrees (stop : Pos) (ts : List Token) : Prop where
  expression {fuel depth : Nat} {stack : List Frame} {s : ParseState} :
    Fits fuel stack ts.length Routine.expression.rank →
    expression fuel stop depth stack s ts =
      lift ((Parse.expression stop depth s ts).map Step.parts)
  chain {fuel depth : Nat} {stack : List Frame} {lvl : Level} {s : ParseState} :
    Fits fuel stack ts.length (2 * lvl.height + 4) →
    chain fuel stop depth stack lvl s ts = lift ((Parse.chain stop depth lvl s ts).map Step.parts)
  operand {fuel depth : Nat} {stack : List Frame} {lvl : Level} {s : ParseState} :
    Fits fuel stack ts.length (2 * lvl.height + 3) →
    operand fuel stop depth stack lvl s ts =
      lift ((Parse.operand stop depth lvl s ts).map Step.parts)
  links {fuel depth : Nat} {stack : List Frame} {lvl : Level} {left : Expr} {s : ParseState} :
    Fits fuel stack ts.length Routine.links.rank →
    links fuel stop depth stack lvl left s ts =
      lift ((Parse.links stop depth lvl left s ts).map Steps.parts)
  unary {fuel depth : Nat} {stack : List Frame} {s : ParseState} :
    Fits fuel stack ts.length Routine.unary.rank →
    unary fuel stop depth stack s ts = lift ((Parse.unary stop depth s ts).map Step.parts)
  primary {fuel depth : Nat} {stack : List Frame} {s : ParseState} :
    Fits fuel stack ts.length 0 →
    primary fuel stop depth stack s ts = lift ((Parse.primary stop depth s ts).map Step.parts)
  arguments {fuel depth : Nat} {stack : List Frame} {s : ParseState} :
    Fits fuel stack ts.length Routine.arguments.rank →
    arguments fuel stop depth stack s ts =
      lift ((Parse.arguments stop depth s ts).map Step.parts)
  call {fuel depth : Nat} {stack : List Frame} {callee : Entry} {s : ParseState} :
    Fits fuel stack ts.length 15 →
    call fuel stop depth stack callee s ts =
      lift ((Parse.call stop depth callee s ts).map Step.parts)

section

variable {fuel : Nat} {stop : Pos} {depth : Nat} {stack : List Frame} {lvl l : Level}
  {s : ParseState} {ts : List Token}

theorem operand_eq_chain (h : lvl.tighter? = some l) :
    operand (fuel + 1) stop depth stack lvl s ts = chain fuel stop depth stack l s ts := by
  rw [operand]
  split
  · rename_i l' h'
    cases h.symm.trans h'
    rfl
  · rename_i h'
    cases h.symm.trans h'

theorem operand_eq_unary (h : lvl.tighter? = none) :
    operand (fuel + 1) stop depth stack lvl s ts = unary fuel stop depth stack s ts := by
  rw [operand]
  split
  · rename_i l' h'
    cases h.symm.trans h'
  · rfl

end

section

variable {fuel : Nat} {stop : Pos} {depth : Nat} {stack : List Frame} {s : ParseState}
  {ts : List Token}
variable (ih : ∀ ts' : List Token, ts'.length < ts.length → ExprAgrees stop ts')
include ih

theorem links_agrees {lvl : Level} {left : Expr} (fits : Fits fuel stack ts.length Routine.links.rank) :
    links fuel stop depth stack lvl left s ts =
      lift ((Parse.links stop depth lvl left s ts).map Steps.parts) := by
  obtain ⟨fuel, rfl⟩ := fits.spend
  rw [links, if_pos fits.progressed, Parse.links.eq_def]
  rcases ts with _ | ⟨t, r⟩
  · rfl
  dsimp only
  cases lvl.binOp? t.kind with
  | none => rfl
  | some op =>
    dsimp only
    refine bind_plain fun depth' => ?_
    -- the operator is read before the operand, so both calls have fewer tokens left
    have fewer : r.length < (t :: r).length := by simp
    have operandRank : 2 * lvl.height + 3 < 20 := by have := lvl.height_le; omega
    refine bind_step ((ih r fewer).operand (fits.enter_fewer fewer operandRank)) fun x => ?_
    obtain ⟨right, s1, r1, h1⟩ := x
    have fewer' : r1.length < (t :: r).length := Nat.lt_trans h1 fewer
    exact tail_step ((ih r1 fewer').links (fits.enter_fewer fewer' (by decide))) fun y => rfl

theorem primary_agrees (fits : Fits fuel stack ts.length 0) :
    primary fuel stop depth stack s ts = lift ((Parse.primary stop depth s ts).map Step.parts) := by
  obtain ⟨fuel, rfl⟩ := fits.spend
  -- a literal or a name is read at once; a call or a parenthesis reads a token first
  rw [Parse.primary.eq_def]
  split
  · rw [primary.eq_2]
    rfl
  · rw [primary.eq_3]
    refine bind_plain fun callee => ?_
    rename_i name pos q r
    have fewer : r.length < (⟨.ident name, pos⟩ :: ⟨.punct .lparen, q⟩ :: r).length := by simp
    exact tail_step ((ih r fewer).call (fits.fewer fewer (by decide))) fun y => rfl
  · rename_i hr
    rw [primary.eq_4 _ _ _ _ _ _ _ _ hr]
    exact bind_plain fun entry => rfl
  · rw [primary.eq_5]
    rename_i pos r
    have fewer : r.length < (⟨.punct .lparen, pos⟩ :: r).length := by simp
    refine bind_step ((ih r fewer).expression (fits.fewer fewer (by decide)))
      fun x => ?_
    exact bind_plain fun y => rfl
  · rename_i h1 h2 h3 h4
    rw [primary.eq_6 _ _ _ _ _ _ h1 h2 h3 h4]
    rfl

theorem unary_agrees (fits : Fits fuel stack ts.length Routine.unary.rank) :
    unary fuel stop depth stack s ts = lift ((Parse.unary stop depth s ts).map Step.parts) := by
  obtain ⟨fuel, rfl⟩ := fits.spend
  rw [unary, if_pos fits.progressed, Parse.unary.eq_def]
  rcases ts with _ | ⟨t, r⟩
  · exact primary_agrees ih (fits.enter_lower (by decide))
  dsimp only
  cases prefixOp? t.kind with
  | none => exact primary_agrees ih (fits.enter_lower (by decide))
  | some op =>
    dsimp only
    refine bind_plain fun depth' => ?_
    have fewer : r.length < (t :: r).length := by simp
    refine bind_step ((ih r fewer).unary (fits.enter_fewer fewer (by decide))) fun x => ?_
    rfl

-- An operand is a chain of the next tighter level, or below the tightest a prefix
-- expression.
theorem operand_agrees_of {lvl : Level} (fits : Fits fuel stack ts.length (2 * lvl.height + 3))
    (tighter : ∀ {fuel' : Nat} {l : Level}, lvl.tighter? = some l →
      Fits fuel' stack ts.length (2 * l.height + 4) →
      chain fuel' stop depth stack l s ts = lift ((Parse.chain stop depth l s ts).map Step.parts)) :
    operand fuel stop depth stack lvl s ts =
      lift ((Parse.operand stop depth lvl s ts).map Step.parts) := by
  obtain ⟨fuel, rfl⟩ := fits.spend
  rcases hl : lvl.tighter? with _ | l
  · rw [operand_eq_unary hl, Parse.operand_eq_unary hl]
    exact unary_agrees ih (fits.lower (by simp only [Routine.rank]; omega))
  · have height := Level.height_of_tighter? hl
    rw [operand_eq_chain hl, Parse.operand_eq_chain hl]
    exact tighter hl (fits.lower (by omega))

theorem chain_agrees {lvl : Level} (fits : Fits fuel stack ts.length (2 * lvl.height + 4)) :
    chain fuel stop depth stack lvl s ts = lift ((Parse.chain stop depth lvl s ts).map Step.parts) := by
  -- by induction from the tightest level out, which the operands of a chain go down
  induction lvl using Level.tighter_induction generalizing fuel depth s with
  | step lvl ihl =>
    obtain ⟨fuel, rfl⟩ := fits.spend
    rw [chain, Parse.chain.eq_def]
    have operandFits : Fits fuel stack ts.length (2 * lvl.height + 3) :=
      fits.lower (by omega)
    refine bind_step (operand_agrees_of ih operandFits fun hl fits' => ihl _ hl fits') fun x => ?_
    obtain ⟨left, s1, r1, h1⟩ := x
    exact tail_step ((ih r1 h1).links (fits.fewer h1 (by decide))) fun y => rfl

theorem operand_agrees {lvl : Level} (fits : Fits fuel stack ts.length (2 * lvl.height + 3)) :
    operand fuel stop depth stack lvl s ts =
      lift ((Parse.operand stop depth lvl s ts).map Step.parts) :=
  operand_agrees_of ih fits fun _ fits' => chain_agrees ih fits'

theorem expression_agrees (fits : Fits fuel stack ts.length Routine.expression.rank) :
    expression fuel stop depth stack s ts =
      lift ((Parse.expression stop depth s ts).map Step.parts) := by
  obtain ⟨fuel, rfl⟩ := fits.spend
  rw [expression, if_pos fits.progressed, Parse.expression.eq_def]
  exact bind_plain fun depth' => chain_agrees ih (fits.enter_lower (by decide))

theorem arguments_agrees (fits : Fits fuel stack ts.length Routine.arguments.rank) :
    arguments fuel stop depth stack s ts =
      lift ((Parse.arguments stop depth s ts).map Step.parts) := by
  obtain ⟨fuel, rfl⟩ := fits.spend
  rw [arguments, if_pos fits.progressed, Parse.arguments.eq_def]
  refine bind_step (expression_agrees ih (fits.enter_lower (by decide))) fun x => ?_
  obtain ⟨e, s1, r1, h1⟩ := x
  -- both read one more argument exactly when a comma follows, found token by token
  rcases r1 with _ | ⟨⟨k, q⟩, r2⟩
  · rfl
  cases k
  case punct p =>
    cases p
    case comma =>
      have fewer : r2.length < ts.length := by simp only [List.length_cons] at h1; omega
      exact bind_step ((ih r2 fewer).arguments (fits.enter_fewer fewer (by decide)))
        fun y => rfl
    all_goals rfl
  all_goals rfl

theorem call_agrees {callee : Entry} (fits : Fits fuel stack ts.length 15) :
    call fuel stop depth stack callee s ts =
      lift ((Parse.call stop depth callee s ts).map Step.parts) := by
  obtain ⟨fuel, rfl⟩ := fits.spend
  rw [Parse.call.eq_def]
  split
  · rw [call.eq_2]
    rfl
  · rename_i hne
    rw [call.eq_3 _ _ _ _ _ _ _ hne]
    refine bind_step (arguments_agrees ih (fits.lower (by decide))) fun x => ?_
    exact bind_plain fun y => rfl

theorem exprAgrees_of_shorter : ExprAgrees stop ts :=
  { expression := expression_agrees ih
    chain := chain_agrees ih
    operand := operand_agrees ih
    links := links_agrees ih
    unary := unary_agrees ih
    primary := primary_agrees ih
    arguments := arguments_agrees ih
    call := call_agrees ih }

end

theorem exprAgrees (stop : Pos) (ts : List Token) : ExprAgrees stop ts := by
  induction ts using tokens_induction with
  | shorter ts ih => exact exprAgrees_of_shorter ih

section

variable {fuel : Nat} {stop : Pos} {depth : Nat} {stack : List Frame} {s : ParseState}
  {ts : List Token}

theorem initializer_agrees (fits : Fits fuel stack ts.length 16) :
    initializer fuel stop depth stack s ts =
      lift ((Parse.initializer stop depth s ts).map Steps.parts) := by
  obtain ⟨fuel, rfl⟩ := fits.spend
  rw [Parse.initializer.eq_def]
  split
  · rename_i pos r
    rw [initializer.eq_2]
    have fewer : r.length < (⟨.punct .assign, pos⟩ :: r).length := by simp
    exact bind_step ((exprAgrees stop r).expression (fits.fewer fewer (by decide)))
      fun x => rfl
  · rename_i hne
    rw [initializer.eq_3 _ _ _ _ _ _ hne]
    rfl

theorem declarators_agrees {acc : List (String × Option Expr)}
    (fits : Fits fuel stack ts.length Routine.declarators.rank) :
    declarators fuel stop depth stack s ts acc =
      lift ((Parse.declarators stop depth s ts acc).map Step.parts) := by
  -- by induction on the tokens left, as each further declarator follows a comma
  induction ts using tokens_induction generalizing fuel s acc stack with
  | shorter ts ih =>
    obtain ⟨fuel, rfl⟩ := fits.spend
    rw [declarators, if_pos fits.progressed, Parse.declarators.eq_def]
    refine bind_plain fun x => ?_
    obtain ⟨name, r1, h1⟩ := x
    refine bind_step (initializer_agrees (fits.enter_fewer h1 (by decide))) fun y => ?_
    obtain ⟨init, s1, r2, h2⟩ := y
    rcases r2 with _ | ⟨⟨k, q⟩, r3⟩
    · rfl
    cases k
    case punct p =>
      cases p
      case comma =>
        have fewer : r3.length < ts.length := by simp only [List.length_cons] at h2; omega
        exact tail_step (ih _ fewer (fits.enter_fewer fewer (by decide)))
          fun z => rfl
      all_goals rfl
    all_goals rfl

theorem declaration_agrees (fits : Fits fuel stack ts.length 17) :
    declaration fuel stop depth stack s ts =
      lift ((Parse.declaration stop depth s ts).map Step.parts) := by
  obtain ⟨fuel, rfl⟩ := fits.spend
  rw [declaration, Parse.declaration]
  refine bind_plain fun x => ?_
  obtain ⟨ty, r1, h1⟩ := x
  refine bind_step (declarators_agrees (fits.fewer h1 (by decide))) fun y => ?_
  exact bind_plain fun z => rfl

theorem formals_agrees (fits : Fits fuel stack ts.length Routine.formals.rank) :
    formals fuel stop depth stack s ts = lift ((Parse.formals stop depth s ts).map Step.parts) := by
  -- by induction on the tokens left, as each further parameter follows a comma
  induction ts using tokens_induction generalizing fuel s stack with
  | shorter ts ih =>
    obtain ⟨fuel, rfl⟩ := fits.spend
    rw [formals, if_pos fits.progressed, Parse.formals.eq_def]
    refine bind_plain fun x => ?_
    obtain ⟨ty, r1, h1⟩ := x
    refine bind_plain fun y => ?_
    obtain ⟨name, r2, h2⟩ := y
    have fewer : r2.length < ts.length := Nat.lt_trans h2 h1
    refine bind_step (initializer_agrees (fits.enter_fewer fewer (by decide))) fun z => ?_
    obtain ⟨default, s1, r3, h3⟩ := z
    rcases r3 with _ | ⟨⟨k, q⟩, r4⟩
    · rfl
    cases k
    case punct p =>
      cases p
      case comma =>
        have fewer' : r4.length < ts.length := by simp only [List.length_cons] at h3; omega
        exact bind_step (ih _ fewer' (fits.enter_fewer fewer' (by decide)))
          fun w => rfl
      all_goals rfl
    all_goals rfl

theorem formalsOrNone_agrees (fits : Fits fuel stack ts.length 18) :
    formalsOrNone fuel stop depth stack s ts =
      lift ((Parse.formalsOrNone stop depth s ts).map Steps.parts) := by
  obtain ⟨fuel, rfl⟩ := fits.spend
  rw [formalsOrNone, Parse.formalsOrNone]
  by_cases h : atPunct .rparen ts
  · rw [if_pos h, if_pos h]
    rfl
  · rw [if_neg h, if_neg h]
    exact tail_step (formals_agrees (fits.lower (by decide))) fun x => rfl

theorem exprStatement_agrees (fits : Fits fuel stack ts.length 16) :
    exprStatement fuel stop depth stack s ts =
      lift ((Parse.exprStatement stop depth s ts).map Step.parts) := by
  obtain ⟨fuel, rfl⟩ := fits.spend
  rw [exprStatement, Parse.exprStatement]
  refine bind_step ((exprAgrees stop ts).expression (fits.lower (by decide)))
    fun x => ?_
  exact bind_plain fun y => rfl

theorem assignment_agrees {entry : Entry} (fits : Fits fuel stack ts.length 16) :
    assignment fuel stop depth stack entry s ts =
      lift ((Parse.assignment stop depth entry s ts).map Step.parts) := by
  obtain ⟨fuel, rfl⟩ := fits.spend
  rw [assignment, Parse.assignment]
  refine bind_step ((exprAgrees stop ts).expression (fits.lower (by decide)))
    fun x => ?_
  exact bind_plain fun y => rfl

theorem jump_agrees {k : Keyword} (fits : Fits fuel stack ts.length 16) :
    jump fuel stop depth stack k s ts = lift ((Parse.jump stop depth k s ts).map Steps.parts) := by
  obtain ⟨fuel, rfl⟩ := fits.spend
  rw [Parse.jump.eq_def]
  split
  · rw [jump.eq_2]
    refine bind_step ((exprAgrees stop ts).expression (fits.lower (by decide)))
      fun x => ?_
    exact bind_plain fun y => rfl
  · rw [jump.eq_3]
    exact bind_plain fun x => rfl
  · rename_i h1 h2
    rw [jump.eq_4 _ _ _ _ _ _ _ h1 h2]
    exact bind_plain fun x => rfl

end

structure StmtAgrees (stop : Pos) (ts : List Token) : Prop where
  statement {fuel depth : Nat} {stack : List Frame} {s : ParseState} :
    Fits fuel stack ts.length Routine.statement.rank →
    statement fuel stop depth stack s ts = lift ((Parse.statement stop depth s ts).map Step.parts)
  block {fuel depth : Nat} {stack : List Frame} {s : ParseState} :
    Fits fuel stack ts.length 17 →
    block fuel stop depth stack s ts = lift ((Parse.block stop depth s ts).map Step.parts)
  blockItems {fuel depth : Nat} {stack : List Frame} {s : ParseState} :
    Fits fuel stack ts.length Routine.blockItems.rank →
    blockItems fuel stop depth stack s ts =
      lift ((Parse.blockItems stop depth s ts).map Steps.parts)

section

variable {fuel : Nat} {stop : Pos} {depth : Nat} {stack : List Frame} {s : ParseState}
  {ts : List Token}
variable (ih : ∀ ts' : List Token, ts'.length < ts.length → StmtAgrees stop ts')
include ih

theorem block_agrees (fits : Fits fuel stack ts.length 17) :
    block fuel stop depth stack s ts = lift ((Parse.block stop depth s ts).map Step.parts) := by
  obtain ⟨fuel, rfl⟩ := fits.spend
  rw [block, Parse.block.eq_def]
  refine bind_plain fun x => ?_
  obtain ⟨r1, h1⟩ := x
  refine bind_step ((ih r1 h1).blockItems (fits.fewer h1 (by decide))) fun y => ?_
  obtain ⟨items, s1, r2, h2⟩ := y
  refine bind_plain fun z => ?_
  refine bind_plain fun s2 => ?_
  dsimp only
  rcases s2.chain items with ⟨_ | inner, s3⟩ <;> rfl

theorem funcDef_agrees (fits : Fits fuel stack ts.length 17) :
    funcDef fuel stop depth stack s ts = lift ((Parse.funcDef stop depth s ts).map Step.parts) := by
  obtain ⟨fuel, rfl⟩ := fits.spend
  rw [funcDef, Parse.funcDef.eq_def]
  refine bind_plain fun x => ?_
  obtain ⟨ret, r1, h1⟩ := x
  refine bind_plain fun y => ?_
  obtain ⟨name, r2, h2⟩ := y
  refine bind_plain fun z => ?_
  obtain ⟨r3, h3⟩ := z
  -- the type, the name and the parenthesis are read before the parameters and the body
  have fewer3 : r3.length < ts.length := by omega
  refine bind_step (formalsOrNone_agrees (fits.fewer fewer3 (by decide))) fun w => ?_
  obtain ⟨fs, s1, r4, h4⟩ := w
  dsimp only [Steps.parts]
  refine bind_plain fun v => ?_
  obtain ⟨r5, h5⟩ := v
  have fewer5 : r5.length < ts.length := by omega
  refine bind_step ((ih r5 fewer5).block (fits.fewer fewer5 (by decide))) fun u => ?_
  obtain ⟨body, s2, r6, h6⟩ := u
  refine bind_plain fun s3 => ?_
  rcases s3.scopes.lookup name with _ | e <;> rfl

theorem statement_agrees (fits : Fits fuel stack ts.length Routine.statement.rank) :
    statement fuel stop depth stack s ts =
      lift ((Parse.statement stop depth s ts).map Step.parts) := by
  obtain ⟨fuel, rfl⟩ := fits.spend
  rw [statement, if_pos fits.progressed, Parse.statement.eq_def]
  dsimp only
  by_cases deep : depth < nestingLimit
  · rw [if_pos deep, if_pos deep]
    -- each form of statement is told apart by its first token, read the same way by both
    rcases ts with _ | ⟨⟨k, p⟩, r⟩
    · exact exprStatement_agrees (fits.enter_lower (by decide))
    have fewer : r.length < (⟨k, p⟩ :: r).length := by simp
    dsimp only
    cases k with
    | num v => exact exprStatement_agrees (fits.enter_lower (by decide))
    | eof => exact exprStatement_agrees (fits.enter_lower (by decide))
    | ident name =>
      rcases r with _ | ⟨a, r'⟩
      · exact exprStatement_agrees (fits.enter_lower (by decide))
      dsimp only
      by_cases assign : a.kind = .punct .assign
      · rw [if_pos assign, if_pos assign]
        refine bind_plain fun entry => ?_
        have fewer' : r'.length < (⟨.ident name, p⟩ :: a :: r').length := by simp
        exact map_step (assignment_agrees (fits.enter_fewer fewer' (by decide))) fun x => rfl
      · rw [if_neg assign, if_neg assign]
        exact exprStatement_agrees (fits.enter_lower (by decide))
    | keyword kw =>
      cases kw with
      | intKw | voidKw | constKw =>
        dsimp only
        -- both sides ask the same question of the same tokens
        split
        · exact funcDef_agrees ih (fits.enter_lower (by decide))
        · exact declaration_agrees (fits.enter_lower (by decide))
      | ifKw =>
        refine bind_plain fun x => ?_
        obtain ⟨r1, h1⟩ := x
        have fewer1 : r1.length < (⟨.keyword .ifKw, p⟩ :: r).length := Nat.lt_trans h1 fewer
        refine bind_step ((exprAgrees stop r1).expression
          (fits.enter_fewer fewer1 (by decide))) fun y => ?_
        obtain ⟨c, s1, r2, h2⟩ := y
        dsimp only [Step.parts]
        refine bind_plain fun z => ?_
        obtain ⟨r3, h3⟩ := z
        have fewer3 : r3.length < (⟨.keyword .ifKw, p⟩ :: r).length := by omega
        refine bind_step ((ih r3 fewer3).statement (fits.enter_fewer fewer3 (by decide)))
          fun w => ?_
        obtain ⟨th, s2, r4, h4⟩ := w
        -- an else after the first branch is read by both
        rcases r4 with _ | ⟨⟨k, q⟩, r5⟩
        · rfl
        cases k
        case keyword kw =>
          cases kw
          case elseKw =>
            have fewer5 : r5.length < (⟨.keyword .ifKw, p⟩ :: r).length := by
              simp only [List.length_cons] at h4 ⊢
              omega
            exact bind_step ((ih r5 fewer5).statement (fits.enter_fewer fewer5 (by decide)))
              fun v => rfl
          all_goals rfl
        all_goals rfl
      | whileKw =>
        refine bind_plain fun x => ?_
        obtain ⟨r1, h1⟩ := x
        have fewer1 : r1.length < (⟨.keyword .whileKw, p⟩ :: r).length := Nat.lt_trans h1 fewer
        refine bind_step ((exprAgrees stop r1).expression
          (fits.enter_fewer fewer1 (by decide))) fun y => ?_
        obtain ⟨c, s1, r2, h2⟩ := y
        dsimp only [Step.parts]
        refine bind_plain fun z => ?_
        obtain ⟨r3, h3⟩ := z
        have fewer3 : r3.length < (⟨.keyword .whileKw, p⟩ :: r).length := by omega
        exact bind_step ((ih r3 fewer3).statement (fits.enter_fewer fewer3 (by decide)))
          fun w => rfl
      | returnKw | breakKw | continueKw =>
        dsimp only
        exact map_step (jump_agrees (fits.enter_fewer fewer (by decide))) fun x => rfl
      | elseKw => exact exprStatement_agrees (fits.enter_lower (by decide))
    | punct q =>
      cases q
      case lbrace => exact block_agrees ih (fits.enter_lower (by decide))
      case semicolon => rfl
      all_goals exact exprStatement_agrees (fits.enter_lower (by decide))
  · rw [if_neg deep, if_neg deep]
    rfl

theorem blockItems_agrees (fits : Fits fuel stack ts.length Routine.blockItems.rank) :
    blockItems fuel stop depth stack s ts =
      lift ((Parse.blockItems stop depth s ts).map Steps.parts) := by
  obtain ⟨fuel, rfl⟩ := fits.spend
  rw [blockItems, if_pos fits.progressed, Parse.blockItems.eq_def]
  rcases ts with _ | ⟨t, r⟩
  · rfl
  dsimp only
  by_cases close : t.kind = .punct .rbrace
  · rw [if_pos close, if_pos close]
    rfl
  · rw [if_neg close, if_neg close]
    refine bind_step (statement_agrees ih (fits.enter_lower (by decide))) fun x => ?_
    obtain ⟨st, s1, r1, h1⟩ := x
    exact bind_step ((ih r1 h1).blockItems (fits.enter_fewer h1 (by decide))) fun y => rfl

theorem stmtAgrees_of_shorter : StmtAgrees stop ts :=
  { statement := statement_agrees ih
    block := block_agrees ih
    blockItems := blockItems_agrees ih }

end

theorem stmtAgrees (stop : Pos) (ts : List Token) : StmtAgrees stop ts := by
  induction ts using tokens_induction with
  | shorter ts ih => exact stmtAgrees_of_shorter ih

theorem programItems_agrees {fuel : Nat} {stop : Pos} {stack : List Frame} {s : ParseState}
    {ts : List Token} (fits : Fits fuel stack ts.length Routine.programItems.rank) :
    programItems fuel stop stack s ts = lift ((Parse.programItems stop s ts).map Steps.parts) := by
  -- by induction on the tokens left, as each statement reads at least one
  induction ts using tokens_induction generalizing fuel s stack with
  | shorter ts ih =>
    obtain ⟨fuel, rfl⟩ := fits.spend
    rw [programItems, if_pos fits.progressed, Parse.programItems.eq_def]
    rcases ts with _ | ⟨t, r⟩
    · rfl
    refine bind_step ((stmtAgrees stop _).statement (fits.enter_lower (by decide)))
      fun x => ?_
    obtain ⟨st, s1, r1, h1⟩ := x
    exact bind_step (ih _ h1 (fits.enter_fewer h1 (by decide))) fun y => rfl

theorem parseFrom_agrees {fuel : Nat} (s : ParseState) (toks : List Token)
    (room : 20 * (Program.input toks).1.length + 19 < fuel) :
    parseFrom fuel s toks = lift (Program.parseFrom s toks) := by
  -- the program is compared whole, as the parse gives it
  have whole : Program.parseFrom s toks = (Program.parseFrom s toks).map id := by
    rw [Except.map_id]
    rfl
  rw [whole]
  unfold parseFrom Program.parseFrom
  revert room
  rcases Program.input toks with ⟨ts, stop⟩
  intro room
  dsimp only
  refine bind_step (programItems_agrees (Fits.start room)) fun x => ?_
  obtain ⟨items, s1, r1, h1⟩ := x
  dsimp only [Steps.parts]
  rcases s1.chain items with ⟨_ | root, s2⟩ <;> rfl

end Checked

-- A statement read successfully has read at least one token.
theorem statement_consumes {stop : Pos} {depth : Nat} {s : ParseState} {ts : List Token}
    {x : Step ts Stmt} (h : statement stop depth s ts = .ok x) :
    ∃ read, read ≠ [] ∧ ts = read ++ x.rest := by
  obtain ⟨read, split⟩ := statement_suffix h
  have lengths := congrArg List.length split
  rw [List.length_append] at lengths
  refine ⟨read, ?_, split.symm⟩
  -- the rest is shorter than the input, so the part read is not empty
  intro empty
  rw [empty, List.length_nil] at lengths
  have shorter := x.shorter
  omega

end Parse

open Parse in
theorem parse_terminates_reading_tokens (s : ParseState) (toks : List Token) :
    (Checked.parseFrom (20 * toks.length + 20) s toks).run =
      some ((Program.parseFrom s toks).mapError .failed) ∧
    ∀ (stop : Pos) (depth : Nat) (s : ParseState) (ts : List Token) (x : Step ts Stmt),
      statement stop depth s ts = .ok x → ∃ read, read ≠ [] ∧ ts = read ++ x.rest := by
  have body : (Program.input toks).1.length ≤ toks.length := by
    rw [Program.input_fst]
    exact (List.takeWhile_prefix _).length_le
  refine ⟨?_, fun _ _ _ _ _ h => statement_consumes h⟩
  rw [Checked.parseFrom_agrees s toks (by omega)]
  rfl

end ScopedC

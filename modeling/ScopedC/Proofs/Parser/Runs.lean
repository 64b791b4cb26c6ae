import ScopedC.Proofs.Parser.Depth
namespace ScopedC

namespace Parser

variable {m n : Type → Type} [Monad m] [Monad n] {R : Runner m} {R' : Runner n}
  {toks : Array Token} {α β : Type}

-- A fault the parser reports itself: anything but the nesting error, which only a refused
-- nesting level gives.
def Reported (f : Fault) : Prop := ∀ pos, f.error ≠ .malformed .tooDeep pos

-- A step that can only fail with a fault it reports itself.
def Reports (x : Except Fault α) : Prop := ∀ f, x = .error f → Reported f

section Reports

variable (toks) {p : Parser}

theorem unexpected_reported (q : Parser) (w : Wanted) : Reported (unexpected toks q w) := by
  intro pos h
  simp [unexpected, syntaxError] at h

theorem reports_of_ok_or_unexpected {x : Except Fault α}
    (h : ∀ f, x = .error f → ∃ q w, f = unexpected toks q w) : Reports x := by
  intro f hf
  obtain ⟨q, w, rfl⟩ := h f hf
  exact unexpected_reported toks q w

theorem expect_reports (k : Punct) (site : Site) : Reports (expect toks p k site) := by
  refine reports_of_ok_or_unexpected toks fun f hf => ?_
  unfold expect at hf
  split at hf
  · cases hf
  · exact ⟨p, _, (Except.error.inj hf).symm⟩

theorem expectIdent_reports : Reports (expectIdent toks p) := by
  refine reports_of_ok_or_unexpected toks fun f hf => ?_
  unfold expectIdent at hf
  split at hf
  · cases hf
  · exact ⟨p, _, (Except.error.inj hf).symm⟩

theorem type_reports : Reports (type toks p) := by
  refine reports_of_ok_or_unexpected toks fun f hf => ?_
  unfold type at hf
  split at hf
  · cases hf
  · cases hf
  · split at hf <;> cases hf
  · exact ⟨p, _, (Except.error.inj hf).symm⟩

theorem resolve_reports (name : String) (pos : Pos) : Reports (p.resolve name pos) := by
  intro f hf pos' h
  unfold resolve ParseState.resolve at hf
  split at hf
  · cases hf
  · cases hf
    cases h

theorem exitScope_reports : Reports p.exitScope := by
  intro f hf pos h
  unfold exitScope ParseState.exit at hf
  split at hf
  · cases hf
  · cases hf
    cases h

theorem internal_reported (ie : InternalError) (q : Parser) : Reported ⟨.internal ie, q⟩ := by
  intro pos h
  cases h

end Reports

-- Two runs related step by step, failures only where the parser reports the fault itself.
structure RunRel (toks : Array Token) (R : Runner m) (R' : Runner n) where
  rel {α : Type} : m α → n α → Prop
  rel_pure {α : Type} (a : α) : rel (pure a) (pure a)
  rel_bind {α β : Type} {x : m α} {x' : n α} {f : α → m β} {f' : α → n β} :
    rel x x' → (∀ a, rel (f a) (f' a)) → rel (x >>= f) (x' >>= f')
  rel_fail {α : Type} (f : Fault) : Reported f → rel (R.fail f : m α) (R'.fail f)
  rel_unwind {α : Type} (g : Nat → Nat) {x : m α} {x' : n α} :
    rel x x' → rel (R.unwind g x) (R'.unwind g x')
  rel_level (q : Parser) :
    rel (R.level q.depth (syntaxError toks q .tooDeep)) (R'.level q.depth (syntaxError toks q .tooDeep))

namespace RunRel

variable (ρ : RunRel toks R R')

theorem rel_lift {x : Except Fault α} (hx : Reports x) : ρ.rel (R.lift x) (R'.lift x) := by
  cases x with
  | ok a => exact ρ.rel_pure a
  | error f => exact ρ.rel_fail f (hx f rfl)

theorem lift_bind {x : Except Fault α} {f : α → m β} {f' : α → n β} (hx : Reports x)
    (hf : ∀ a, ρ.rel (f a) (f' a)) : ρ.rel (R.lift x >>= f) (R'.lift x >>= f') :=
  ρ.rel_bind (ρ.rel_lift hx) hf

theorem nested_rel {p : Parser} {body : m (Ahead toks p.position α)}
    {body' : n (Ahead toks p.position α)} (hb : ρ.rel body body') :
    ρ.rel (nested R toks p body) (nested R' toks p body') := by
  unfold nested
  refine ρ.rel_bind (ρ.rel_level p) fun _ => ?_
  exact ρ.rel_unwind _ (ρ.rel_bind hb fun r => ρ.rel_pure _)

theorem restoring_rel {p : Parser} {body : m (Ahead toks p.position α)}
    {body' : n (Ahead toks p.position α)} (hb : ρ.rel body body') :
    ρ.rel (restoring R toks p body) (restoring R' toks p body') := by
  unfold restoring
  exact ρ.rel_unwind _ (ρ.rel_bind hb fun r => ρ.rel_pure _)

end RunRel

-- Every expression parser on `p`, run on `R`, is related to the same parser run on `R'`.
structure ExprRelated (ρ : RunRel toks R R') (p : Parser) : Prop where
  expression : ρ.rel (expression R toks p) (expression R' toks p)
  chain (lvl : Parse.Level) : ρ.rel (chain R toks lvl p) (chain R' toks lvl p)
  links (lvl : Parse.Level) (left : Expr) :
    ρ.rel (links R toks lvl left p) (links R' toks lvl left p)
  unary : ρ.rel (unary R toks p) (unary R' toks p)
  call (name : String) (loc : Pos) : ρ.rel (call R toks name loc p) (call R' toks name loc p)
  arguments : ρ.rel (arguments R toks p) (arguments R' toks p)

section Expressions

variable (ρ : RunRel toks R R') {p : Parser}
  (ih : ∀ q, toks.size - q.position < toks.size - p.position → ExprRelated ρ q)
include ih

theorem primary_related : ρ.rel (primary R toks p) (primary R' toks p) := by
  rw [primary.eq_def R, primary.eq_def R']
  dsimp only
  by_cases he : (peek toks p).kind = .eof
  · rw [dif_pos he, dif_pos he]
    exact ρ.rel_fail _ (unexpected_reported toks _ _)
  rw [dif_neg he, dif_neg he]
  have ha : toks.size - (advance toks p).position < toks.size - p.position := advance_ahead he
  split
  · refine ρ.rel_bind (ih _ ha).expression fun a => ?_
    obtain ⟨e, q, hq⟩ := a
    exact ρ.lift_bind (expect_reports toks _ _) fun b => ρ.rel_pure _
  · exact ρ.rel_pure _
  · split
    · rename_i hc
      have hb : toks.size - (advance toks (advance toks p)).position < toks.size - p.position :=
        Nat.lt_trans (advance_ahead (by simp [hc])) ha
      exact ρ.rel_bind ((ih _ hb).call _ _) fun b => ρ.rel_pure _
    · exact ρ.lift_bind (resolve_reports _ _) fun entry => ρ.rel_pure _
  · exact ρ.rel_fail _ (unexpected_reported toks _ _)

theorem unary_related : ρ.rel (unary R toks p) (unary R' toks p) := by
  rw [unary.eq_def R, unary.eq_def R']
  split
  · rename_i op h
    have ha : toks.size - (advance toks p).deeper.position < toks.size - p.position :=
      advance_ahead (prefixOp?_ne_eof h)
    exact ρ.rel_bind (ρ.nested_rel (ih _ ha).unary) fun b => ρ.rel_pure _
  · exact primary_related ρ ih

theorem links_related (lvl : Parse.Level) (left : Expr) :
    ρ.rel (links R toks lvl left p) (links R' toks lvl left p) := by
  rw [links.eq_def R, links.eq_def R']
  split
  · rename_i op h
    have ha : toks.size - (advance toks p).deeper.position < toks.size - p.position :=
      advance_ahead (binOp?_ne_eof h)
    -- the operand after the operator is a chain of the next tighter level or a prefix operand
    have hop : ρ.rel (operand R toks lvl (advance toks p).deeper)
        (operand R' toks lvl (advance toks p).deeper) := by
      rw [operand.eq_def R, operand.eq_def R']
      split
      · exact (ih _ ha).chain _
      · exact (ih _ ha).unary
    refine ρ.rel_bind (ρ.rel_level _) fun _ => ρ.rel_bind hop fun b => ?_
    obtain ⟨right, r, hr⟩ := b
    refine ρ.rel_bind ?_ fun c => ρ.rel_pure _
    apply (ih _ _).links
    exact Nat.lt_trans hr ha
  · exact ρ.rel_pure _

theorem chain_related (lvl : Parse.Level) : ρ.rel (chain R toks lvl p) (chain R' toks lvl p) := by
  induction lvl using Parse.Level.tighter_induction with
  | step lvl hl =>
    rw [chain.eq_def R, chain.eq_def R']
    refine ρ.restoring_rel ?_
    rw [binaryLinks.eq_def R, binaryLinks.eq_def R']
    have hop : ρ.rel (operand R toks lvl p) (operand R' toks lvl p) := by
      rw [operand.eq_def R, operand.eq_def R']
      split
      · exact hl _ ‹_›
      · exact unary_related ρ ih
    refine ρ.rel_bind hop fun a => ?_
    obtain ⟨left, q, hq⟩ := a
    exact ρ.rel_bind ((ih q hq).links _ _) fun b => ρ.rel_pure _

theorem expression_related : ρ.rel (expression R toks p) (expression R' toks p) := by
  rw [expression.eq_def R, expression.eq_def R']
  exact ρ.nested_rel (chain_related (p := p.deeper) ρ ih _)

theorem arguments_related : ρ.rel (arguments R toks p) (arguments R' toks p) := by
  rw [arguments.eq_def R, arguments.eq_def R']
  refine ρ.rel_bind (expression_related ρ ih) fun a => ?_
  obtain ⟨e, q, hq⟩ := a
  dsimp only
  split
  · rename_i hc
    have ha : toks.size - (advance toks q).position < toks.size - p.position :=
      Nat.lt_trans (advance_ahead (by simp [hc])) hq
    exact ρ.rel_bind (ih _ ha).arguments fun b => ρ.rel_pure _
  · exact ρ.rel_pure _

theorem call_related (name : String) (loc : Pos) :
    ρ.rel (call R toks name loc p) (call R' toks name loc p) := by
  rw [call.eq_def R, call.eq_def R']
  refine ρ.lift_bind (resolve_reports _ _) fun callee => ?_
  split
  · exact ρ.rel_pure _
  · refine ρ.rel_bind (arguments_related ρ ih) fun a => ?_
    obtain ⟨args, q, hq⟩ := a
    exact ρ.lift_bind (expect_reports toks _ _) fun b => ρ.rel_pure _

end Expressions

theorem RunRel.exprRelated (ρ : RunRel toks R R') (p : Parser) : ExprRelated ρ p := by
  induction p using position_induction with
  | ahead p ih =>
    exact ⟨expression_related ρ ih, chain_related ρ ih, links_related ρ ih, unary_related ρ ih,
      call_related ρ ih, arguments_related ρ ih⟩

section Declarations

variable (ρ : RunRel toks R R')

theorem initializer_related (p : Parser) :
    ρ.rel (initializer R toks p) (initializer R' toks p) := by
  unfold initializer
  split
  · exact ρ.rel_bind (ρ.exprRelated _).expression fun a => ρ.rel_pure _
  · exact ρ.rel_pure _

theorem declarators_related (p : Parser) (acc : List (String × Option Expr)) :
    ρ.rel (declarators R toks p acc) (declarators R' toks p acc) := by
  induction p using position_induction generalizing acc with
  | ahead p ih =>
    rw [declarators.eq_def R, declarators.eq_def R']
    refine ρ.lift_bind (expectIdent_reports toks) fun a => ?_
    obtain ⟨name, q, hq⟩ := a
    refine ρ.rel_bind (initializer_related ρ q) fun b => ?_
    obtain ⟨init, q', hq'⟩ := b
    dsimp only
    split
    · rename_i hc
      have ha : toks.size - (advance toks q').position < toks.size - p.position :=
        Nat.lt_trans (advance_ahead (by simp [hc])) (Nat.lt_of_le_of_lt hq' hq)
      exact ρ.rel_bind (ih _ ha _) fun c => ρ.rel_pure _
    · exact ρ.rel_pure _

theorem declaration_related (p : Parser) :
    ρ.rel (declaration R toks p) (declaration R' toks p) := by
  unfold declaration
  refine ρ.lift_bind (type_reports toks) fun a => ?_
  obtain ⟨ty, q, hq⟩ := a
  refine ρ.rel_bind (declarators_related ρ q []) fun b => ?_
  obtain ⟨items, q', hq'⟩ := b
  exact ρ.lift_bind (expect_reports toks _ _) fun c => ρ.rel_pure _

theorem formals_related (p : Parser) : ρ.rel (formals R toks p) (formals R' toks p) := by
  induction p using position_induction with
  | ahead p ih =>
    rw [formals.eq_def R, formals.eq_def R']
    refine ρ.lift_bind (type_reports toks) fun a => ?_
    obtain ⟨ty, q, hq⟩ := a
    refine ρ.lift_bind (expectIdent_reports toks) fun b => ?_
    obtain ⟨name, q1, hq1⟩ := b
    refine ρ.rel_bind (initializer_related ρ q1) fun c => ?_
    obtain ⟨default, q2, hq2⟩ := c
    dsimp only
    split
    · rename_i hc
      have ha : toks.size - (advance toks q2).position < toks.size - p.position :=
        Nat.lt_trans (advance_ahead (by simp [hc])) (Nat.lt_of_le_of_lt hq2 (Nat.lt_trans hq1 hq))
      exact ρ.rel_bind (ih _ ha) fun d => ρ.rel_pure _
    · exact ρ.rel_pure _

theorem formalsOrNone_related (p : Parser) :
    ρ.rel (formalsOrNone R toks p) (formalsOrNone R' toks p) := by
  unfold formalsOrNone
  split
  · exact ρ.rel_pure _
  · exact ρ.rel_bind (formals_related ρ p) fun a => ρ.rel_pure _

theorem exprStatement_related (p : Parser) :
    ρ.rel (exprStatement R toks p) (exprStatement R' toks p) := by
  unfold exprStatement
  refine ρ.rel_bind (ρ.exprRelated p).expression fun a => ?_
  obtain ⟨e, q, hq⟩ := a
  exact ρ.lift_bind (expect_reports toks _ _) fun b => ρ.rel_pure _

theorem assignment_related (name : String) (loc : Pos) (p : Parser) :
    ρ.rel (assignment R toks name loc p) (assignment R' toks name loc p) := by
  unfold assignment
  refine ρ.lift_bind (resolve_reports _ _) fun entry => ?_
  refine ρ.rel_bind (ρ.exprRelated _).expression fun a => ?_
  obtain ⟨e, q, hq⟩ := a
  exact ρ.lift_bind (expect_reports toks _ _) fun b => ρ.rel_pure _

end Declarations

-- Every statement parser on `p`, run on `R`, is related to the same parser run on `R'`.
structure StmtRelated (ρ : RunRel toks R R') (p : Parser) : Prop where
  statement : ρ.rel (statement R toks p) (statement R' toks p)
  block : ρ.rel (block R toks p) (block R' toks p)
  blockItems : ρ.rel (blockItems R toks p) (blockItems R' toks p)
  funcDef : ρ.rel (funcDef R toks p) (funcDef R' toks p)

section Statements

variable (ρ : RunRel toks R R') {p : Parser}
  (ih : ∀ q, toks.size - q.position < toks.size - p.position → StmtRelated ρ q)
include ih

theorem block_related : ρ.rel (block R toks p) (block R' toks p) := by
  rw [block.eq_def R, block.eq_def R']
  refine ρ.lift_bind (expect_reports toks _ _) fun a => ?_
  obtain ⟨u, q, hq⟩ := a
  refine ρ.rel_bind (ih (q.withState q.state.enter) hq).blockItems fun b => ?_
  obtain ⟨items, q', hq'⟩ := b
  refine ρ.lift_bind (expect_reports toks _ _) fun c => ?_
  obtain ⟨u', q'', hq''⟩ := c
  refine ρ.lift_bind (exitScope_reports) fun s => ?_
  dsimp only
  split
  · exact ρ.rel_pure _
  · exact ρ.rel_pure _

theorem funcDef_related : ρ.rel (funcDef R toks p) (funcDef R' toks p) := by
  rw [funcDef.eq_def R, funcDef.eq_def R']
  refine ρ.lift_bind (type_reports toks) fun a1 => ?_
  obtain ⟨ret, q1, h1⟩ := a1
  refine ρ.lift_bind (expectIdent_reports toks) fun a2 => ?_
  obtain ⟨name, q2, h2⟩ := a2
  refine ρ.lift_bind (expect_reports toks _ _) fun a3 => ?_
  obtain ⟨u, q3, h3⟩ := a3
  refine ρ.rel_bind (formalsOrNone_related ρ q3) fun a4 => ?_
  obtain ⟨fs, q4, h4⟩ := a4
  refine ρ.lift_bind (expect_reports toks _ _) fun a5 => ?_
  obtain ⟨u', q5, h5⟩ := a5
  have ha : toks.size - q5.position < toks.size - p.position := by
    simp only [withState_position] at h5
    omega
  refine ρ.rel_bind (ih _ ha).block fun a6 => ?_
  obtain ⟨body, q6, h6⟩ := a6
  refine ρ.lift_bind (exitScope_reports) fun s => ?_
  -- the function's own entry, found again after its scope is closed
  dsimp only
  split
  · exact ρ.rel_bind (ρ.rel_pure _) fun entry => ρ.rel_pure _
  · exact ρ.rel_bind (ρ.rel_fail _ (internal_reported _ _)) fun entry => ρ.rel_pure _

theorem statementBody_related : ρ.rel (statementBody R toks p) (statementBody R' toks p) := by
  rw [statementBody.eq_def R, statementBody.eq_def R']
  dsimp only
  by_cases he : (peek toks p).kind = .eof
  · rw [dif_pos he, dif_pos he]
    exact exprStatement_related ρ p
  rw [dif_neg he, dif_neg he]
  have ha : toks.size - (advance toks p).position < toks.size - p.position := advance_ahead he
  -- a statement that starts with a type: both read it from the parser the lookahead restores
  have typed : ρ.rel (if (isFunctionDefinition toks p).1 then
      funcDef R toks (isFunctionDefinition toks p).2
      else declaration R toks (isFunctionDefinition toks p).2)
      (if (isFunctionDefinition toks p).1 then funcDef R' toks (isFunctionDefinition toks p).2
      else declaration R' toks (isFunctionDefinition toks p).2) := by
    split
    · exact funcDef_related (p := (isFunctionDefinition toks p).2) ρ ih
    · exact declaration_related ρ _
  split
  next => exact block_related ρ ih
  next => exact typed
  next => exact typed
  next => exact typed
  next =>
    refine ρ.lift_bind (expect_reports toks _ _) fun a1 => ?_
    obtain ⟨u, q1, h1⟩ := a1
    refine ρ.rel_bind (ρ.exprRelated q1).expression fun a2 => ?_
    obtain ⟨c, q2, h2⟩ := a2
    refine ρ.lift_bind (expect_reports toks _ _) fun a3 => ?_
    obtain ⟨u', q3, h3⟩ := a3
    have h3' : toks.size - q3.position < toks.size - p.position :=
      Nat.lt_trans h3 (Nat.lt_trans h2 (Nat.lt_trans h1 ha))
    refine ρ.rel_bind (ih _ h3').statement fun a4 => ?_
    obtain ⟨th, q4, h4⟩ := a4
    dsimp only
    split
    · rename_i hel
      have h5 : toks.size - (advance toks q4).position < toks.size - p.position :=
        Nat.lt_trans (advance_ahead (by simp [hel])) (Nat.lt_trans h4 h3')
      exact ρ.rel_bind (ih _ h5).statement fun a5 => ρ.rel_pure _
    · exact ρ.rel_pure _
  next =>
    refine ρ.lift_bind (expect_reports toks _ _) fun a1 => ?_
    obtain ⟨u, q1, h1⟩ := a1
    refine ρ.rel_bind (ρ.exprRelated q1).expression fun a2 => ?_
    obtain ⟨c, q2, h2⟩ := a2
    refine ρ.lift_bind (expect_reports toks _ _) fun a3 => ?_
    obtain ⟨u', q3, h3⟩ := a3
    have h3' : toks.size - q3.position < toks.size - p.position :=
      Nat.lt_trans h3 (Nat.lt_trans h2 (Nat.lt_trans h1 ha))
    exact ρ.rel_bind (ih _ h3').statement fun a4 => ρ.rel_pure _
  next =>
    refine ρ.rel_bind (ρ.exprRelated _).expression fun a1 => ?_
    obtain ⟨e, q1, h1⟩ := a1
    exact ρ.lift_bind (expect_reports toks _ _) fun a2 => ρ.rel_pure _
  next => exact ρ.lift_bind (expect_reports toks _ _) fun a1 => ρ.rel_pure _
  next => exact ρ.lift_bind (expect_reports toks _ _) fun a1 => ρ.rel_pure _
  next => exact ρ.rel_pure _
  next =>
    split
    · exact ρ.rel_bind (assignment_related ρ _ _ _) fun a => ρ.rel_pure _
    · exact exprStatement_related ρ p
  next => exact exprStatement_related ρ p

theorem statement_related : ρ.rel (statement R toks p) (statement R' toks p) := by
  rw [statement.eq_def R, statement.eq_def R']
  exact ρ.nested_rel (statementBody_related (p := p.deeper) ρ ih)

theorem blockItems_related : ρ.rel (blockItems R toks p) (blockItems R' toks p) := by
  rw [blockItems.eq_def R, blockItems.eq_def R']
  split
  · exact ρ.rel_pure _
  · refine ρ.rel_bind (statement_related ρ ih) fun a => ?_
    obtain ⟨st, q, hq⟩ := a
    exact ρ.rel_bind (ih q hq).blockItems fun b => ρ.rel_pure _

end Statements

theorem RunRel.stmtRelated (ρ : RunRel toks R R') (p : Parser) : StmtRelated ρ p := by
  induction p using position_induction with
  | ahead p ih =>
    exact ⟨statement_related ρ ih, block_related ρ ih, blockItems_related ρ ih, funcDef_related ρ ih⟩

theorem RunRel.programItems_rel (ρ : RunRel toks R R') (p : Parser) :
    ρ.rel (programItems R toks p) (programItems R' toks p) := by
  induction p using position_induction with
  | ahead p ih =>
    rw [programItems.eq_def R, programItems.eq_def R']
    split
    · exact ρ.rel_pure _
    · refine ρ.rel_bind (ρ.stmtRelated p).statement fun a => ?_
      obtain ⟨st, q, hq⟩ := a
      exact ρ.rel_bind (ih q hq) fun b => ρ.rel_pure _

-- A whole program run on `R` is related to the program run on `R'`.
theorem RunRel.program_rel (ρ : RunRel toks R R') (p : Parser) :
    ρ.rel (program R toks p) (program R' toks p) := by
  unfold program
  refine ρ.rel_bind (ρ.programItems_rel p) fun a => ?_
  obtain ⟨items, q, hq⟩ := a
  dsimp only
  split
  · exact ρ.rel_pure _
  · exact ρ.rel_fail _ (unexpected_reported toks _ _)

-- A map of runs from one runner's monad to another's that keeps `pure`, `>>=` and every runner
-- operation: each parse function run on `R` and mapped is the same function run on `R'`.
structure RunMap (toks : Array Token) (R : Runner m) (R' : Runner n) where
  map {α : Type} : m α → n α
  map_pure {α : Type} (a : α) : map (pure a) = pure a
  map_bind {α β : Type} (x : m α) (f : α → m β) : map (x >>= f) = map x >>= fun a => map (f a)
  map_fail {α : Type} (f : Fault) : map (R.fail f : m α) = R'.fail f
  map_unwind {α : Type} (g : Nat → Nat) (x : m α) : map (R.unwind g x) = R'.unwind g (map x)
  map_level (q : Parser) :
    map (R.level q.depth (syntaxError toks q .tooDeep)) =
      R'.level q.depth (syntaxError toks q .tooDeep)

namespace RunMap

variable (φ : RunMap toks R R')

def toRel : RunRel toks R R' where
  rel x x' := φ.map x = x'
  rel_pure := φ.map_pure
  rel_bind {_ _ x _ f f'} hx hf := by
    rw [φ.map_bind, hx]
    exact congrArg _ (funext hf)
  rel_fail f _ := φ.map_fail f
  rel_unwind g _ _ hx := by
    rw [φ.map_unwind, hx]
  rel_level := φ.map_level

theorem expression_eq (p : Parser) : φ.map (expression R toks p) = expression R' toks p :=
  (φ.toRel.exprRelated p).expression

theorem statement_eq (p : Parser) : φ.map (statement R toks p) = statement R' toks p :=
  (φ.toRel.stmtRelated p).statement

theorem program_eq (p : Parser) : φ.map (program R toks p) = program R' toks p :=
  φ.toRel.program_rel p

end RunMap

-- A property of runs that `pure` has, that `>>=` and every runner operation keep, a failure
-- with a fault the parser reports itself included, holds of every run of the parser.
structure RunInv (toks : Array Token) (R : Runner m) where
  holds {α : Type} : m α → Prop
  holds_pure {α : Type} (a : α) : holds (pure a)
  holds_bind {α β : Type} {x : m α} {f : α → m β} :
    holds x → (∀ a, holds (f a)) → holds (x >>= f)
  holds_fail {α : Type} (f : Fault) : Reported f → holds (R.fail f : m α)
  holds_unwind {α : Type} (g : Nat → Nat) {x : m α} : holds x → holds (R.unwind g x)
  holds_level (d : Nat) (f : Fault) : holds (R.level d f)

namespace RunInv

variable (ι : RunInv toks R)

def toRel : RunRel toks R R where
  rel x _ := ι.holds x
  rel_pure := ι.holds_pure
  rel_bind hx hf := ι.holds_bind hx hf
  rel_fail := ι.holds_fail
  rel_unwind g _ _ hx := ι.holds_unwind g hx
  rel_level q := ι.holds_level q.depth _

theorem holds_expression (p : Parser) : ι.holds (expression R toks p) :=
  (ι.toRel.exprRelated p).expression

theorem holds_chain (lvl : Parse.Level) (p : Parser) : ι.holds (chain R toks lvl p) :=
  (ι.toRel.exprRelated p).chain lvl

theorem holds_statement (p : Parser) : ι.holds (statement R toks p) :=
  (ι.toRel.stmtRelated p).statement

theorem holds_program (p : Parser) : ι.holds (program R toks p) :=
  ι.toRel.program_rel p

end RunInv

end Parser

end ScopedC

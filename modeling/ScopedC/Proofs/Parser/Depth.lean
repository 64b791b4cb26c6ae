import ScopedC.Parser
namespace ScopedC

namespace Parser

variable {toks : Array Token} {p : Parser} {α β γ : Type}

@[simp] theorem lift_limited (x : Except Fault α) : Runner.limited.lift x = x := by
  cases x <;> rfl

@[simp] theorem fail_limited (f : Fault) : (Runner.limited.fail f : Except Fault α) = .error f :=
  rfl

@[simp] theorem level_limited (d : Nat) (f : Fault) :
    Runner.limited.level d f = if d < nestingLimit then .ok () else .error f := rfl

theorem level_pass {d : Nat} (f : Fault) (hd : d < nestingLimit) :
    Runner.limited.level d f = pure () := by
  simp [hd]
  rfl

theorem level_refuse {d : Nat} (f : Fault) (hd : ¬ d < nestingLimit) :
    Runner.limited.level d f = .error f := by
  simp [hd]

@[simp] theorem unwind_limited (g : Nat → Nat) (x : Except Fault α) :
    Runner.limited.unwind g x = x.mapError fun e => ⟨e.error, e.parser.withDepth g⟩ := rfl

-- The parser a step leaves: where `get` finds it after a success, or the failure's.
def leaves (get : β → Parser) : Except Fault β → Parser
  | .ok b => get b
  | .error f => f.parser

@[simp] theorem leaves_ok (get : β → Parser) (b : β) : leaves get (.ok b) = get b := rfl

@[simp] theorem leaves_error (get : β → Parser) (f : Fault) : leaves get (.error f) = f.parser :=
  rfl

@[simp] theorem leaves_pure (get : β → Parser) (b : β) :
    leaves get (pure b : Except Fault β) = get b := rfl

-- A step and its continuation each leave the depth at `d`, so their sequence does.
theorem leaves_bind {x : Except Fault β} {f : β → Except Fault γ} {g : β → Parser}
    {k : γ → Parser} {d : Nat} (hx : (leaves g x).depth = d)
    (hf : ∀ b, x = .ok b → (g b).depth = d → (leaves k (f b)).depth = d) :
    (leaves k (x >>= f)).depth = d := by
  cases x with
  | error e => exact hx
  | ok b => exact hf b rfl hx

theorem leaves_restoring (body : Except Fault (Ahead toks p.position α)) :
    leaves Ahead.parser (restoring .limited toks p body) =
      (leaves Ahead.parser body).withDepth fun _ => p.depth := by
  cases body <;> rfl

theorem leaves_nested {body : Except Fault (Ahead toks p.position α)}
    (h : (leaves Ahead.parser body).depth = p.depth + 1) :
    (leaves Ahead.parser (nested .limited toks p body)).depth = p.depth := by
  unfold nested
  by_cases hd : p.depth < nestingLimit
  · simp only [level_limited, hd, if_true, unwind_limited]
    -- the level is given back on the way out, after a success or a failure
    cases body with
    | error e =>
      simp only [leaves_error] at h
      show e.parser.depth - 1 = p.depth
      omega
    | ok r =>
      simp only [leaves_ok] at h
      show r.parser.depth - 1 = p.depth
      omega
  · simp [hd, bind, Except.bind, syntaxError]

section Reads

variable (toks)

theorem expect_leaves (k : Punct) (site : Site) :
    (leaves Ahead.parser (expect toks p k site)).depth = p.depth := by
  unfold expect
  split <;> simp [unexpected, syntaxError]

theorem expectIdent_leaves : (leaves Ahead.parser (expectIdent toks p)).depth = p.depth := by
  unfold expectIdent
  split <;> simp [unexpected, syntaxError]

theorem type_leaves : (leaves Ahead.parser (type toks p)).depth = p.depth := by
  unfold type
  split
  · simp
  · simp
  · split <;> simp
  · simp [unexpected, syntaxError]

theorem resolve_leaves (name : String) (pos : Pos) :
    (leaves (fun _ => p) (p.resolve name pos)).depth = p.depth := by
  unfold resolve
  cases p.state.resolve name pos [] <;> rfl

theorem exitScope_leaves : (leaves (fun _ => p) p.exitScope).depth = p.depth := by
  unfold exitScope
  cases p.state.exit [] <;> rfl

theorem advance_moves (n : Nat) : { advance toks p with position := n } = { p with position := n } := by
  unfold advance
  split <;> rfl

theorem type_moves {t : Ahead toks p.position Ty} (h : type toks p = .ok t) (n : Nat) :
    { t.parser with position := n } = { p with position := n } := by
  unfold type at h
  split at h
  · cases h
    exact advance_moves toks n
  · cases h
    exact advance_moves toks n
  · split at h <;> cases h
    · exact (advance_moves toks n).trans (advance_moves toks n)
    · exact advance_moves toks n
  · cases h

theorem expectIdent_moves {t : Ahead toks p.position String} (h : expectIdent toks p = .ok t)
    (n : Nat) : { t.parser with position := n } = { p with position := n } := by
  unfold expectIdent at h
  split at h <;> cases h
  exact advance_moves toks n

-- The lookahead of a statement that starts with a type gives the parser back as it found it.
theorem isFunctionDefinition_restores : (isFunctionDefinition toks p).2 = p := by
  unfold isFunctionDefinition functionHead
  cases htype : type toks p with
  | error f => rfl
  | ok t =>
    dsimp only
    cases hid : expectIdent toks t.parser with
    | error f => exact type_moves toks htype _
    | ok n => exact (expectIdent_moves toks hid _).trans (type_moves toks htype _)

end Reads

variable (toks)

theorem chain_leaves (lvl : Parse.Level) (p : Parser) :
    (leaves Ahead.parser (chain .limited toks lvl p)).depth = p.depth := by
  rw [chain.eq_def, leaves_restoring]
  rfl

theorem expression_leaves (p : Parser) :
    (leaves Ahead.parser (expression .limited toks p)).depth = p.depth := by
  rw [expression.eq_def]
  exact leaves_nested ((chain_leaves toks _ _).trans (deeper_depth p))

-- Every expression parser on `p` leaves the depth as it found it.
structure ExprKeeps (toks : Array Token) (p : Parser) : Prop where
  arguments : (leaves Ahead.parser (arguments .limited toks p)).depth = p.depth
  call (name : String) (loc : Pos) :
    (leaves Ahead.parser (call .limited toks name loc p)).depth = p.depth
  primary : (leaves Ahead.parser (primary .limited toks p)).depth = p.depth
  unary : (leaves Ahead.parser (unary .limited toks p)).depth = p.depth

section

variable {toks} (ih : ∀ q, toks.size - q.position < toks.size - p.position → ExprKeeps toks q)
include ih

theorem arguments_leaves : (leaves Ahead.parser (arguments .limited toks p)).depth = p.depth := by
  rw [arguments.eq_def]
  refine leaves_bind (expression_leaves toks p) fun b _ hb => ?_
  obtain ⟨e, q, hq⟩ := b
  dsimp only at hb ⊢
  split
  · rename_i hc
    refine leaves_bind ((ih _ (Nat.lt_trans (advance_ahead (by simp [hc])) hq)).arguments.trans
      (by simpa using hb)) fun b' _ hb' => ?_
    exact hb'
  · exact hb

theorem call_leaves (name : String) (loc : Pos) :
    (leaves Ahead.parser (call .limited toks name loc p)).depth = p.depth := by
  rw [call.eq_def]
  simp only [lift_limited]
  refine leaves_bind (g := fun _ => p) (resolve_leaves name loc) fun callee _ _ => ?_
  split
  · simp
  · refine leaves_bind (arguments_leaves ih) fun b _ hb => ?_
    obtain ⟨args, q, hq⟩ := b
    dsimp only at hb ⊢
    refine leaves_bind ((expect_leaves toks (p := q) _ _).trans hb) fun b' _ hb' => ?_
    simpa using hb'

theorem primary_leaves : (leaves Ahead.parser (primary .limited toks p)).depth = p.depth := by
  rw [primary.eq_def]
  dsimp only
  split
  · simp [unexpected, syntaxError]
  rename_i he
  split
  · refine leaves_bind ((expression_leaves toks _).trans advance_depth) fun b _ hb => ?_
    obtain ⟨e, q, hq⟩ := b
    simp only [lift_limited]
    refine leaves_bind ((expect_leaves toks (p := q) _ _).trans hb) fun b' _ hb' => ?_
    exact hb'
  · exact advance_depth
  · rename_i name _
    split
    · rename_i hc
      have ha := Nat.lt_trans (advance_ahead (by simp [hc])) (advance_ahead he)
      refine leaves_bind (((ih _ ha).call name _).trans (by simp)) fun b _ hb => ?_
      exact hb
    · simp only [lift_limited]
      refine leaves_bind (g := fun _ => advance toks p)
        ((resolve_leaves name _).trans advance_depth) fun e _ _ => ?_
      exact advance_depth
  · simp [unexpected, syntaxError]

theorem unary_leaves : (leaves Ahead.parser (unary .limited toks p)).depth = p.depth := by
  rw [unary.eq_def]
  split
  · rename_i op h
    dsimp only
    have ha : toks.size - (advance toks p).position < toks.size - p.position :=
      advance_ahead (prefixOp?_ne_eof h)
    -- the operand's own nesting level is given back by `nested`
    have hn : (leaves Ahead.parser (nested .limited toks (advance toks p)
        (unary .limited toks (advance toks p).deeper))).depth = (advance toks p).depth :=
      leaves_nested ((ih (advance toks p).deeper ha).unary.trans (by simp))
    refine leaves_bind (hn.trans (by simp)) fun b _ hb => ?_
    obtain ⟨arg, r, hr⟩ := b
    dsimp only at hb ⊢
    simpa using hb
  · exact primary_leaves ih

end

theorem exprKeeps (p : Parser) : ExprKeeps toks p := by
  induction p using position_induction with
  | ahead p ih =>
    exact ⟨arguments_leaves ih, call_leaves ih, primary_leaves ih, unary_leaves ih⟩

theorem operand_leaves (lvl : Parse.Level) (p : Parser) :
    (leaves Ahead.parser (operand .limited toks lvl p)).depth = p.depth := by
  rw [operand.eq_def]
  split
  · exact chain_leaves toks _ _
  · exact (exprKeeps toks p).unary

theorem initializer_leaves (p : Parser) :
    (leaves Along.parser (initializer .limited toks p)).depth = p.depth := by
  unfold initializer
  split
  · refine leaves_bind ((expression_leaves toks _).trans (advance_depth)) fun b _ hb => ?_
    exact hb
  · rfl

theorem declarators_leaves (p : Parser) (acc : List (String × Option Expr)) :
    (leaves Ahead.parser (declarators .limited toks p acc)).depth = p.depth := by
  induction p using position_induction generalizing acc with
  | ahead p ih =>
    rw [declarators.eq_def]
    simp only [lift_limited]
    refine leaves_bind (expectIdent_leaves toks) fun b _ hb => ?_
    obtain ⟨name, q, hq⟩ := b
    refine leaves_bind ((initializer_leaves toks q).trans hb) fun b' _ hb' => ?_
    obtain ⟨init, q', hq'⟩ := b'
    dsimp only at hb' ⊢
    split
    · rename_i hc
      have ha := Nat.lt_trans (advance_ahead (by simp [hc])) (Nat.lt_of_le_of_lt hq' hq)
      refine leaves_bind ((ih _ ha _).trans (by simpa using hb')) fun b'' _ hb'' => ?_
      exact hb''
    · exact hb'

theorem declaration_leaves (p : Parser) :
    (leaves Ahead.parser (declaration .limited toks p)).depth = p.depth := by
  unfold declaration
  simp only [lift_limited]
  refine leaves_bind (type_leaves toks) fun b _ hb => ?_
  obtain ⟨ty, q, hq⟩ := b
  refine leaves_bind ((declarators_leaves toks q _).trans hb) fun b' _ hb' => ?_
  obtain ⟨items, q', hq'⟩ := b'
  refine leaves_bind ((expect_leaves toks _ _).trans hb') fun b'' _ hb'' => ?_
  obtain ⟨u, q'', hq''⟩ := b''
  simpa using hb''

theorem formals_leaves (p : Parser) :
    (leaves Ahead.parser (formals .limited toks p)).depth = p.depth := by
  induction p using position_induction with
  | ahead p ih =>
    rw [formals.eq_def]
    simp only [lift_limited]
    refine leaves_bind (type_leaves toks) fun b _ hb => ?_
    obtain ⟨ty, q, hq⟩ := b
    refine leaves_bind ((expectIdent_leaves toks).trans hb) fun b1 _ hb1 => ?_
    obtain ⟨name, q1, hq1⟩ := b1
    refine leaves_bind ((initializer_leaves toks q1).trans hb1) fun b2 _ hb2 => ?_
    obtain ⟨default, q2, hq2⟩ := b2
    dsimp only at hb2 ⊢
    split
    · rename_i hc
      have ha := Nat.lt_trans (advance_ahead (by simp [hc]))
        (Nat.lt_of_le_of_lt hq2 (Nat.lt_trans hq1 hq))
      refine leaves_bind ((ih _ ha).trans (by simpa using hb2)) fun b3 _ hb3 => ?_
      exact hb3
    · exact hb2

theorem formalsOrNone_leaves (p : Parser) :
    (leaves Along.parser (formalsOrNone .limited toks p)).depth = p.depth := by
  unfold formalsOrNone
  split
  · rfl
  · refine leaves_bind (formals_leaves toks p) fun b _ hb => ?_
    exact hb

theorem exprStatement_leaves (p : Parser) :
    (leaves Ahead.parser (exprStatement .limited toks p)).depth = p.depth := by
  unfold exprStatement
  simp only [lift_limited]
  refine leaves_bind (expression_leaves toks p) fun b _ hb => ?_
  obtain ⟨e, q, hq⟩ := b
  refine leaves_bind ((expect_leaves toks _ _).trans hb) fun b' _ hb' => ?_
  obtain ⟨u, q', hq'⟩ := b'
  simpa using hb'

theorem assignment_leaves (name : String) (loc : Pos) (p : Parser) :
    (leaves Ahead.parser (assignment .limited toks name loc p)).depth = p.depth := by
  unfold assignment
  simp only [lift_limited]
  refine leaves_bind (g := fun _ => p) (resolve_leaves name loc) fun entry _ _ => ?_
  refine leaves_bind ((expression_leaves toks _).trans (withState_depth _ _)) fun b _ hb => ?_
  obtain ⟨e, q, hq⟩ := b
  refine leaves_bind ((expect_leaves toks _ _).trans hb) fun b' _ hb' => ?_
  obtain ⟨u, q', hq'⟩ := b'
  simpa using hb'

-- Every statement parser on `p` leaves the depth as it found it.
structure StmtKeeps (toks : Array Token) (p : Parser) : Prop where
  statement : (leaves Ahead.parser (statement .limited toks p)).depth = p.depth
  block : (leaves Ahead.parser (block .limited toks p)).depth = p.depth
  blockItems : (leaves Along.parser (blockItems .limited toks p)).depth = p.depth
  funcDef : (leaves Ahead.parser (funcDef .limited toks p)).depth = p.depth

section

variable {toks} (ih : ∀ q, toks.size - q.position < toks.size - p.position → StmtKeeps toks q)
include ih

theorem block_leaves : (leaves Ahead.parser (block .limited toks p)).depth = p.depth := by
  rw [block.eq_def]
  simp only [lift_limited]
  refine leaves_bind (expect_leaves toks _ _) fun b _ hb => ?_
  obtain ⟨u, q, hq⟩ := b
  refine leaves_bind ((ih (q.withState q.state.enter) hq).blockItems.trans (by simpa using hb))
    fun b' _ hb' => ?_
  obtain ⟨items, q', hq'⟩ := b'
  refine leaves_bind ((expect_leaves toks _ _).trans hb') fun b'' _ hb'' => ?_
  obtain ⟨u', q'', hq''⟩ := b''
  refine leaves_bind (g := fun _ => q'') (exitScope_leaves.trans hb'') fun s _ _ => ?_
  dsimp only
  split <;> exact hb''

theorem funcDef_leaves : (leaves Ahead.parser (funcDef .limited toks p)).depth = p.depth := by
  rw [funcDef.eq_def]
  simp only [lift_limited]
  refine leaves_bind (type_leaves toks) fun b1 _ h1 => ?_
  obtain ⟨ret, q1, hq1⟩ := b1
  refine leaves_bind ((expectIdent_leaves toks).trans h1) fun b2 _ h2 => ?_
  obtain ⟨name, q2, hq2⟩ := b2
  refine leaves_bind ((expect_leaves toks _ _).trans h2) fun b3 _ h3 => ?_
  obtain ⟨u, q3, hq3⟩ := b3
  refine leaves_bind ((formalsOrNone_leaves toks q3).trans h3) fun b4 _ h4 => ?_
  obtain ⟨fs, q4, hq4⟩ := b4
  dsimp only at h4 ⊢
  refine leaves_bind ((expect_leaves toks _ _).trans (by simpa using h4)) fun b5 _ h5 => ?_
  obtain ⟨u', q5, hq5⟩ := b5
  have ha : toks.size - q5.position < toks.size - p.position := by
    simp only [withState_position] at hq5
    dsimp only at hq2 hq3 hq4
    omega
  refine leaves_bind ((ih _ ha).block.trans h5) fun b6 _ h6 => ?_
  obtain ⟨body, q6, hq6⟩ := b6
  refine leaves_bind (g := fun _ => q6) (exitScope_leaves.trans h6) fun s _ _ => ?_
  split <;> exact h6

theorem typeLed_leaves :
    (leaves Ahead.parser (if (isFunctionDefinition toks p).1 then
      funcDef .limited toks (isFunctionDefinition toks p).2
      else declaration .limited toks (isFunctionDefinition toks p).2)).depth = p.depth := by
  rw [isFunctionDefinition_restores]
  split
  · exact funcDef_leaves ih
  · exact declaration_leaves toks p

theorem statementBody_leaves :
    (leaves Ahead.parser (statementBody .limited toks p)).depth = p.depth := by
  rw [statementBody.eq_def]
  dsimp only
  split
  · exact exprStatement_leaves toks p
  rename_i he
  simp only [lift_limited]
  split
  next => exact block_leaves ih
  next => exact typeLed_leaves ih
  next => exact typeLed_leaves ih
  next => exact typeLed_leaves ih
  next =>
    -- `if`, its condition, the branch, and an `else` branch if one follows
    refine leaves_bind ((expect_leaves toks _ _).trans advance_depth) fun b1 _ h1 => ?_
    obtain ⟨u, q1, hq1⟩ := b1
    refine leaves_bind ((expression_leaves toks q1).trans h1) fun b2 _ h2 => ?_
    obtain ⟨c, q2, hq2⟩ := b2
    refine leaves_bind ((expect_leaves toks _ _).trans h2) fun b3 _ h3 => ?_
    obtain ⟨u', q3, hq3⟩ := b3
    have ha : toks.size - q3.position < toks.size - p.position :=
      Nat.lt_trans hq3 (Nat.lt_trans hq2 (Nat.lt_trans hq1 (advance_ahead he)))
    refine leaves_bind ((ih _ ha).statement.trans h3) fun b4 _ h4 => ?_
    obtain ⟨th, q4, hq4⟩ := b4
    dsimp only at h4 ⊢
    split
    · rename_i hel
      have hb : toks.size - (advance toks q4).position < toks.size - p.position :=
        Nat.lt_trans (advance_ahead (by simp [hel])) (Nat.lt_trans hq4 ha)
      refine leaves_bind ((ih _ hb).statement.trans (by simpa using h4)) fun b5 _ h5 => ?_
      obtain ⟨el, q5, hq5⟩ := b5
      simpa using h5
    · simpa using h4
  next =>
    refine leaves_bind ((expect_leaves toks _ _).trans advance_depth) fun b1 _ h1 => ?_
    obtain ⟨u, q1, hq1⟩ := b1
    refine leaves_bind ((expression_leaves toks q1).trans h1) fun b2 _ h2 => ?_
    obtain ⟨c, q2, hq2⟩ := b2
    refine leaves_bind ((expect_leaves toks _ _).trans h2) fun b3 _ h3 => ?_
    obtain ⟨u', q3, hq3⟩ := b3
    have ha : toks.size - q3.position < toks.size - p.position :=
      Nat.lt_trans hq3 (Nat.lt_trans hq2 (Nat.lt_trans hq1 (advance_ahead he)))
    refine leaves_bind ((ih _ ha).statement.trans h3) fun b4 _ h4 => ?_
    obtain ⟨body, q4, hq4⟩ := b4
    simpa using h4
  next =>
    refine leaves_bind ((expression_leaves toks _).trans advance_depth) fun b1 _ h1 => ?_
    obtain ⟨e, q1, hq1⟩ := b1
    refine leaves_bind ((expect_leaves toks _ _).trans h1) fun b2 _ h2 => ?_
    obtain ⟨u, q2, hq2⟩ := b2
    simpa using h2
  next =>
    refine leaves_bind ((expect_leaves toks _ _).trans advance_depth) fun b1 _ h1 => ?_
    obtain ⟨u, q1, hq1⟩ := b1
    simpa using h1
  next =>
    refine leaves_bind ((expect_leaves toks _ _).trans advance_depth) fun b1 _ h1 => ?_
    obtain ⟨u, q1, hq1⟩ := b1
    simpa using h1
  next => exact advance_depth
  next =>
    split
    · refine leaves_bind ((assignment_leaves toks _ _ _).trans (by simp)) fun b _ hb => ?_
      exact hb
    · exact exprStatement_leaves toks p
  next => exact exprStatement_leaves toks p

theorem statement_leaves : (leaves Ahead.parser (statement .limited toks p)).depth = p.depth := by
  rw [statement.eq_def]
  exact leaves_nested ((statementBody_leaves (p := p.deeper) ih).trans (deeper_depth p))

theorem blockItems_leaves : (leaves Along.parser (blockItems .limited toks p)).depth = p.depth := by
  rw [blockItems.eq_def]
  split
  · rfl
  · refine leaves_bind (statement_leaves ih) fun b _ hb => ?_
    obtain ⟨st, q, hq⟩ := b
    refine leaves_bind ((ih q hq).blockItems.trans hb) fun b' _ hb' => ?_
    exact hb'

end

theorem stmtKeeps (p : Parser) : StmtKeeps toks p := by
  induction p using position_induction with
  | ahead p ih =>
    exact ⟨statement_leaves ih, block_leaves ih, blockItems_leaves ih, funcDef_leaves ih⟩

theorem programItems_leaves (p : Parser) :
    (leaves Along.parser (programItems .limited toks p)).depth = p.depth := by
  induction p using position_induction with
  | ahead p ih =>
    rw [programItems.eq_def]
    split
    · rfl
    · refine leaves_bind (stmtKeeps toks p).statement fun b _ hb => ?_
      obtain ⟨st, q, hq⟩ := b
      refine leaves_bind ((ih q hq).trans hb) fun b' _ hb' => ?_
      exact hb'

theorem program_leaves (p : Parser) :
    (leaves Along.parser (program .limited toks p)).depth = p.depth := by
  unfold program
  refine leaves_bind (programItems_leaves toks p) fun b _ hb => ?_
  obtain ⟨items, q, hq⟩ := b
  dsimp only
  split <;> simpa [unexpected, syntaxError] using hb

end Parser

end ScopedC

import ScopedC.Proofs.Completeness.Stmt
import ScopedC.Proofs.Prefix.Locality
namespace ScopedC

open Parse

section StmtWithin

variable {stop : Pos} {depth : Nat} {s : ParseState} {ts : List Token}

theorem initializer_within : Within Steps.out ts (initializer stop depth s ts) :=
  ⟨fun _ h => by obtain ⟨_, g, -⟩ := (initializer_reads h).phrase; exact g.suffix,
    fun _ h => .inl (initializer_located h).1⟩

theorem declarators_within {acc : List (String × Option Expr)} :
    Within Step.out ts (declarators stop depth s ts acc) :=
  ⟨fun _ h => by obtain ⟨_, g, -⟩ := (declarators_reads h).phrase; exact g.suffix,
    fun _ h => .inl (declarators_located h).1⟩

theorem formals_within : Within Step.out ts (formals stop depth s ts) :=
  ⟨fun _ h => by obtain ⟨_, g, -⟩ := (formals_reads h).phrase; exact g.suffix,
    fun _ h => .inl (formals_located h).1⟩

theorem formalsOrNone_within : Within Steps.out ts (formalsOrNone stop depth s ts) :=
  ⟨fun _ h => by obtain ⟨_, g, -⟩ := (formalsOrNone_reads h).phrase; exact g.suffix,
    fun _ h => .inl (formalsOrNone_located h).1⟩

theorem assignment_within {entry : Entry} :
    Within Step.out ts (assignment stop depth entry s ts) := by
  unfold assignment
  exact expression_within.bind fun _ _ =>
    expect_within.bind_pure fun _ => ⟨_, rfl, rfl⟩

theorem statement_within : Within Step.out ts (statement stop depth s ts) :=
  ⟨fun _ h => by obtain ⟨_, g, -⟩ := (stmtSound stop ts).statement h; exact g.suffix,
    fun _ h => .inl ((stmtFails stop ts).statement h).1⟩

theorem block_within : Within Step.out ts (block stop depth s ts) :=
  ⟨fun _ h => by obtain ⟨_, g, -⟩ := (stmtSound stop ts).block h; exact g.suffix,
    fun _ h => .inl ((stmtFails stop ts).block h).1⟩

theorem blockItems_within : Within Steps.out ts (blockItems stop depth s ts) :=
  ⟨fun _ h => by obtain ⟨_, g, -⟩ := (stmtSound stop ts).blockItems h; exact g.suffix,
    fun _ h => .inl ((stmtFails stop ts).blockItems h).1⟩

-- What a definition does after its body: close the parameters' scope and look its name up
-- again, which fail only as internal errors, then build the node.
theorem funcDef_end_within {name : String} {k : Entry → Except Failure (Step ts Stmt)}
    {ρ : List Token} {r : List Token} (hk : ∀ e, Within Step.out ρ (k e)) :
    Within Step.out ρ (match s.scopes.lookup name with
      | some e => pure e >>= k
      | none => throw ⟨.internal (.functionLost name), s, r⟩ >>= k) := by
  split
  · exact hk _
  · exact ⟨fun _ h => (by cases h), fun _ h => by cases h; exact .inr fun se pos he => by cases he⟩

-- After the body: closing the parameters' scope and looking the name up read no token.
theorem funcDef_ending_within {ts : List Token} {st : ParseState} {r : List Token} {body : Stmt}
    {params : List Param} {name : String} {h : r.length < ts.length} :
    Within Step.out r (do
      let s ← st.exit r
      let entry ← match s.scopes.lookup name with
        | some e => pure e
        | none => throw ⟨.internal (.functionLost name), s, r⟩
      let (node, s) := s.freshNode
      pure (⟨.funcDef node entry params body, s, r, h⟩ : Step ts Stmt)) :=
  .bind_fixed (fun _ h => exit_excluded h) fun _ _ =>
    funcDef_end_within fun _ => .pure (List.suffix_refl _)

end StmtWithin

section Lookahead

variable {stop : Pos} {depth : Nat} {s : ParseState} {name : String} {pos : Pos}
  {u : List Token}

-- An expression that starts with a name ends in what follows the name, unless the name is
-- unbound or the nesting limit is met.
theorem unary_within_name : Within Step.out u (unary stop depth s (⟨.ident name, pos⟩ :: u)) := by
  rw [unary.eq_1]
  exact primary_within.of_consumes (fun b _ => b.shorter) fun _ he hr => primary_name_failure he hr

theorem chain_within_name {lvl : Level} :
    Within Step.out u (chain stop depth lvl s (⟨.ident name, pos⟩ :: u)) := by
  -- by induction from the tightest level out, as the chain's first operand is a chain one
  -- level tighter
  induction lvl using Level.tighter_induction generalizing depth s with
  | step lvl ih =>
    have first : Within Step.out u (operand stop depth lvl s (⟨.ident name, pos⟩ :: u)) := by
      rw [operand.eq_def]
      split
      · rename_i l hl
        exact ih _ hl
      · exact unary_within_name
    rw [chain.eq_def]
    exact first.bind fun _ _ => links_within.bind_pure fun _ => ⟨_, rfl, rfl⟩

theorem exprStatement_within_name :
    Within Step.out u (exprStatement stop depth s (⟨.ident name, pos⟩ :: u)) := by
  unfold exprStatement
  rw [expression.eq_def]
  refine (Within.bind_fixed (fun _ h => deeper_excluded h) fun _ _ => chain_within_name).bind
    fun _ _ => ?_
  exact expect_within.bind_pure fun _ => ⟨_, rfl, rfl⟩

-- After a type, a declaration or a definition ends in what follows the type, and after a type
-- and a name, in what follows the name.
theorem declarators_within_name {x : String} {p : Pos} {acc : List (String × Option Expr)} :
    Within Step.out u (declarators stop depth s (⟨.ident x, p⟩ :: u) acc) := by
  rw [declarators.eq_def, expectIdent_cons]
  erw [pure_bind]
  refine initializer_within.bind_steps fun _ _ _ _ => ?_
  dsimp only
  split
  · exact Within.mono (declarators_within.bind_pure fun _ => ⟨_, rfl, rfl⟩) (List.suffix_cons _ _)
  · exact .pure (List.suffix_refl _)

theorem declaration_within_type {ty : Ty} {r : Shorter ts} (hty : type stop s ts = .ok (ty, r))
    (hr : r.val <:+ u ∨ ∃ x p r', r.val = ⟨.ident x, p⟩ :: r' ∧ r' <:+ u) :
    Within Step.out u (declaration stop depth s ts) := by
  obtain ⟨r, hlen⟩ := r
  unfold declaration
  rw [hty]
  erw [pure_bind]
  have first : Within Step.out u (declarators stop depth s r []) := by
    rcases hr with hr | ⟨x, p, r', rfl, hr⟩
    · exact declarators_within.mono hr
    · exact declarators_within_name.mono hr
  exact first.bind fun _ _ => expect_within.bind_pure fun _ => ⟨_, rfl, rfl⟩

theorem funcDef_within_name {ty : Ty} {x : String} {p : Pos} {h : u.length + 1 < ts.length}
    (hty : type stop s ts = .ok (ty, ⟨⟨.ident x, p⟩ :: u, h⟩)) :
    Within Step.out u (funcDef stop depth s ts) := by
  rw [funcDef.eq_def, hty]
  erw [pure_bind]
  dsimp only
  rw [expectIdent_cons]
  erw [pure_bind]
  exact expect_within.bind fun _ _ => formalsOrNone_within.bind fun _ _ =>
    expect_within.bind fun _ _ => block_within.bind fun _ _ =>
      .bind_fixed (fun _ h => exit_excluded h) fun _ _ =>
        funcDef_end_within fun _ => .pure (List.suffix_refl _)

theorem funcDef_within_type {ty : Ty} {r : Shorter ts} (hty : type stop s ts = .ok (ty, r))
    (hr : r.val <:+ u ∨ ∃ x p r', r.val = ⟨.ident x, p⟩ :: r' ∧ r' <:+ u) :
    Within Step.out u (funcDef stop depth s ts) := by
  obtain ⟨r, hlen⟩ := r
  rcases hname : expectIdent stop s r with e | ⟨x, r', hr'⟩
  · -- no name after the type: the definition fails there
    have fails : funcDef stop depth s ts = .error e := by
      rw [funcDef.eq_def, hty]
      erw [pure_bind]
      dsimp only
      rw [hname]
      rfl
    rw [fails]
    refine ⟨fun _ h => (by cases h), fun _ h => ?_⟩
    cases h
    rcases hr with hr | ⟨x, p, r', rfl, hr⟩
    · exact .inl ((expectIdent_located hname).1.trans hr)
    · simp [expectIdent] at hname
  · obtain ⟨q, rfl⟩ := expectIdent_ok hname
    have hr'' : r' <:+ u := by
      rcases hr with hr | ⟨x, p, r'', heq, hr⟩
      · exact (List.suffix_cons _ _).trans hr
      · simp only [List.cons.injEq] at heq
        rw [heq.2]
        exact hr
    exact (funcDef_within_name hty).mono hr''

end Lookahead

-- Two token lists that start with tokens of different kinds differ.
theorem head_ne {k k' : TokenKind} {q q' : Pos} {d r : List Token} (hk : k ≠ k') :
    ⟨k, q⟩ :: d ≠ ⟨k', q'⟩ :: r :=
  fun h => hk (by cases h; rfl)

section Pieces

variable {stop : Pos} {depth : Nat} {s : ParseState} {u₁ u₂ : List Token}

theorem initializer_agrees (c : List Token) :
    Agrees Steps.out Steps.out u₁ u₂ (initializer stop depth s (c ++ u₁))
      (initializer stop depth s (c ++ u₂)) := by
  rcases c with _ | ⟨⟨k, p⟩, c₀⟩
  · exact .of_within initializer_within
  simp only [List.cons_append]
  by_cases hk : k = .punct .assign
  · subst hk
    rw [initializer.eq_1, initializer.eq_1]
    exact (exprAgrees stop c₀).expression.bind_step (fun _ _ _ _ => .pure (List.suffix_refl _))
      fun _ _ _ _ _ _ => .pure rfl fun _ h => same_tail h
  · have hne : ∀ u q r, ⟨k, p⟩ :: (c₀ ++ u) = ⟨.punct .assign, q⟩ :: r → False :=
      fun _ _ _ h => hk (by cases h; rfl)
    rw [initializer.eq_2 _ _ _ _ (hne u₁), initializer.eq_2 _ _ _ _ (hne u₂)]
    exact .pure rfl fun _ h => same_tail (c := ⟨k, p⟩ :: c₀) h

theorem exprStatement_agrees (c : List Token) :
    Agrees Step.out Step.out u₁ u₂ (exprStatement stop depth s (c ++ u₁))
      (exprStatement stop depth s (c ++ u₂)) := by
  unfold exprStatement
  exact (exprAgrees stop c).expression.bind_step
    (fun _ _ _ _ => expect_within.bind_pure fun _ => ⟨_, rfl, rfl⟩) fun _ _ d _ _ _ =>
    (expect_agrees d).bind_shorter (fun _ _ => .pure (List.suffix_refl _))
      fun _ _ _ _ => .pure rfl fun _ h => same_tail h

theorem assignment_agrees {entry : Entry} (c : List Token) :
    Agrees Step.out Step.out u₁ u₂ (assignment stop depth entry s (c ++ u₁))
      (assignment stop depth entry s (c ++ u₂)) := by
  unfold assignment
  exact (exprAgrees stop c).expression.bind_step
    (fun _ _ _ _ => expect_within.bind_pure fun _ => ⟨_, rfl, rfl⟩) fun _ _ d _ _ _ =>
    (expect_agrees d).bind_shorter (fun _ _ => .pure (List.suffix_refl _))
      fun _ _ _ _ => .pure rfl fun _ h => same_tail h

theorem jump_agrees {k : Keyword} (c : List Token) :
    Agrees Steps.out Steps.out u₁ u₂ (jump stop depth k s (c ++ u₁))
      (jump stop depth k s (c ++ u₂)) := by
  unfold jump
  split
  · exact (exprAgrees stop c).expression.bind_step
      (fun _ _ _ _ => expect_within.bind_pure fun _ => ⟨_, rfl, rfl⟩) fun _ _ d _ _ _ =>
      (expect_agrees d).bind_shorter (fun _ _ => .pure (List.suffix_refl _))
        fun _ _ _ _ => .pure rfl fun _ h => same_tail h
  all_goals
    exact (expect_agrees c).bind_shorter (fun _ _ => .pure (List.suffix_refl _))
      fun _ _ _ _ => .pure rfl fun _ h => same_tail h

theorem declarators_agrees (c : List Token) {acc : List (String × Option Expr)} :
    Agrees Step.out Step.out u₁ u₂ (declarators stop depth s (c ++ u₁) acc)
      (declarators stop depth s (c ++ u₂) acc) := by
  -- by induction on `c`: the next declarator starts after a comma inside it
  induction c using tokens_induction generalizing s acc with
  | shorter c ih =>
    rw [declarators.eq_def, declarators.eq_def]
    refine (expectIdent_agrees c).bind_read (fun _ _ _ => initializer_within.bind_steps
      fun _ _ _ _ => ?_) fun name d h₁ _ _ => ?_
    · dsimp only
      split
      · exact Within.mono (declarators_within.bind_pure fun _ => ⟨_, rfl, rfl⟩)
          (List.suffix_cons _ _)
      · exact .pure (List.suffix_refl _)
    refine (initializer_agrees d).bind_steps (fun _ _ _ _ => ?_) fun init st d' h₁' _ hd' => ?_
    · dsimp only
      split
      · exact Within.mono (declarators_within.bind_pure fun _ => ⟨_, rfl, rfl⟩)
          (List.suffix_cons _ _)
      · exact .pure (List.suffix_refl _)
    -- the token after the initializer is inside `c`
    dsimp only
    obtain ⟨⟨k, q⟩, d₀, rfl⟩ := List.exists_cons_of_ne_nil hd'
    by_cases hk : k = .punct .comma
    · subst hk
      have hd₀ : d₀.length < c.length := by
        have := shorter_inside h₁ rfl rfl
        simp only [List.length_cons, List.cons_append, List.length_append] at h₁' this
        omega
      exact (ih d₀ hd₀).bind_step (fun _ _ _ _ => .pure (List.suffix_refl _))
        fun _ _ _ _ _ _ => .pure rfl fun _ h => same_tail h
    · split
      · rename_i heq _
        simp only [List.cons_append, List.cons.injEq, Token.mk.injEq] at heq
        exact absurd heq.1.1 hk
      · split
        · rename_i heq _
          simp only [List.cons_append, List.cons.injEq, Token.mk.injEq] at heq
          exact absurd heq.1.1 hk
        · exact .pure rfl fun _ h => same_tail (c := ⟨k, q⟩ :: d₀) h

theorem formals_agrees (c : List Token) :
    Agrees Step.out Step.out u₁ u₂ (formals stop depth s (c ++ u₁))
      (formals stop depth s (c ++ u₂)) := by
  -- by induction on `c`: the next parameter starts after a comma inside it
  induction c using tokens_induction generalizing s with
  | shorter c ih =>
    rw [formals.eq_def, formals.eq_def]
    -- each step leaves aside the goal that what follows the default stays in the tail, which
    -- is the same for all three and is proved last
    refine (type_agrees c).bind_read (fun _ _ _ => expectIdent_within.bind_read fun _ _ _ =>
      initializer_within.bind_steps fun _ _ _ _ => ?_) fun ty d hd _ _ => ?_
    rotate_left
    refine (expectIdent_agrees d).bind_read (fun _ _ _ => initializer_within.bind_steps
      fun _ _ _ _ => ?_) fun name d' hd' _ _ => ?_
    rotate_left
    refine (initializer_agrees d').bind_steps (fun _ _ _ _ => ?_) fun dflt st d'' h'' _ hd'' => ?_
    rotate_left
    · -- the token after the default is inside `c`
      dsimp only
      obtain ⟨⟨k, q⟩, d₀, rfl⟩ := List.exists_cons_of_ne_nil hd''
      by_cases hk : k = .punct .comma
      · subst hk
        have hd₀ : d₀.length < c.length := by
          have := shorter_inside hd rfl rfl
          have := shorter_inside hd' rfl rfl
          simp only [List.length_cons, List.cons_append, List.length_append] at h''
          omega
        exact (ih d₀ hd₀).bind_step (fun _ _ _ _ => .pure (List.suffix_refl _))
          fun _ _ _ _ _ _ => .pure rfl fun _ h => same_tail h
      · split
        · rename_i heq _
          simp only [List.cons_append, List.cons.injEq, Token.mk.injEq] at heq
          exact absurd heq.1.1 hk
        · split
          · rename_i heq _
            simp only [List.cons_append, List.cons.injEq, Token.mk.injEq] at heq
            exact absurd heq.1.1 hk
          · exact .pure rfl fun _ h => same_tail (c := ⟨k, q⟩ :: d₀) h
    all_goals
      dsimp only
      split
      · exact Within.mono (formals_within.bind_pure fun _ => ⟨_, rfl, rfl⟩)
          (List.suffix_cons _ _)
      · exact .pure (List.suffix_refl _)

theorem formalsOrNone_agrees (c : List Token) :
    Agrees Steps.out Steps.out u₁ u₂ (formalsOrNone stop depth s (c ++ u₁))
      (formalsOrNone stop depth s (c ++ u₂)) := by
  rcases c with _ | ⟨t, c₀⟩
  · exact .of_within formalsOrNone_within
  unfold formalsOrNone
  -- whether `)` follows at once is read off the first token
  have hat : ∀ u, atPunct .rparen ((t :: c₀) ++ u) = decide (t.kind = .punct .rparen) :=
    fun _ => rfl
  rw [hat, hat]
  split
  · exact .pure rfl fun _ h => same_tail h
  · exact (formals_agrees _).bind_step (fun _ _ _ _ => .pure (List.suffix_refl _))
      fun _ _ _ _ _ _ => .pure rfl fun _ h => same_tail h

theorem declaration_agrees (c : List Token) :
    Agrees Step.out Step.out u₁ u₂ (declaration stop depth s (c ++ u₁))
      (declaration stop depth s (c ++ u₂)) := by
  unfold declaration
  refine (type_agrees c).bind_read (fun _ _ _ => declarators_within.bind fun _ _ =>
    expect_within.bind_pure fun _ => ⟨_, rfl, rfl⟩) fun ty d _ _ _ => ?_
  exact (declarators_agrees d).bind_step
    (fun _ _ _ _ => expect_within.bind_pure fun _ => ⟨_, rfl, rfl⟩) fun _ _ d' _ _ _ =>
    (expect_agrees d').bind_shorter (fun _ _ => .pure (List.suffix_refl _))
      fun _ _ _ _ => .pure rfl fun _ h => same_tail h

end Pieces

section TypeLookahead

variable {t : Token} {c₀ u₁ u₂ : List Token}

-- After a type and a name, a definition is told from a declaration by the `(`; without a name
-- after the type, there is no definition.
theorem startsFunction_name {ts : List Token} {ty : Ty} {r : Shorter ts} {x : String} {p : Pos}
    {rest : List Token} (h : readType? ts = some (ty, r)) (hr : r.val = ⟨.ident x, p⟩ :: rest) :
    startsFunction ts = atPunct .lparen rest := by
  obtain ⟨r, hlen⟩ := r
  dsimp only at hr
  subst hr
  exact (readType?_typeName h).startsFunction_eq

theorem startsFunction_not_name {ts : List Token} {ty : Ty} {r : Shorter ts}
    (h : readType? ts = some (ty, r)) (hr : ∀ x p rest, r.val ≠ ⟨.ident x, p⟩ :: rest) :
    startsFunction ts = false := by
  unfold startsFunction
  rw [h]
  dsimp only
  split
  · rename_i heq
    exact absurd heq (hr _ _ _)
  · rfl

-- Where the two inputs are told apart differently, the type and the name after it reach the
-- tail.
theorem startsFunction_beyond (stop : Pos) (s : ParseState)
    (hdiff : startsFunction (t :: (c₀ ++ u₁)) ≠ startsFunction (t :: (c₀ ++ u₂))) :
    ∃ ty r, type stop s (t :: (c₀ ++ u₁)) = .ok (ty, r) ∧
      (r.val <:+ u₁ ∨ ∃ x p r', r.val = ⟨.ident x, p⟩ :: r' ∧ r' <:+ u₁) := by
  by_cases hc : t.kind = .keyword .constKw → c₀ ≠ []
  · have e₁ := readType?_append t c₀ u₁ hc
    have e₂ := readType?_append t c₀ u₂ hc
    rcases h₀ : readType? (t :: c₀) with _ | ⟨ty, d, hd⟩
    · rw [h₀, Option.map_none, Option.map_eq_none_iff] at e₁ e₂
      exact absurd (by simp only [startsFunction, e₁, e₂]) hdiff
    rw [h₀, Option.map_some, Option.map_eq_some_iff] at e₁ e₂
    obtain ⟨⟨ty₁, r₁⟩, hb₁, hv₁⟩ := e₁
    obtain ⟨⟨ty₂, r₂⟩, hb₂, hv₂⟩ := e₂
    simp only [readOut, Prod.mk.injEq] at hv₁ hv₂
    obtain ⟨rfl, hr₁⟩ := hv₁
    obtain ⟨rfl, hr₂⟩ := hv₂
    refine ⟨_, r₁, by simp only [type, hb₁]; rfl, ?_⟩
    rcases d with _ | ⟨⟨ka, pa⟩, d₀⟩
    · exact .inl (by rw [hr₁]; exact List.suffix_refl _)
    by_cases hka : ∃ x, ka = .ident x
    · obtain ⟨x, rfl⟩ := hka
      rcases d₀ with _ | ⟨b, d₁⟩
      · exact .inr ⟨x, pa, u₁, hr₁, List.suffix_refl _⟩
      · -- the token after the name is inside `c` as well
        exfalso
        apply hdiff
        rw [startsFunction_name hb₁ hr₁, startsFunction_name hb₂ hr₂]
        rfl
    · exfalso
      apply hdiff
      have hne : ∀ u x p rest, (⟨ka, pa⟩ :: d₀) ++ u ≠ ⟨.ident x, p⟩ :: rest :=
        fun _ x _ _ h => hka ⟨x, by cases h; rfl⟩
      rw [startsFunction_not_name hb₁ (by rw [hr₁]; exact hne u₁),
        startsFunction_not_name hb₂ (by rw [hr₂]; exact hne u₂)]
  · -- a lone `const`: the type ends in the tail whether or not `int` follows
    simp only [Classical.not_imp, not_not] at hc
    obtain ⟨hk, rfl⟩ := hc
    obtain ⟨k, p⟩ := t
    dsimp only at hk
    subst hk
    obtain ⟨⟨ty, r, hr⟩, hb⟩ := Option.isSome_iff_exists.1 (readType?_const (p := p) u₁)
    refine ⟨ty, ⟨r, hr⟩, by simp only [List.nil_append, type, hb], .inl ?_⟩
    rcases List.suffix_cons_iff.1 (readType?_typeName hb).suffix with heq | hs
    · exact absurd hr (by rw [heq]; exact Nat.lt_irrefl _)
    · exact hs

theorem type_branch_agrees {stop : Pos} {depth : Nat} {s : ParseState}
    (hfunc : Agrees Step.out Step.out u₁ u₂ (funcDef stop depth s (t :: (c₀ ++ u₁)))
      (funcDef stop depth s (t :: (c₀ ++ u₂)))) :
    Agrees Step.out Step.out u₁ u₂
      (if startsFunction (t :: (c₀ ++ u₁)) then funcDef stop depth s (t :: (c₀ ++ u₁))
        else declaration stop depth s (t :: (c₀ ++ u₁)))
      (if startsFunction (t :: (c₀ ++ u₂)) then funcDef stop depth s (t :: (c₀ ++ u₂))
        else declaration stop depth s (t :: (c₀ ++ u₂))) := by
  by_cases heq : startsFunction (t :: (c₀ ++ u₁)) = startsFunction (t :: (c₀ ++ u₂))
  · rw [← heq]
    split
    · exact hfunc
    · exact declaration_agrees (t :: c₀)
  · obtain ⟨ty, r, hty, hr⟩ := startsFunction_beyond stop s heq
    refine .of_within ?_
    split
    · exact funcDef_within_type hty hr
    · exact declaration_within_type hty hr

end TypeLookahead

-- The locality of every statement parser on the inputs that start with `c`.
structure StmtAgrees (stop : Pos) (c : List Token) : Prop where
  statement {depth : Nat} {s : ParseState} {u₁ u₂ : List Token} :
    Agrees Step.out Step.out u₁ u₂ (statement stop depth s (c ++ u₁))
      (statement stop depth s (c ++ u₂))
  block {depth : Nat} {s : ParseState} {u₁ u₂ : List Token} :
    Agrees Step.out Step.out u₁ u₂ (block stop depth s (c ++ u₁)) (block stop depth s (c ++ u₂))
  blockItems {depth : Nat} {s : ParseState} {u₁ u₂ : List Token} :
    Agrees Steps.out Steps.out u₁ u₂ (blockItems stop depth s (c ++ u₁))
      (blockItems stop depth s (c ++ u₂))
  funcDef {depth : Nat} {s : ParseState} {u₁ u₂ : List Token} :
    Agrees Step.out Step.out u₁ u₂ (funcDef stop depth s (c ++ u₁))
      (funcDef stop depth s (c ++ u₂))

section StmtAgreement

variable {stop : Pos} {c u₁ u₂ : List Token}
variable (ih : ∀ c', c'.length < c.length → StmtAgrees stop c')
include ih

theorem block_agrees {depth : Nat} {s : ParseState} :
    Agrees Step.out Step.out u₁ u₂ (block stop depth s (c ++ u₁)) (block stop depth s (c ++ u₂)) := by
  rw [block.eq_def, block.eq_def]
  -- after the closing brace the scope is closed, which reads no token, and the node is built
  refine (expect_agrees c).bind_shorter (fun _ _ => blockItems_within.bind_steps fun _ _ _ _ =>
    expect_within.bind_shorter fun _ _ => .bind_fixed (fun _ h => exit_excluded h) fun _ _ => ?_)
    fun d hd _ _ => ?_
  · dsimp only
    split <;> exact .pure (List.suffix_refl _)
  refine (ih d (shorter_inside hd rfl rfl)).blockItems.bind_steps (fun _ _ _ _ =>
    expect_within.bind_shorter fun _ _ => .bind_fixed (fun _ h => exit_excluded h) fun _ _ => ?_)
    fun items st d' _ _ _ => ?_
  · dsimp only
    split <;> exact .pure (List.suffix_refl _)
  refine (expect_agrees d').bind_shorter (fun _ _ =>
    .bind_fixed (fun _ h => exit_excluded h) fun _ _ => ?_) fun d'' _ _ _ => ?_
  · dsimp only
    split <;> exact .pure (List.suffix_refl _)
  refine Agrees.bind_fixed exit_fixed fun s' _ => ?_
  dsimp only
  split <;> exact .pure rfl fun _ h => same_tail h

theorem blockItems_agrees {depth : Nat} {s : ParseState}
    (hstmt : ∀ {depth : Nat} {s : ParseState}, Agrees Step.out Step.out u₁ u₂
      (statement stop depth s (c ++ u₁)) (statement stop depth s (c ++ u₂))) :
    Agrees Steps.out Steps.out u₁ u₂ (blockItems stop depth s (c ++ u₁))
      (blockItems stop depth s (c ++ u₂)) := by
  rcases c with _ | ⟨t, c₀⟩
  · exact .of_within blockItems_within
  simp only [List.cons_append]
  rw [blockItems.eq_2, blockItems.eq_2]
  split
  · exact .pure rfl fun _ h => same_tail (c := t :: c₀) h
  · exact hstmt.bind_step (fun _ _ _ _ => blockItems_within.bind_steps fun _ _ _ _ =>
      .pure (List.suffix_refl _)) fun _ _ d hd _ _ =>
      (ih d (shorter_inside hd rfl rfl)).blockItems.bind_steps
        (fun _ _ _ _ => .pure (List.suffix_refl _)) fun _ _ _ _ _ _ => .pure rfl fun _ h => same_tail h

theorem funcDef_agrees {depth : Nat} {s : ParseState} :
    Agrees Step.out Step.out u₁ u₂ (funcDef stop depth s (c ++ u₁)) (funcDef stop depth s (c ++ u₂)) := by
  rw [funcDef.eq_def, funcDef.eq_def]
  refine (type_agrees c).bind_read (fun _ _ _ => expectIdent_within.bind_read fun _ _ _ =>
    expect_within.bind_shorter fun _ _ => formalsOrNone_within.bind_steps fun _ _ _ _ =>
    expect_within.bind_shorter fun _ _ => block_within.bind_step fun _ _ _ _ => funcDef_ending_within)
    fun ty d₁ h₁ _ _ => ?_
  refine (expectIdent_agrees d₁).bind_read (fun _ _ _ => expect_within.bind_shorter fun _ _ =>
    formalsOrNone_within.bind_steps fun _ _ _ _ => expect_within.bind_shorter fun _ _ =>
    block_within.bind_step fun _ _ _ _ => funcDef_ending_within) fun name d₂ h₂ _ _ => ?_
  refine (expect_agrees d₂).bind_shorter (fun _ _ => formalsOrNone_within.bind_steps
    fun _ _ _ _ => expect_within.bind_shorter fun _ _ => block_within.bind_step fun _ _ _ _ =>
    funcDef_ending_within) fun d₃ h₃ _ _ => ?_
  refine (formalsOrNone_agrees d₃).bind_steps (fun _ _ _ _ => expect_within.bind_shorter
    fun _ _ => block_within.bind_step fun _ _ _ _ => funcDef_ending_within) fun fs st d₄ h₄ _ _ => ?_
  refine (expect_agrees d₄).bind_shorter (fun _ _ => block_within.bind_step fun _ _ _ _ => funcDef_ending_within)
    fun d₅ h₅ _ _ => ?_
  have hd₅ : d₅.length < c.length := by
    simp only [List.length_append] at h₁ h₂ h₃ h₄ h₅
    omega
  refine (ih d₅ hd₅).block.bind_step (fun _ _ _ _ => funcDef_ending_within) fun body st' d₆ _ _ _ => ?_
  refine Agrees.bind_fixed exit_fixed fun s' _ => ?_
  dsimp only
  split
  · exact .pure rfl fun _ h => same_tail h
  · exact .of_within ⟨fun _ h => (by cases h), fun _ h => by cases h; exact .inr fun _ _ he => by cases he⟩

theorem statement_agrees {depth : Nat} {s : ParseState}
    (hfunc : ∀ {depth : Nat} {s : ParseState}, Agrees Step.out Step.out u₁ u₂
      (funcDef stop depth s (c ++ u₁)) (funcDef stop depth s (c ++ u₂)))
    (hblock : ∀ {depth : Nat} {s : ParseState}, Agrees Step.out Step.out u₁ u₂
      (block stop depth s (c ++ u₁)) (block stop depth s (c ++ u₂))) :
    Agrees Step.out Step.out u₁ u₂ (statement stop depth s (c ++ u₁))
      (statement stop depth s (c ++ u₂)) := by
  rcases c with _ | ⟨t, c₀⟩
  · exact .of_within statement_within
  simp only [List.cons_append]
  rw [statement.eq_def, statement.eq_def]
  split
  swap
  · -- the nesting limit
    refine .of_within ⟨fun _ h => (by cases h), fun _ h => ?_⟩
    cases h
    refine .inr fun se pos he => ?_
    simp only [failAt, ParseError.malformed.injEq] at he
    exact he.1.symm
  dsimp only
  -- a statement is told by its first token, which is inside `c`
  split
  · exact type_branch_agrees hfunc
  · exact type_branch_agrees hfunc
  · exact type_branch_agrees hfunc
  · exact hblock
  · -- `if`: the condition, the branch, and an `else` told by the token after the branch; each
    -- step leaves aside the goal that what follows the branch stays in the tail, proved last
    refine (expect_agrees c₀).bind_shorter (fun _ _ => expression_within.bind_step fun _ _ _ _ =>
      expect_within.bind_shorter fun _ _ => statement_within.bind_step fun _ _ _ _ => ?_)
      fun d₁ h₁ _ _ => ?_
    rotate_left
    refine (exprAgrees stop d₁).expression.bind_step (fun _ _ _ _ => expect_within.bind_shorter
      fun _ _ => statement_within.bind_step fun _ _ _ _ => ?_) fun cond st d₂ h₂ _ _ => ?_
    rotate_left
    refine (expect_agrees d₂).bind_shorter (fun _ _ => statement_within.bind_step
      fun _ _ _ _ => ?_) fun d₃ h₃ _ _ => ?_
    rotate_left
    have hd₃ : d₃.length < (t :: c₀).length := by
      simp only [List.length_append, List.length_cons] at h₁ h₂ h₃ ⊢
      omega
    refine (ih d₃ hd₃).statement.bind_step (fun _ _ _ _ => ?_) fun th st' d₄ h₄ _ hd₄ => ?_
    rotate_left
    · dsimp only
      obtain ⟨⟨k, q⟩, d₀, rfl⟩ := List.exists_cons_of_ne_nil hd₄
      by_cases hk : k = .keyword .elseKw
      · subst hk
        have hd₀ : d₀.length < (t :: c₀).length := by
          simp only [List.length_append, List.length_cons] at h₃ h₄ hd₃ ⊢
          omega
        exact (ih d₀ hd₀).statement.bind_step (fun _ _ _ _ => .pure (List.suffix_refl _))
          fun _ _ _ _ _ _ => .pure rfl fun _ h => same_tail h
      · split
        · rename_i heq _
          exact absurd heq (head_ne hk)
        · split
          · rename_i heq _
            exact absurd heq (head_ne hk)
          · exact .pure rfl fun _ h => same_tail (c := ⟨k, q⟩ :: d₀) h
    all_goals
      dsimp only
      split
      · refine Within.mono ?_ (List.suffix_cons _ _)
        exact statement_within.bind_step fun _ _ _ _ => .pure (List.suffix_refl _)
      · exact .pure (List.suffix_refl _)
  · -- `while`: the condition and the body
    refine (expect_agrees c₀).bind_shorter (fun _ _ => expression_within.bind_step fun _ _ _ _ =>
      expect_within.bind_shorter fun _ _ => statement_within.bind_step fun _ _ _ _ =>
      .pure (List.suffix_refl _)) fun d₁ h₁ _ _ => ?_
    refine (exprAgrees stop d₁).expression.bind_step (fun _ _ _ _ => expect_within.bind_shorter
      fun _ _ => statement_within.bind_step fun _ _ _ _ => .pure (List.suffix_refl _))
      fun cond st d₂ h₂ _ _ => ?_
    refine (expect_agrees d₂).bind_shorter (fun _ _ => statement_within.bind_step
      fun _ _ _ _ => .pure (List.suffix_refl _)) fun d₃ h₃ _ _ => ?_
    have hd₃ : d₃.length < (t :: c₀).length := by
      simp only [List.length_append, List.length_cons] at h₁ h₂ h₃ ⊢
      omega
    exact (ih d₃ hd₃).statement.bind_step (fun _ _ _ _ => .pure (List.suffix_refl _))
      fun _ _ _ _ _ _ => .pure rfl fun _ h => same_tail h
  · exact (jump_agrees c₀).map (fun _ => rfl) fun _ => rfl
  · exact (jump_agrees c₀).map (fun _ => rfl) fun _ => rfl
  · exact (jump_agrees c₀).map (fun _ => rfl) fun _ => rfl
  · exact .pure rfl fun _ h => same_tail h
  · -- a name: an assignment when `=` follows, an expression statement otherwise
    rename_i name heq
    obtain ⟨k, p⟩ := t
    dsimp only at heq
    subst heq
    rcases c₀ with _ | ⟨a, c₁⟩
    · -- the `=` is looked for in the tail: the first parse ends there, or fails on the name
      refine .of_within ?_
      simp only [List.nil_append]
      split
      · split
        · refine .bind_fixed (fun _ h => resolve_excluded h) fun _ _ => ?_
          refine Within.mono ?_ (List.suffix_cons _ _)
          exact assignment_within.map fun _ => rfl
        · exact exprStatement_within_name
      · exact exprStatement_within_name
    · simp only [List.cons_append]
      split
      · exact Agrees.bind_fixed resolve_fixed fun _ _ =>
          (assignment_agrees c₁).map (fun _ => rfl) fun _ => rfl
      · exact exprStatement_agrees (⟨.ident name, p⟩ :: a :: c₁)
  · exact exprStatement_agrees (t :: c₀)

theorem stmtAgrees_of_shorter : StmtAgrees stop c :=
  have hfunc : ∀ {depth : Nat} {s : ParseState} {u₁ u₂ : List Token}, Agrees Step.out Step.out
      u₁ u₂ (funcDef stop depth s (c ++ u₁)) (funcDef stop depth s (c ++ u₂)) :=
    funcDef_agrees ih
  have hstmt : ∀ {depth : Nat} {s : ParseState} {u₁ u₂ : List Token}, Agrees Step.out Step.out
      u₁ u₂ (statement stop depth s (c ++ u₁)) (statement stop depth s (c ++ u₂)) :=
    statement_agrees ih hfunc (block_agrees ih)
  { statement := hstmt
    block := block_agrees ih
    blockItems := blockItems_agrees ih hstmt
    funcDef := hfunc }

end StmtAgreement

-- Every statement parser is local on every input.
theorem stmtAgrees (stop : Pos) (c : List Token) : StmtAgrees stop c := by
  induction c using tokens_induction with
  | shorter c ih => exact stmtAgrees_of_shorter ih

theorem programItems_within {stop : Pos} {s : ParseState} {ts : List Token} :
    Within Steps.out ts (programItems stop s ts) :=
  ⟨fun _ h => by simp only [Steps.out, (programItems_reads h).1, List.nil_suffix],
    fun _ h => .inl (programItems_located h).1⟩

-- The statements of a program are read locally: the whole program is.
theorem programItems_agrees (stop : Pos) (c : List Token) {s : ParseState} {u₁ u₂ : List Token} :
    Agrees Steps.out Steps.out u₁ u₂ (programItems stop s (c ++ u₁))
      (programItems stop s (c ++ u₂)) := by
  induction c using tokens_induction generalizing s with
  | shorter c ih =>
    rcases c with _ | ⟨t, c₀⟩
    · exact .of_within programItems_within
    simp only [List.cons_append]
    rw [programItems.eq_2, programItems.eq_2]
    refine (stmtAgrees stop (t :: c₀)).statement.bind_step (fun _ _ _ _ =>
      programItems_within.bind_steps fun _ _ _ _ => .pure (List.suffix_refl _))
      fun _ _ d h₁ _ _ => ?_
    have hd : d.length < (t :: c₀).length := by
      simp only [List.length_append, List.length_cons] at h₁ ⊢
      omega
    exact (ih d hd).bind_steps (fun _ _ _ _ => .pure (List.suffix_refl _))
      fun _ _ _ _ _ _ => .pure rfl fun _ h => same_tail h

end ScopedC

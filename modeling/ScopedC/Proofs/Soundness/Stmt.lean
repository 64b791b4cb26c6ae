import ScopedC.Proofs.Soundness.Expr
namespace ScopedC

open Parse

-- A successful parse of `ts` from `s` to `s'`, giving `v` and leaving `rest`: `v` is a phrase of
-- `G` read off `ts`, resolved by `R` from the scopes and declaration number of `s` to those of
-- `s'`.
def ReadsStmt {α β : Type} (G : List Token → α → List Token → Prop)
    (R : Scopes Entry → Nat → α → β → Scopes Entry → Nat → Prop) (ts : List Token) (v : β)
    (s s' : ParseState) (rest : List Token) : Prop :=
  ∃ a, G ts a rest ∧ R s.scopes s.decls a v s'.scopes s'.decls

-- A parameter as written, read as a formal whose default is resolved in `env`.
def ReadFormal (env : Scopes Entry) (p : Raw.Param) (f : Formal) : Prop :=
  p.ty = f.ty ∧ p.name = f.name ∧ Option.Rel (ResolvedExpr env) p.default f.default

theorem ReadFormal.map_ty {env : Scopes Entry} {ps : List Raw.Param} {fs : List Formal}
    (h : List.Forall₂ (ReadFormal env) ps fs) : ps.map (·.ty) = fs.map (·.ty) := by
  induction h with
  | nil => rfl
  | cons hpf _ ih => simp [hpf.1, ih]

theorem ReadFormal.defaults {env : Scopes Entry} {ps : List Raw.Param} {fs : List Formal}
    (h : List.Forall₂ (ReadFormal env) ps fs) :
    List.Forall₂ (fun p dflt => Option.Rel (ResolvedExpr env) p.default dflt) ps
      (fs.map (·.default)) := by
  induction h with
  | nil => exact .nil
  | cons hpf _ ih => exact .cons hpf.2.2 ih

section

variable {stop : Pos} {depth : Nat} {s : ParseState} {ts : List Token}

theorem initializer_reads {r : Steps ts (Option Expr)} (h : initializer stop depth s ts = .ok r) :
    ReadsPhrase Gram.Init (Option.Rel (ResolvedExpr s.scopes)) ts r.value s r.state r.rest := by
  unfold initializer at h
  split at h
  · obtain ⟨⟨e, s1, r1, hr1⟩, he, h⟩ := bind_eq_ok h
    cases h
    have read := (exprSound stop _).expression he
    obtain ⟨e', g, res⟩ := read.phrase
    exact ⟨read.scopes, read.decls, some e', .some g, .some res⟩
  · cases h
    exact ⟨rfl, rfl, none, .none, .none⟩

-- Declarators are kept in the order of their names, the last initializer of a name winning.
theorem declarators_reads {s : ParseState} {ts : List Token} {acc : List (String × Option Expr)}
    {r : Step ts (List (String × Option Expr))} (h : declarators stop depth s ts acc = .ok r) :
    ReadsPhrase Gram.Declarators
      (fun ds v => ∃ ds', List.Forall₂ (ResolvedDeclarator s.scopes) ds ds' ∧
        v = ds'.foldl (fun acc x => insertByName x.1 x.2 acc) acc)
      ts r.value s r.state r.rest := by
  rw [declarators.eq_def] at h
  obtain ⟨⟨name, r1, hr1⟩, hname, h⟩ := bind_eq_ok h
  obtain ⟨⟨init, s1, r2, hr2⟩, hinit, h⟩ := bind_eq_ok h
  obtain ⟨q, hts⟩ := expectIdent_ok hname
  have first := initializer_reads hinit
  dsimp only at first
  obtain ⟨i, g, res⟩ := first.phrase
  dsimp only at h
  split at h
  · -- a comma: more declarators follow, inserted after this one
    rename_i pos r3 hlen
    have : r3.length < ts.length := by simp only [List.length_cons] at hlen; omega
    obtain ⟨⟨acc', s2, r4, hr4⟩, hmore, h⟩ := bind_eq_ok h
    cases h
    dsimp only
    have more := declarators_reads hmore
    dsimp only at more
    obtain ⟨ds, gs, ds', hrel, hv⟩ := more.phrase
    refine ⟨?_, ?_, (name, i) :: ds, ?_, (name, init) :: ds', .cons ⟨rfl, res⟩ ?_, hv⟩
    · rw [more.scopes, first.scopes]
    · rw [more.decls, first.decls]
    · rw [hts]
      exact .cons g gs
    · rwa [first.scopes] at hrel
  · cases h
    dsimp only
    refine ⟨first.scopes, first.decls, [(name, i)], ?_, [(name, init)], .cons ⟨rfl, res⟩ .nil, rfl⟩
    rw [hts]
    exact .one g
termination_by ts.length
decreasing_by omega

-- Declaring the names of a declaration binds each, in order, to a fresh entry.
theorem declareAll_declared (ty : Ty) :
    ∀ (items : List (String × Option Expr)) (s : ParseState),
      Declared s.scopes s.decls ty items (declareAll ty items s).1
        (declareAll ty items s).2.scopes (declareAll ty items s).2.decls
  | [], _ => .nil
  | (x, _) :: more, s =>
    .cons (declareAll_declared ty more ((s.declare x ty).2.identNode (s.declare x ty).1 none).2)

theorem declaration_reads {r : Step ts Stmt} (h : declaration stop depth s ts = .ok r) :
    ReadsStmt Gram.Statement ResolvedStmt ts r.value s r.state r.rest := by
  unfold declaration at h
  obtain ⟨⟨ty, r1, hr1⟩, hty, h⟩ := bind_eq_ok h
  obtain ⟨⟨items, s1, r2, hr2⟩, hitems, h⟩ := bind_eq_ok h
  obtain ⟨⟨r3, hr3⟩, hsemi, h⟩ := bind_eq_ok h
  cases h
  have read := declarators_reads hitems
  dsimp only at read
  obtain ⟨ds, g, ds', hrel, rfl⟩ := read.phrase
  obtain ⟨q, hq⟩ := expect_ok hsemi
  rw [hq] at g
  -- the names are declared after every initializer is read, from the scopes the statement
  -- started in
  have declared := declareAll_declared ty (ds'.foldl (fun acc x => insertByName x.1 x.2 acc) []) s1
  rw [read.scopes, read.decls] at declared
  exact ⟨.decl ty ds, .decl (type_ok hty) g, .decl hrel declared⟩

theorem formals_reads {s : ParseState} {ts : List Token} {r : Step ts (List Formal)}
    (h : formals stop depth s ts = .ok r) :
    ReadsPhrase Gram.Params (List.Forall₂ (ReadFormal s.scopes)) ts r.value s r.state r.rest := by
  rw [formals.eq_def] at h
  obtain ⟨⟨ty, r1, hr1⟩, hty, h⟩ := bind_eq_ok h
  obtain ⟨⟨name, r2, hr2⟩, hname, h⟩ := bind_eq_ok h
  obtain ⟨⟨dflt, s1, r3, hr3⟩, hdflt, h⟩ := bind_eq_ok h
  obtain ⟨q, hq⟩ := expectIdent_ok hname
  have gty := type_ok hty
  rw [hq] at gty
  have first := initializer_reads hdflt
  dsimp only at first
  obtain ⟨i, g, res⟩ := first.phrase
  dsimp only at h
  split at h
  · -- a comma: more parameters follow
    rename_i pos r4 hlen
    have : r4.length < ts.length := by simp only [List.length_cons] at hlen; omega
    obtain ⟨⟨more, s2, r5, hr5⟩, hmore, h⟩ := bind_eq_ok h
    cases h
    dsimp only
    have others := formals_reads hmore
    dsimp only at others
    obtain ⟨ps, gs, rels⟩ := others.phrase
    refine ⟨?_, ?_, ⟨ty, name, i⟩ :: ps, .cons gty g gs, .cons ⟨rfl, rfl, res⟩ ?_⟩
    · rw [others.scopes, first.scopes]
    · rw [others.decls, first.decls]
    · rwa [first.scopes] at rels
  · cases h
    exact ⟨first.scopes, first.decls, [⟨ty, name, i⟩], .one gty g, .cons ⟨rfl, rfl, res⟩ .nil⟩
termination_by ts.length
decreasing_by omega

theorem formalsOrNone_reads {r : Steps ts (List Formal)} (h : formalsOrNone stop depth s ts = .ok r) :
    ReadsPhrase Gram.ParamList (List.Forall₂ (ReadFormal s.scopes)) ts r.value s r.state r.rest := by
  unfold formalsOrNone at h
  split at h
  · -- `)` at once: no parameters
    rename_i hr
    cases h
    obtain ⟨⟨k, p⟩, rest, rfl⟩ : ∃ t rest, ts = t :: rest := by
      cases ts with
      | nil => simp [atPunct] at hr
      | cons t rest => exact ⟨t, rest, rfl⟩
    simp only [atPunct, decide_eq_true_eq] at hr
    subst hr
    exact ⟨rfl, rfl, [], .none, .nil⟩
  · obtain ⟨⟨fs, s1, r1, hr1⟩, hfs, h⟩ := bind_eq_ok h
    cases h
    have read := formals_reads hfs
    obtain ⟨ps, g, rels⟩ := read.phrase
    exact ⟨read.scopes, read.decls, ps, .some g, rels⟩

-- Declaring the parameters binds each, in order, to a fresh entry that records its literal
-- default.
theorem declareParams_declared {env : Scopes Entry} :
    ∀ {ps : List Raw.Param} {fs : List Formal}, List.Forall₂ (ReadFormal env) ps fs →
      ∀ s : ParseState, DeclaredParams s.scopes s.decls ps (fs.map (·.default))
        (declareParams fs s).1 (declareParams fs s).2.scopes (declareParams fs s).2.decls
  | [], [], .nil, _ => .nil
  | ⟨ty, x, _⟩ :: _, ⟨_, _, _⟩ :: _, .cons ⟨rfl, rfl, hdflt⟩ more, s => by
    -- the value recorded is read off the resolved default, which is a literal exactly when
    -- the written one is
    have later := declareParams_declared more ((s.declare x ty).2.identNode (s.declare x ty).1 none).2
    cases hdflt with
    | none => exact .cons later
    | some res => cases res <;> exact .cons later

theorem exprStatement_reads {r : Step ts Stmt} (h : exprStatement stop depth s ts = .ok r) :
    ReadsStmt Gram.Statement ResolvedStmt ts r.value s r.state r.rest := by
  unfold exprStatement at h
  obtain ⟨⟨e, s1, r1, hr1⟩, he, h⟩ := bind_eq_ok h
  obtain ⟨⟨r2, hr2⟩, hsemi, h⟩ := bind_eq_ok h
  cases h
  have read := (exprSound stop ts).expression he
  dsimp only at read
  obtain ⟨e', g, res⟩ := read.phrase
  obtain ⟨q, hq⟩ := expect_ok hsemi
  rw [hq] at g
  refine ⟨.exprStmt e', .exprStmt g, ?_⟩
  dsimp only
  rw [read.scopes, read.decls]
  exact .exprStmt res

theorem assignment_reads {entry : Entry} {x : String} {p q : Pos} {r : Step ts Stmt}
    (hx : s.scopes.lookup x = some entry) (h : assignment stop depth entry s ts = .ok r) :
    ReadsStmt Gram.Statement ResolvedStmt (⟨.ident x, p⟩ :: ⟨.punct .assign, q⟩ :: ts) r.value s
      r.state r.rest := by
  unfold assignment at h
  obtain ⟨⟨e, s1, r1, hr1⟩, he, h⟩ := bind_eq_ok h
  obtain ⟨⟨r2, hr2⟩, hsemi, h⟩ := bind_eq_ok h
  cases h
  have read := (exprSound stop ts).expression he
  dsimp only at read
  obtain ⟨e', g, res⟩ := read.phrase
  obtain ⟨q', hq⟩ := expect_ok hsemi
  rw [hq] at g
  refine ⟨.assign x e', .assign g, ?_⟩
  dsimp only at read res ⊢
  rw [read.scopes, read.decls]
  exact .assign hx res

-- `return e;`, `break;` and `continue;` after their keyword.
theorem jump_reads {k : Keyword} {p : Pos} {r : Steps ts Stmt}
    (hk : k = .returnKw ∨ k = .breakKw ∨ k = .continueKw) (h : jump stop depth k s ts = .ok r) :
    ReadsStmt Gram.Statement ResolvedStmt (⟨.keyword k, p⟩ :: ts) r.value s r.state r.rest := by
  unfold jump at h
  split at h
  · obtain ⟨⟨e, s1, r1, hr1⟩, he, h⟩ := bind_eq_ok h
    obtain ⟨⟨r2, hr2⟩, hsemi, h⟩ := bind_eq_ok h
    cases h
    have read := (exprSound stop ts).expression he
    dsimp only at read
    obtain ⟨e', g, res⟩ := read.phrase
    obtain ⟨q, hq⟩ := expect_ok hsemi
    rw [hq] at g
    refine ⟨.returnValue e', .returnValue g, ?_⟩
    dsimp only
    rw [read.scopes, read.decls]
    exact .returnValue res
  · obtain ⟨⟨r1, hr1⟩, hsemi, h⟩ := bind_eq_ok h
    cases h
    obtain ⟨q, rfl⟩ := expect_ok hsemi
    exact ⟨.breakLoop, .breakLoop, .breakLoop⟩
  · obtain ⟨⟨r1, hr1⟩, hsemi, h⟩ := bind_eq_ok h
    cases h
    obtain ⟨q, rfl⟩ := expect_ok hsemi
    obtain rfl : k = .continueKw := by grind
    exact ⟨.continueLoop, .continueLoop, .continueLoop⟩

end

-- The statements chained onto `last`, outermost link first, in front of the list `later` that
-- `last` chains.
theorem chains_chainOnto : ∀ (more : List Stmt) {last : Stmt} {later : List Stmt} (n : Nat),
    Chains later last → Chains (more.reverse ++ later) (Stmt.chainOnto last more n).1
  | [], _, _, _, h => h
  | x :: more, last, later, n, h => by
    have linked : Chains (x :: later) (.seq n x last) := by
      cases h with
      | one => exact .cons .one
      | cons h' => exact .cons (.cons h')
    simpa using chains_chainOnto more (n + 1) linked

theorem chains_of_chain {items : List Stmt} {n : Nat} {c : Stmt}
    (h : (Stmt.chain items n).1 = some c) : Chains items c := by
  unfold Stmt.chain at h
  split at h
  · cases h
  · rename_i last earlier hrev
    cases h
    have items_eq : items = earlier.reverse ++ [last] := by
      rw [← List.reverse_reverse items, hrev]
      simp
    rw [items_eq]
    exact chains_chainOnto earlier n .one

theorem nil_of_chain {items : List Stmt} {n : Nat} (h : (Stmt.chain items n).1 = none) :
    items = [] := by
  unfold Stmt.chain at h
  split at h
  · rename_i hrev
    exact List.reverse_eq_nil_iff.mp hrev
  · cases h

theorem ResolvedItems.nil_right {env env' : Scopes Entry} {d d' : Nat} {raw : List Raw.Stmt}
    (h : ResolvedItems env d raw [] env' d') : raw = [] ∧ env' = env ∧ d' = d := by
  cases h
  exact ⟨rfl, rfl, rfl⟩

-- The soundness of every statement parser on the token list `ts`.
structure StmtSound (stop : Pos) (ts : List Token) : Prop where
  statement {depth : Nat} {s : ParseState} {r : Step ts Stmt} :
    statement stop depth s ts = .ok r →
      ReadsStmt Gram.Statement ResolvedStmt ts r.value s r.state r.rest
  block {depth : Nat} {s : ParseState} {r : Step ts Stmt} :
    block stop depth s ts = .ok r → ReadsStmt Gram.Block ResolvedBlock ts r.value s r.state r.rest
  blockItems {depth : Nat} {s : ParseState} {r : Steps ts (List Stmt)} :
    blockItems stop depth s ts = .ok r →
      ReadsStmt Gram.Items ResolvedItems ts r.value s r.state r.rest

section

variable {stop : Pos} {depth : Nat} {s : ParseState} {ts : List Token}
variable (ih : ∀ ts' : List Token, ts'.length < ts.length → StmtSound stop ts')
include ih

theorem block_reads {r : Step ts Stmt} (h : block stop depth s ts = .ok r) :
    ReadsStmt Gram.Block ResolvedBlock ts r.value s r.state r.rest := by
  rw [block.eq_def] at h
  obtain ⟨⟨r1, hr1⟩, hopen, h⟩ := bind_eq_ok h
  obtain ⟨⟨items, s1, r2, hr2⟩, hitems, h⟩ := bind_eq_ok h
  obtain ⟨⟨r3, hr3⟩, hclose, h⟩ := bind_eq_ok h
  obtain ⟨s2, hexit, h⟩ := bind_eq_ok h
  obtain ⟨q, hq⟩ := expect_ok hopen
  obtain ⟨q', hq'⟩ := expect_ok hclose
  obtain ⟨raw, g, res⟩ := (ih r1 hr1).blockItems hitems
  dsimp only at g res
  rw [hq'] at g
  -- the statements add only to the frame the block opened, which closing it drops again
  have closed : s2.scopes = s.scopes := by
    have hframe := resolvedItems_frame res
    obtain ⟨hx, -⟩ := exit_ok hexit
    simp only [enter_scopes, Scopes.enter] at hframe
    rw [hframe] at hx
    simp only [Scopes.exit, Except.ok.injEq] at hx
    rw [← hx]
  have hd := (exit_ok hexit).2
  simp only [enter_scopes, enter_decls] at res
  rcases hc : Stmt.chain items s2.nodes with ⟨inner, n⟩
  simp only [ParseState.chain, hc] at h
  cases inner with
  | some inner =>
    cases h
    dsimp only
    refine ⟨raw, by rw [hq]; exact .mk g, ?_⟩
    rw [closed, hd]
    exact .items res (chains_of_chain (by rw [hc]))
  | none =>
    cases h
    obtain rfl := nil_of_chain (by rw [hc])
    obtain ⟨rfl, -, hd'⟩ := res.nil_right
    dsimp only
    refine ⟨[], by rw [hq]; exact .mk g, ?_⟩
    rw [closed, hd, hd']
    exact .empty

theorem funcDef_reads {r : Step ts Stmt} (h : funcDef stop depth s ts = .ok r) :
    ReadsStmt Gram.Statement ResolvedStmt ts r.value s r.state r.rest := by
  rw [funcDef.eq_def] at h
  obtain ⟨⟨ret, r1, hr1⟩, hret, h⟩ := bind_eq_ok h
  obtain ⟨⟨name, r2, hr2⟩, hname, h⟩ := bind_eq_ok h
  obtain ⟨⟨r3, hr3⟩, hopen, h⟩ := bind_eq_ok h
  obtain ⟨⟨fs, s1, r4, hr4⟩, hfs, h⟩ := bind_eq_ok h
  dsimp only at h
  obtain ⟨⟨r5, hr5⟩, hclose, h⟩ := bind_eq_ok h
  obtain ⟨⟨body, s3, r6, hr6⟩, hbody, h⟩ := bind_eq_ok h
  obtain ⟨s4, hexit, h⟩ := bind_eq_ok h
  dsimp only at h
  split at h
  · rename_i entry hentry
    cases h
    dsimp only at hexit hbody hr6 ⊢
    obtain ⟨q1, hr1eq⟩ := expectIdent_ok hname
    obtain ⟨q2, hr2eq⟩ := expect_ok hopen
    obtain ⟨q3, hr4eq⟩ := expect_ok hclose
    have gret := type_ok hret
    rw [hr1eq, hr2eq] at gret
    have params := formalsOrNone_reads hfs
    dsimp only at params
    obtain ⟨ps, gps, rels⟩ := params.phrase
    rw [hr4eq] at gps
    -- the parameters are declared in a scope of their own, inside the one that now binds the
    -- function's name
    have declared := declareParams_declared rels (s1.declare name (ret.func (fs.map (·.ty)))).2.enter
    generalize declareParams fs (s1.declare name (ret.func (fs.map (·.ty)))).2.enter = P
      at declared hbody hclose ⊢
    simp only [enter_scopes, enter_decls, declare_scopes, declare_decls] at declared
    rw [params.scopes, params.decls, ← ReadFormal.map_ty rels] at declared
    obtain ⟨rawBody, gbody, resBody⟩ := (ih r5 (by omega)).block hbody
    dsimp only at gbody resBody
    -- the body leaves the parameters' scope as it found it, so closing that scope returns to
    -- the one where the function's name was bound
    have closed : s4.scopes = s.scopes.install name (functionEntry s.scopes s.decls ret name ps) := by
      obtain ⟨hx, -⟩ := exit_ok hexit
      rw [resolvedBlock_frame resBody, declaredParams_frame declared] at hx
      simp only [Scopes.enter, Scopes.exit, Except.ok.injEq] at hx
      rw [← hx]
      rfl
    rw [closed, Scopes.lookup_install_self, Option.some.injEq] at hentry
    subst hentry
    refine ⟨.funcDef ret name ps rawBody, .funcDef gret gps gbody, ?_⟩
    rw [freshNode_scopes, freshNode_decls, closed, (exit_ok hexit).2]
    exact .funcDef (ReadFormal.defaults rels) declared resBody
  · cases h

theorem statement_reads {r : Step ts Stmt} (h : statement stop depth s ts = .ok r) :
    ReadsStmt Gram.Statement ResolvedStmt ts r.value s r.state r.rest := by
  rw [statement.eq_def] at h
  split at h
  · split at h
    · rename_i t rest
      obtain ⟨k, p⟩ := t
      dsimp only at h
      split at h
      case h_1 | h_2 | h_3 =>
        -- a type starts a function definition or a declaration
        split at h
        · exact funcDef_reads ih h
        · exact declaration_reads h
      case h_4 =>
        obtain ⟨raw, g, res⟩ := block_reads ih h
        exact ⟨.block raw, .block g, .block res⟩
      case h_5 =>
        obtain ⟨⟨r1, hr1⟩, hopen, h⟩ := bind_eq_ok h
        obtain ⟨⟨c, s1, r2, hr2⟩, hc, h⟩ := bind_eq_ok h
        obtain ⟨⟨r3, hr3⟩, hclose, h⟩ := bind_eq_ok h
        obtain ⟨⟨th, s2, r4, hr4⟩, hth, h⟩ := bind_eq_ok h
        dsimp only at hc hclose hth h hr2 hr3 hr4
        obtain ⟨q, hrest⟩ := expect_ok hopen
        obtain ⟨q', hr2eq⟩ := expect_ok hclose
        have cond := (exprSound stop r1).expression hc
        dsimp only at cond
        obtain ⟨c', gc, resc⟩ := cond.phrase
        rw [hr2eq] at gc
        obtain ⟨t', gt, rest'⟩ := (ih r3 (by simp only [List.length_cons]; omega)).statement hth
        dsimp only at gt rest'
        rw [cond.scopes, cond.decls] at rest'
        split at h
        · -- an `else` follows: it belongs to this `if`
          rename_i pe r5 hlen
          obtain ⟨⟨el, s3, r6, hr6⟩, hel, h⟩ := bind_eq_ok h
          cases h
          obtain ⟨e', ge, rese⟩ := (ih r5 (by simp only [List.length_cons] at hr4 ⊢; omega)).statement hel
          dsimp only at ge rese ⊢
          exact ⟨.ifElse c' t' e', by rw [hrest]; exact .ifElse gc gt ge, .ifElse resc rest' rese⟩
        · -- no `else` follows
          rename_i hlen r4' hlen' notElse
          cases h
          have noElse : Gram.startsElse r4 = false := by
            unfold Gram.startsElse
            split
            · exact (notElse _ _ hr4 rfl (proof_irrel_heq _ _)).elim
            · rfl
          dsimp only
          exact ⟨.ifThen c' t', by rw [hrest]; exact .ifThen gc gt noElse, .ifThen resc rest'⟩
      case h_6 =>
        obtain ⟨⟨r1, hr1⟩, hopen, h⟩ := bind_eq_ok h
        obtain ⟨⟨c, s1, r2, hr2⟩, hc, h⟩ := bind_eq_ok h
        obtain ⟨⟨r3, hr3⟩, hclose, h⟩ := bind_eq_ok h
        obtain ⟨⟨b, s2, r4, hr4⟩, hb, h⟩ := bind_eq_ok h
        dsimp only at hc hclose hb h hr2 hr3 hr4
        cases h
        obtain ⟨q, hrest⟩ := expect_ok hopen
        obtain ⟨q', hr2eq⟩ := expect_ok hclose
        have cond := (exprSound stop r1).expression hc
        dsimp only at cond
        obtain ⟨c', gc, resc⟩ := cond.phrase
        rw [hr2eq] at gc
        obtain ⟨b', gb, resb⟩ := (ih r3 (by simp only [List.length_cons]; omega)).statement hb
        dsimp only at gb resb ⊢
        rw [cond.scopes, cond.decls] at resb
        exact ⟨.whileLoop c' b', by rw [hrest]; exact .whileLoop gc gb, .whileLoop resc resb⟩
      case h_7 | h_8 | h_9 =>
        obtain ⟨x, hx, rfl⟩ := ok_of_map_ok h
        exact jump_reads (by simp) hx
      case h_10 =>
        cases h
        exact ⟨.empty, .empty, .empty⟩
      case h_11 =>
        split at h
        · rename_i a r'
          split at h
          · -- `name =`: an assignment, whose target is resolved before its value is read
            rename_i ha
            obtain ⟨ka, pa⟩ := a
            dsimp only at ha
            subst ha
            obtain ⟨entry, hentry, h⟩ := bind_eq_ok h
            obtain ⟨x, hx, rfl⟩ := ok_of_map_ok h
            exact assignment_reads (resolve_ok hentry) hx
          · exact exprStatement_reads h
        · exact exprStatement_reads h
      case h_12 => exact exprStatement_reads h
    · exact exprStatement_reads h
  · cases h

theorem blockItems_reads {r : Steps ts (List Stmt)} (h : blockItems stop depth s ts = .ok r) :
    ReadsStmt Gram.Items ResolvedItems ts r.value s r.state r.rest := by
  rw [blockItems.eq_def] at h
  split at h
  · cases h
    exact ⟨[], .nil, .nil⟩
  · split at h
    · cases h
      exact ⟨[], .nil, .nil⟩
    · obtain ⟨⟨x, s1, r1, hr1⟩, hx, h⟩ := bind_eq_ok h
      obtain ⟨⟨xs, s2, r2, hr2⟩, hxs, h⟩ := bind_eq_ok h
      cases h
      obtain ⟨y, g, res⟩ := statement_reads ih hx
      obtain ⟨ys, gs, ress⟩ := (ih r1 hr1).blockItems hxs
      exact ⟨y :: ys, .cons g gs, .cons res ress⟩

theorem stmtSound_of_shorter : StmtSound stop ts :=
  { statement := statement_reads ih
    block := block_reads ih
    blockItems := blockItems_reads ih }

end

-- Every statement parser is sound on every token list.
theorem stmtSound (stop : Pos) (ts : List Token) : StmtSound stop ts := by
  induction ts using tokens_induction with
  | shorter ts ih => exact stmtSound_of_shorter ih

-- A block leaves the scopes as it found them.
theorem block_scopes {stop : Pos} {depth : Nat} {s : ParseState} {ts : List Token}
    {r : Step ts Stmt} (h : block stop depth s ts = .ok r) : r.state.scopes = s.scopes := by
  obtain ⟨_, -, res⟩ := (stmtSound stop ts).block h
  exact resolvedBlock_frame res

theorem declareParams_outer : ∀ (fs : List Formal) (s : ParseState),
    (declareParams fs s).2.scopes.outer = s.scopes.outer
  | [], _ => rfl
  | _ :: fs, _ => declareParams_outer fs _

-- Closing the parameters' scope after a function's body returns to the scopes in which the
-- function's name was just bound.
theorem exit_after_body {stop : Pos} {depth : Nat} {name : String} {ty : Ty} {fs : List Formal}
    {s1 : ParseState} {r5 : List Token} {b : Step r5 Stmt} (r6 : List Token)
    (hbody : block stop depth (declareParams fs (s1.declare name ty).2.enter).2 r5 = .ok b) :
    ∃ s4, b.state.exit r6 = .ok s4 ∧ s4.scopes = (s1.declare name ty).2.scopes ∧
      s4.decls = b.state.decls := by
  have outer : b.state.scopes.outer =
      (s1.declare name ty).2.scopes.top :: (s1.declare name ty).2.scopes.outer := by
    rw [block_scopes hbody, declareParams_outer]
    rfl
  exact exit_of_outer r6 outer

-- The statements of a program are read up to the end of the input.
theorem programItems_reads {stop : Pos} {s : ParseState} {ts : List Token}
    {r : Steps ts (List Stmt)} (h : programItems stop s ts = .ok r) :
    r.rest = [] ∧ ReadsStmt Gram.Items ResolvedItems ts r.value s r.state r.rest := by
  rw [programItems.eq_def] at h
  split at h
  · cases h
    exact ⟨rfl, [], .nil, .nil⟩
  · rename_i t rest
    obtain ⟨⟨x, s1, r1, hr1⟩, hx, h⟩ := bind_eq_ok h
    obtain ⟨⟨xs, s2, r2, hr2⟩, hxs, h⟩ := bind_eq_ok h
    cases h
    obtain ⟨y, g, res⟩ := (stmtSound stop _).statement hx
    obtain ⟨hnil, ys, gs, ress⟩ := programItems_reads hxs
    exact ⟨hnil, y :: ys, .cons g gs, .cons res ress⟩
termination_by ts.length

end ScopedC

import ScopedC.Proofs.Viable.Expr
import ScopedC.Proofs.Soundness.Stmt
namespace ScopedC

open Parse Gram

-- A statement-level phrase that resolves from the scopes `env` and the declaration number `d`.
def Resolvable {α β : Type} (R : Scopes Entry → Nat → α → β → Scopes Entry → Nat → Prop)
    (env : Scopes Entry) (d : Nat) (a : α) : Prop :=
  ∃ b env' d', R env d a b env' d'

-- An initializer, declarators and parameter defaults whose expressions resolve in `env`.
def InitResolves (env : Scopes Entry) (i : Option Raw.Expr) : Prop :=
  ∃ i', Option.Rel (ResolvedExpr env) i i'

def DeclaratorsResolve (env : Scopes Entry) (ds : List (String × Option Raw.Expr)) : Prop :=
  ∃ ds', List.Forall₂ (ResolvedDeclarator env) ds ds'

def DefaultsResolve (env : Scopes Entry) (ps : List Raw.Param) : Prop :=
  ∃ dflts, List.Forall₂ (fun p dflt => Option.Rel (ResolvedExpr env) p.default dflt) ps dflts

section Scoping

theorem Declared.exists (ty : Ty) :
    ∀ (ds : List (String × Option Expr)) (env : Scopes Entry) (d : Nat),
      ∃ items env' d', Declared env d ty ds items env' d'
  | [], env, d => ⟨[], env, d, .nil⟩
  | (x, _) :: ds, env, d =>
    have ⟨_, env', d', h⟩ := Declared.exists ty ds (env.install x (.ident d x ty env.level)) (d + 1)
    ⟨_, env', d', .cons (n := 0) h⟩

theorem DeclaredParams.exists :
    ∀ (ps : List Raw.Param) (dflts : List (Option Expr)), ps.length = dflts.length →
      ∀ (env : Scopes Entry) (d : Nat), ∃ ps' env' d', DeclaredParams env d ps dflts ps' env' d'
  | [], [], _, env, d => ⟨[], env, d, .nil⟩
  | p :: ps, _ :: dflts, hlen, env, d =>
    have ⟨_, env', d', h⟩ := DeclaredParams.exists ps dflts (by simpa using hlen)
      (env.install p.name (.ident d p.name p.ty env.level)) (d + 1)
    ⟨_, env', d', .cons (n := 0) h⟩

theorem Chains.exists : ∀ items : List Stmt, items ≠ [] → ∃ root, Chains items root
  | [s], _ => ⟨s, .one⟩
  | _ :: s' :: ss, _ =>
    have ⟨_, h⟩ := Chains.exists (s' :: ss) (List.cons_ne_nil _ _)
    ⟨_, .cons (n := 0) h⟩

-- A block whose statements resolve in a scope of its own resolves.
theorem ResolvedBlock.of_items {env env' : Scopes Entry} {d d' : Nat} {items : List Raw.Stmt}
    {items' : List Stmt} (h : ResolvedItems env.enter d items items' env' d') :
    Resolvable ResolvedBlock env d items := by
  rcases items' with _ | ⟨first, more⟩
  · obtain ⟨rfl, -, rfl⟩ := h.nil_right
    exact ⟨.emptyBlock 0, _, _, .empty⟩
  · obtain ⟨root, chains⟩ := Chains.exists (first :: more) (List.cons_ne_nil _ _)
    exact ⟨.block 0 root, env, d', .items h chains⟩

theorem ResolvedItems.append {env env₁ env₂ : Scopes Entry} {d d₁ d₂ : Nat}
    {bs : List Raw.Stmt} {bs' : List Stmt} :
    ∀ {as : List Raw.Stmt} {as' : List Stmt}, ResolvedItems env d as as' env₁ d₁ →
      ResolvedItems env₁ d₁ bs bs' env₂ d₂ → ResolvedItems env d (as ++ bs) (as' ++ bs') env₂ d₂
  | [], _, .nil, h' => h'
  | _ :: _, _, .cons first more, h' => .cons first (more.append h')

end Scoping

section Resolvable

variable {env : Scopes Entry} {d : Nat}

theorem Resolvable.decl {ty : Ty} {ds : List (String × Option Raw.Expr)}
    (h : DeclaratorsResolve env ds) : Resolvable ResolvedStmt env d (.decl ty ds) := by
  obtain ⟨ds', hds⟩ := h
  obtain ⟨items, env', d', declared⟩ :=
    Declared.exists ty (ds'.foldl (fun acc x => insertByName x.1 x.2 acc) []) env d
  exact ⟨.decl 0 items, env', d', .decl hds declared⟩

theorem Resolvable.block {items : List Raw.Stmt} (h : Resolvable ResolvedItems env.enter d items) :
    Resolvable ResolvedBlock env d items := by
  obtain ⟨items', env', d', res⟩ := h
  exact ResolvedBlock.of_items res

-- A function whose parameters' defaults resolve, with a body that resolves in the scope of its
-- parameters.
theorem Resolvable.funcDef {ret : Ty} {f : String} {ps : List Raw.Param} {dflts : List (Option Expr)}
    {body : List Raw.Stmt} {ps' : List Param} {envP : Scopes Entry} {dP : Nat}
    (hd : List.Forall₂ (fun p dflt => Option.Rel (ResolvedExpr env) p.default dflt) ps dflts)
    (declared : DeclaredParams (env.install f (functionEntry env d ret f ps)).enter (d + 1) ps dflts
      ps' envP dP)
    (hb : Resolvable ResolvedBlock envP dP body) :
    Resolvable ResolvedStmt env d (.funcDef ret f ps body) := by
  obtain ⟨b, envB, dB, res⟩ := hb
  exact ⟨_, _, _, .funcDef (n := 0) hd declared res⟩

theorem Resolvable.funcDef_empty {ret : Ty} {f : String} {ps : List Raw.Param}
    (h : DefaultsResolve env ps) : Resolvable ResolvedStmt env d (.funcDef ret f ps []) := by
  obtain ⟨dflts, hd⟩ := h
  obtain ⟨ps', envP, dP, declared⟩ := DeclaredParams.exists ps dflts hd.length_eq
    (env.install f (functionEntry env d ret f ps)).enter (d + 1)
  exact Resolvable.funcDef hd declared ⟨.emptyBlock 0, envP, dP, .empty⟩

theorem Resolvable.blockStmt {items : List Raw.Stmt} (h : Resolvable ResolvedBlock env d items) :
    Resolvable ResolvedStmt env d (.block items) := by
  obtain ⟨b, env', d', hb⟩ := h
  exact ⟨b, env', d', .block hb⟩

theorem Resolvable.ifThen {c : Raw.Expr} {c' : Expr} {t : Raw.Stmt} (hc : ResolvedExpr env c c')
    (h : Resolvable ResolvedStmt env d t) : Resolvable ResolvedStmt env d (.ifThen c t) := by
  obtain ⟨t', env', d', ht⟩ := h
  exact ⟨_, env', d', .ifThen (n := 0) hc ht⟩

theorem Resolvable.ifElse {c : Raw.Expr} {c' : Expr} {t e : Raw.Stmt} {t' : Stmt}
    {env1 : Scopes Entry} {d1 : Nat} (hc : ResolvedExpr env c c') (ht : ResolvedStmt env d t t' env1 d1)
    (h : Resolvable ResolvedStmt env1 d1 e) : Resolvable ResolvedStmt env d (.ifElse c t e) := by
  obtain ⟨e', env2, d2, he⟩ := h
  exact ⟨_, env2, d2, .ifElse (n := 0) hc ht he⟩

theorem Resolvable.whileLoop {c : Raw.Expr} {c' : Expr} {b : Raw.Stmt} (hc : ResolvedExpr env c c')
    (h : Resolvable ResolvedStmt env d b) : Resolvable ResolvedStmt env d (.whileLoop c b) := by
  obtain ⟨b', env', d', hb⟩ := h
  exact ⟨_, env', d', .whileLoop (n := 0) hc hb⟩

end Resolvable

namespace Gram

theorem startsElse_of_startsExpr {k : TokenKind} {p : Pos} (hk : startsExpr k = true)
    (r : List Token) : startsElse (⟨k, p⟩ :: r) = false := by
  cases k with
  | keyword kw => simp [startsExpr, prefixOp?] at hk
  | _ => rfl

-- No statement starts with `else`, so neither does a list of statements before a tail that
-- does not.
theorem Statement.startsElse_eq {ts rest : List Token} {a : Raw.Stmt} (g : Statement ts a rest) :
    startsElse ts = false := by
  cases g with
  | decl ty _ | funcDef ty _ _ => cases ty <;> rfl
  | block b => cases b; rfl
  | exprStmt c =>
    obtain ⟨⟨k, p⟩, r, rfl, hk⟩ := c.head
    exact startsElse_of_startsExpr hk r
  | _ => rfl

theorem Items.startsElse_eq {ts rest : List Token} {items : List Raw.Stmt}
    (g : Items ts items rest) (hrest : startsElse rest = false) : startsElse ts = false := by
  cases g with
  | nil => exact hrest
  | cons st _ => exact st.startsElse_eq

theorem Items.append {ts mid rest : List Token} :
    ∀ {as bs : List Raw.Stmt}, Items ts as mid → Items mid bs rest → Items ts (as ++ bs) rest
  | [], _, g, g' => by cases g; exact g'
  | _ :: _, _, .cons st more, g' => .cons st (Items.append more g')

section Cuts

variable {ts r : List Token}

theorem TypeName.cut {ty : Ty} (g : TypeName ts ty r) : Cut TypeName ts ty r := by
  obtain ⟨p, hp⟩ := g.suffix
  exact ⟨p, hp.symm, fun z => by simpa using g.retail (z := z) hp.symm (List.nil_append r).symm⟩

theorem Init.cut {i : Option Raw.Expr} (g : Init ts i r) : Cut Init ts i r := by
  obtain ⟨p, hp⟩ := g.suffix
  exact ⟨p, hp.symm, fun z => by simpa using g.retail (z := z) hp.symm (List.nil_append r).symm⟩

theorem Declarators.cut {ds : List (String × Option Raw.Expr)} (g : Declarators ts ds r) :
    Cut Declarators ts ds r := by
  obtain ⟨p, hp⟩ := g.suffix
  exact ⟨p, hp.symm, fun z => by simpa using g.retail (z := z) hp.symm (List.nil_append r).symm⟩

theorem Params.cut {ps : List Raw.Param} (g : Params ts ps r) : Cut Params ts ps r := by
  obtain ⟨p, hp⟩ := g.suffix
  exact ⟨p, hp.symm, fun z => by simpa using g.retail (z := z) hp.symm (List.nil_append r).symm⟩

-- A statement read before a failure reads alike before any tail that starts with `else` only
-- where the old one did.
theorem Statement.cut {a : Raw.Stmt} (g : Statement ts a r) :
    ∃ p, ts = p ++ r ∧
      ∀ z, (startsElse r = false → startsElse z = false) → Statement (p ++ z) a z := by
  obtain ⟨p, hp⟩ := g.suffix
  exact ⟨p, hp.symm, fun z hz => by
    simpa using g.retail (z := z) hp.symm (List.nil_append r).symm (by simpa using hz)⟩

theorem Items.cut {items : List Raw.Stmt} (g : Items ts items r) :
    ∃ p, ts = p ++ r ∧
      ∀ z, (startsElse r = false → startsElse z = false) → Items (p ++ z) items z := by
  obtain ⟨p, hp⟩ := g.suffix
  exact ⟨p, hp.symm, fun z hz => by
    simpa using g.retail (z := z) hp.symm (List.nil_append r).symm (by simpa using hz)⟩

-- The parameters read before `)`, alike before any other tail after the `)`.
theorem ParamList.cut_rparen {ps : List Raw.Param} {q : Pos}
    (g : ParamList ts ps (⟨.punct .rparen, q⟩ :: r)) :
    ∃ pp, ts = pp ++ ⟨.punct .rparen, q⟩ :: r ∧
      ∀ z, ParamList (pp ++ ⟨.punct .rparen, q⟩ :: z) ps (⟨.punct .rparen, q⟩ :: z) := by
  cases g with
  | none => exact ⟨[], rfl, fun _ => .none⟩
  | some gp =>
    obtain ⟨pp, hpp, cut⟩ := gp.cut
    exact ⟨pp, hpp, fun _ => .some (cut _)⟩

-- The parameters read before a token other than `)`, alike before any other tail.
theorem ParamList.cut_open {ps : List Raw.Param} (g : ParamList ts ps r)
    (hr : atPunct .rparen r = false) : ∃ pp, ts = pp ++ r ∧ ∀ z, ParamList (pp ++ z) ps z := by
  cases g with
  | none => simp [atPunct] at hr
  | some gp =>
    obtain ⟨pp, hpp, cut⟩ := gp.cut
    exact ⟨pp, hpp, fun _ => .some (cut _)⟩

-- A statement `kw ( c ) t`, read as `F c t`, that resolves where its condition and its body do.
structure Guarded (kw : Keyword) (F : Raw.Expr → Raw.Stmt → Raw.Stmt) : Prop where
  rule {c : Raw.Expr} {t : Raw.Stmt} {p q q' : Pos} {ts r rest : List Token} :
    Chain .or ts c (⟨.punct .rparen, q'⟩ :: r) → Statement r t rest → startsElse rest = false →
      Statement (⟨.keyword kw, p⟩ :: ⟨.punct .lparen, q⟩ :: ts) (F c t) rest
  resolves {env : Scopes Entry} {d : Nat} {c : Raw.Expr} {c' : Expr} {t : Raw.Stmt} :
    ResolvedExpr env c c' → Resolvable ResolvedStmt env d t → Resolvable ResolvedStmt env d (F c t)

theorem Guarded.ifThen : Guarded .ifKw .ifThen := ⟨.ifThen, Resolvable.ifThen⟩

theorem Guarded.whileLoop : Guarded .whileKw .whileLoop :=
  ⟨fun gc gt _ => .whileLoop gc gt, Resolvable.whileLoop⟩

section Guarded

variable {kw : Keyword} {F : Raw.Expr → Raw.Stmt → Raw.Stmt} {env : Scopes Entry} {d : Nat}
  {ts r : List Token} {e : Failure} {p q : Pos}

-- No `(`: `(0);` completes the statement after its keyword.
theorem Guarded.resumes_open (hg : Guarded kw F) (h : StuckAt r e) :
    Resumes Statement (Resolvable ResolvedStmt env d) (⟨.keyword kw, p⟩ :: r) e :=
  h.resumes (c := [_]) rfl
    ⟨[mark .lparen, ⟨.num 0, Pos.start⟩, mark .rparen, mark .semicolon], F (.lit 0) .empty,
      fun _ hz => hg.rule (.of_unary (.primary .lit) .or) .empty hz,
      hg.resolves (.lit (n := 0)) ⟨_, _, _, .empty (n := 0)⟩⟩

-- A failed condition: `);` closes it.
theorem Guarded.resumes_condition (hg : Guarded kw F)
    (hts : ts = ⟨.keyword kw, p⟩ :: ⟨.punct .lparen, q⟩ :: r)
    (h : Resumes (Chain .or) (Resolves env) r e) :
    Resumes Statement (Resolvable ResolvedStmt env d) ts e := by
  refine h.enclose (p := [_, _]) ?_ hts
  exact fun _ w a g => ⟨w ++ [mark .rparen, mark .semicolon], F a .empty,
    fun _ hz => hg.rule (by rw [List.append_assoc]; exact g _ rfl) .empty hz,
    fun ha => ha.elim fun _ hv => hg.resolves hv ⟨_, _, _, .empty (n := 0)⟩⟩

-- No `)` after the condition: `);` completes the statement.
theorem Guarded.resumes_close (hg : Guarded kw F) {pc : List Token} {a : Raw.Expr} {a' : Expr}
    (cut : ∀ z, Chain .or (pc ++ z) a z) (res : ResolvedExpr env a a')
    (hts : ts = ⟨.keyword kw, p⟩ :: ⟨.punct .lparen, q⟩ :: (pc ++ r)) (h : StuckAt r e) :
    Resumes Statement (Resolvable ResolvedStmt env d) ts e :=
  h.resumes (c := _ :: _ :: pc) hts
    ⟨[mark .rparen, mark .semicolon], F a .empty, fun _ hz => hg.rule (cut _) .empty hz,
      hg.resolves res ⟨_, _, _, .empty (n := 0)⟩⟩

-- A failed body is a failure of the statement.
theorem Guarded.resumes_body (hg : Guarded kw F) {pc : List Token} {a : Raw.Expr} {a' : Expr}
    {q' : Pos} (cut : ∀ z, Chain .or (pc ++ z) a z) (res : ResolvedExpr env a a')
    (hts : ts = ⟨.keyword kw, p⟩ :: ⟨.punct .lparen, q⟩ :: (pc ++ ⟨.punct .rparen, q'⟩ :: r))
    (h : Resumes Statement (Resolvable ResolvedStmt env d) r e) :
    Resumes Statement (Resolvable ResolvedStmt env d) ts e := by
  refine h.enclose (p := ⟨.keyword kw, p⟩ :: ⟨.punct .lparen, q⟩ :: pc ++ [⟨.punct .rparen, q'⟩])
    ?_ (by simp [hts])
  exact fun _ w b g => ⟨w, F a b, fun z hz => by simpa using hg.rule (cut _) (g z hz) hz,
    hg.resolves res⟩

end Guarded

-- The statements of a block or a program: a failure in the first statement, and a failure

end Cuts

end Gram

-- The shortest completions.

section Completions

variable {env : Scopes Entry} {d : Nat}

-- `;` completes a statement from nothing.
theorem Statement.completable_empty : Completable Statement (Resolvable ResolvedStmt env d) [] :=
  ⟨[mark .semicolon], .empty, fun _ _ => .empty, _, _, _, .empty (n := 0)⟩

-- `x;` completes a declaration after its type.
theorem Statement.completable_decl {ts r : List Token} {ty : Ty} (g : TypeName ts ty r) :
    ∃ p, ts = p ++ r ∧ Completable Statement (Resolvable ResolvedStmt env d) p := by
  obtain ⟨p, hp, cut⟩ := g.cut
  obtain ⟨items, env', d', declared⟩ := Declared.exists ty [("x", none)] env d
  exact ⟨p, hp, [⟨.ident "x", Pos.start⟩, mark .semicolon], .decl ty [("x", none)],
    fun _ _ => .decl (cut _) (.one .none), _, _, _,
    .decl (n := 0) (.cons (⟨rfl, .none⟩ : ResolvedDeclarator env ("x", none) ("x", none)) .nil)
      declared⟩

-- `T x;` completes a declaration after its type and name.
theorem Statement.completable_named {p : List Token} {ty : Ty} {x : String} {q : Pos}
    (cut : ∀ z, TypeName (p ++ z) ty z) :
    Completable Statement (Resolvable ResolvedStmt env d) (p ++ [⟨.ident x, q⟩]) :=
  ⟨[mark .semicolon], .decl ty [(x, none)], fun _ _ => by simpa using .decl (cut _) (.one .none),
    Resolvable.decl ⟨[(x, none)], .cons ⟨rfl, .none⟩ .nil⟩⟩

end Completions

section Phrases

variable {stop : Pos} {depth : Nat} {s : ParseState} {ts : List Token} {e : Failure}

theorem initializer_resumes (h : initializer stop depth s ts = .error e) :
    Resumes Init (InitResolves s.scopes) ts e := by
  unfold initializer at h
  split at h
  · obtain h | ⟨_, -, h⟩ := bind_eq_error h
    · refine ((exprResumes stop _).expression h).enclose (p := [_]) ?_ rfl
      exact fun _ w a g => ⟨w, some a, fun z hz => .some (g z hz), fun hr => hr.elim fun _ hv => ⟨_, .some hv⟩⟩
    · cases h
  · cases h

theorem declarators_resumes {s : ParseState} {ts : List Token} {acc : List (String × Option Expr)}
    (h : declarators stop depth s ts acc = .error e) :
    Resumes Declarators (DeclaratorsResolve s.scopes) ts e := by
  rw [declarators.eq_def] at h
  obtain h | ⟨⟨name, r1, hr1⟩, hname, h⟩ := bind_eq_error h
  · -- no name: a name completes the declarators
    exact (expectIdent_stuck h).resumes (c := []) rfl
      ⟨[⟨.ident "x", Pos.start⟩], [("x", none)], fun _ _ => .one .none,
        [("x", none)], .cons ⟨rfl, .none⟩ .nil⟩
  obtain ⟨q, hts⟩ := expectIdent_ok hname
  obtain h | ⟨⟨init, s1, r2, hr2⟩, hinit, h⟩ := bind_eq_error h
  · refine (initializer_resumes h).enclose (p := [_]) ?_ hts
    exact fun _ w i g => ⟨w, [(name, i)], fun z hz => .one (g z hz),
      fun hr => hr.elim fun i' hi => ⟨[(name, i')], .cons ⟨rfl, hi⟩ .nil⟩⟩
  have read := initializer_reads hinit
  dsimp only at read h
  obtain ⟨i, g, res⟩ := read.phrase
  split at h
  · -- a comma: the declarators after it failed
    rename_i pos r3 hlen
    have : r3.length < ts.length := by simp only [List.length_cons] at hlen; omega
    obtain h | ⟨_, -, h⟩ := bind_eq_error h
    · obtain ⟨p, hp, cut⟩ := g.cut
      have more := declarators_resumes h
      rw [read.scopes] at more
      refine more.enclose (p := ⟨.ident name, q⟩ :: (p ++ [⟨.punct .comma, pos⟩])) ?_
        (by simp [hts, hp])
      exact fun _ w ds g' => ⟨w, (name, i) :: ds, fun z hz => by simpa using .cons (cut _) (g' z hz),
        fun hr => hr.elim fun ds' hds => ⟨(name, init) :: ds', .cons ⟨rfl, res⟩ hds⟩⟩
    · cases h
  · cases h
termination_by ts.length

theorem formals_resumes {s : ParseState} {ts : List Token} (h : formals stop depth s ts = .error e) :
    Resumes Params (DefaultsResolve s.scopes) ts e := by
  rw [formals.eq_def] at h
  obtain h | ⟨⟨ty, r1, hr1⟩, hty, h⟩ := bind_eq_error h
  · -- no type: `int x` completes the parameters
    exact (type_stuck h).resumes (c := []) rfl
      ⟨[⟨.keyword .intKw, Pos.start⟩, ⟨.ident "x", Pos.start⟩], [⟨.int, "x", none⟩],
        fun _ _ => .one .int .none, [none], .cons .none .nil⟩
  have gty := type_ok hty
  obtain h | ⟨⟨name, r2, hr2⟩, hname, h⟩ := bind_eq_error h
  · -- no name after the type: a name completes them
    obtain ⟨p, hp, cut⟩ := gty.cut
    exact (expectIdent_stuck h).resumes hp
      ⟨[⟨.ident "x", Pos.start⟩], [⟨ty, "x", none⟩], fun _ _ => .one (cut _) .none, [none],
        .cons .none .nil⟩
  obtain ⟨q, hr1eq⟩ := expectIdent_ok hname
  rw [hr1eq] at gty
  obtain ⟨p, hp, cut⟩ := gty.cut
  obtain h | ⟨⟨dflt, s1, r3, hr3⟩, hdflt, h⟩ := bind_eq_error h
  · refine (initializer_resumes h).enclose (p := p ++ [⟨.ident name, q⟩]) ?_ (by simp [hp])
    exact fun _ w i g => ⟨w, [⟨ty, name, i⟩], fun z hz => by simpa using .one (cut _) (g z hz),
      fun hr => hr.elim fun i' hi => ⟨[i'], .cons hi .nil⟩⟩
  have read := initializer_reads hdflt
  obtain ⟨i, g, res⟩ := read.phrase
  dsimp only at h g res
  split at h
  · -- a comma: the parameters after it failed
    rename_i pos r4 hlen
    have : r4.length < ts.length := by
      have := gty.suffix.length_le
      simp only [List.length_cons] at hlen this
      omega
    obtain h | ⟨_, -, h⟩ := bind_eq_error h
    · obtain ⟨p', hp', cut'⟩ := g.cut
      have more := formals_resumes h
      rw [read.scopes] at more
      refine more.enclose (p := p ++ ⟨.ident name, q⟩ :: (p' ++ [⟨.punct .comma, pos⟩])) ?_
        (by simp [hp, hp'])
      exact fun _ w ps g' => ⟨w, ⟨ty, name, i⟩ :: ps,
        fun z hz => by simpa using .cons (cut _) (cut' _) (g' z hz),
        fun hr => hr.elim fun dflts hds => ⟨_, .cons res hds⟩⟩
    · cases h
  · cases h
termination_by ts.length

theorem formalsOrNone_resumes (h : formalsOrNone stop depth s ts = .error e) :
    Resumes ParamList (DefaultsResolve s.scopes) ts e := by
  unfold formalsOrNone at h
  split at h
  · cases h
  · obtain h | ⟨_, -, h⟩ := bind_eq_error h
    · exact (formals_resumes h).mono .some
    · cases h

end Phrases

section Simple

variable {stop : Pos} {depth : Nat} {s : ParseState} {ts : List Token} {e : Failure}

theorem expect_error_not_at {p : Punct} {site : Site} (h : expect stop s p site ts = .error e) :
    atPunct p ts = false := by
  cases ts with
  | nil => rfl
  | cons t r =>
    by_cases ht : t.kind = .punct p
    · simp [expect, ht] at h
    · simpa [atPunct] using ht

theorem declaration_resumes (h : declaration stop depth s ts = .error e) :
    Resumes Statement (Resolvable ResolvedStmt s.scopes s.decls) ts e := by
  unfold declaration at h
  obtain h | ⟨⟨ty, r1, hr1⟩, hty, h⟩ := bind_eq_error h
  · exact (type_stuck h).resumes (c := []) rfl Statement.completable_empty
  obtain ⟨p, hp, cut⟩ := (type_ok hty).cut
  obtain h | ⟨⟨items, s1, r2, hr2⟩, hitems, h⟩ := bind_eq_error h
  · refine (declarators_resumes h).enclose (p := p) ?_ hp
    exact fun _ w ds g => ⟨w ++ [mark .semicolon], .decl ty ds,
      fun z _ => .decl (cut _) (by rw [List.append_assoc]; exact g _ rfl), Resolvable.decl⟩
  obtain ⟨ds, g, ds', hds, -⟩ := (declarators_reads hitems).phrase
  obtain h | ⟨_, -, h⟩ := bind_eq_error h
  · -- `;` is missing after the declarators
    obtain ⟨p', hp', cut'⟩ := g.cut
    exact (expect_stuck h).resumes (c := p ++ p') (by simp [hp, hp'])
      ⟨[mark .semicolon], .decl ty ds, fun _ _ => by simpa using .decl (cut _) (cut' _),
        Resolvable.decl ⟨ds', hds⟩⟩
  · cases h

theorem exprStatement_resumes (h : exprStatement stop depth s ts = .error e) :
    Resumes Statement (Resolvable ResolvedStmt s.scopes s.decls) ts e := by
  unfold exprStatement at h
  obtain h | ⟨⟨x, s1, r1, hr1⟩, hx, h⟩ := bind_eq_error h
  · refine ((exprResumes stop ts).expression h).enclose (p := []) ?_ rfl
    exact fun _ w a g => ⟨w ++ [mark .semicolon], .exprStmt a,
      fun z _ => .exprStmt (by rw [List.append_assoc]; exact g _ rfl),
      fun hr => hr.elim fun _ hv => ⟨_, _, _, .exprStmt (n := 0) hv⟩⟩
  obtain h | ⟨_, -, h⟩ := bind_eq_error h
  · obtain ⟨a, g, res⟩ := ((exprSound stop ts).expression hx).phrase
    obtain ⟨p, hp, cut⟩ := g.cut
    exact (expect_stuck h).resumes hp
      ⟨[mark .semicolon], .exprStmt a, fun _ _ => .exprStmt (cut _), _, _, _, .exprStmt (n := 0) res⟩
  · cases h

theorem assignment_resumes {entry : Entry} {x : String} {p q : Pos}
    (hx : s.scopes.lookup x = some entry) (h : assignment stop depth entry s ts = .error e) :
    Resumes Statement (Resolvable ResolvedStmt s.scopes s.decls)
      (⟨.ident x, p⟩ :: ⟨.punct .assign, q⟩ :: ts) e := by
  unfold assignment at h
  obtain h | ⟨⟨v, s1, r1, hr1⟩, hv, h⟩ := bind_eq_error h
  · have more := (exprResumes stop ts).expression h
    dsimp only at more
    refine more.enclose (p := [_, _]) ?_ rfl
    exact fun _ w a g => ⟨w ++ [mark .semicolon], .assign x a,
      fun z _ => .assign (by rw [List.append_assoc]; exact g _ rfl),
      fun hr => hr.elim fun _ hv => ⟨_, _, _, .assign (n := 0) (m := 0) hx hv⟩⟩
  obtain h | ⟨_, -, h⟩ := bind_eq_error h
  · obtain ⟨a, g, res⟩ := ((exprSound stop ts).expression hv).phrase
    obtain ⟨p', hp', cut⟩ := g.cut
    dsimp only at res
    exact (expect_stuck h).resumes (c := _ :: _ :: p') (by rw [hp']; rfl)
      ⟨[mark .semicolon], .assign x a, fun _ _ => .assign (cut _), _, _, _,
        .assign (n := 0) (m := 0) hx res⟩
  · cases h

-- `return e;`, `break;` and `continue;` after their keyword.
theorem jump_resumes {k : Keyword} {p : Pos} (hk : k = .returnKw ∨ k = .breakKw ∨ k = .continueKw)
    (h : jump stop depth k s ts = .error e) :
    Resumes Statement (Resolvable ResolvedStmt s.scopes s.decls) (⟨.keyword k, p⟩ :: ts) e := by
  unfold jump at h
  split at h
  · obtain h | ⟨⟨x, s1, r1, hr1⟩, hx, h⟩ := bind_eq_error h
    · refine ((exprResumes stop ts).expression h).enclose (p := [_]) ?_ rfl
      exact fun _ w a g => ⟨w ++ [mark .semicolon], .returnValue a,
        fun z _ => .returnValue (by rw [List.append_assoc]; exact g _ rfl),
        fun hr => hr.elim fun _ hv => ⟨_, _, _, .returnValue (n := 0) hv⟩⟩
    obtain h | ⟨_, -, h⟩ := bind_eq_error h
    · obtain ⟨a, g, res⟩ := ((exprSound stop ts).expression hx).phrase
      obtain ⟨p', hp', cut⟩ := g.cut
      exact (expect_stuck h).resumes (c := _ :: p') (by rw [hp']; rfl)
        ⟨[mark .semicolon], .returnValue a, fun _ _ => .returnValue (cut _), _, _, _,
          .returnValue (n := 0) res⟩
    · cases h
  · obtain h | ⟨_, -, h⟩ := bind_eq_error h
    · exact (expect_stuck h).resumes (c := [_]) rfl
        ⟨[mark .semicolon], .breakLoop, fun _ _ => .breakLoop, _, _, _, .breakLoop (n := 0)⟩
    · cases h
  · obtain rfl : k = .continueKw := by grind
    obtain h | ⟨_, -, h⟩ := bind_eq_error h
    · exact (expect_stuck h).resumes (c := [_]) rfl
        ⟨[mark .semicolon], .continueLoop, fun _ _ => .continueLoop, _, _, _,
          .continueLoop (n := 0)⟩
    · cases h

end Simple

-- after it.
theorem Resumes.items_of_statement {ts : List Token} {e : Failure} {env : Scopes Entry} {d : Nat}
    (h : Resumes Statement (Resolvable ResolvedStmt env d) ts e) :
    Resumes Items (Resolvable ResolvedItems env d) ts e := by
  refine h.enclose (p := []) ?_ rfl
  intro _ w a g
  refine ⟨w, [a], fun z hz => .cons (g z hz) .nil, fun ha => ?_⟩
  obtain ⟨b, env', d', hb⟩ := ha
  exact ⟨[b], env', d', .cons hb .nil⟩

theorem Resumes.items_after {ts r : List Token} {e : Failure} {env env1 : Scopes Entry}
    {d d1 : Nat} {a : Raw.Stmt} {v : Stmt} (g : Statement ts a r)
    (res : ResolvedStmt env d a v env1 d1) (h : Resumes Items (Resolvable ResolvedItems env1 d1) r e) :
    Resumes Items (Resolvable ResolvedItems env d) ts e := by
  obtain ⟨p, hp, cut⟩ := g.cut
  refine h.enclose (p := p) ?_ hp
  intro _ w items g'
  -- what follows the statement starts with `else` only where the tail does
  refine ⟨w, a :: items, fun z hz => .cons (cut _ fun _ => (g' z hz).startsElse_eq hz) (g' z hz),
    fun hi => ?_⟩
  obtain ⟨items', env', d', hi⟩ := hi
  exact ⟨v :: items', env', d', .cons res hi⟩

-- A failed parse of each statement reader consumed a viable prefix of its phrase.
structure StmtResumes (stop : Pos) (ts : List Token) : Prop where
  statement {depth : Nat} {s : ParseState} {e : Failure} :
    statement stop depth s ts = .error e → Resumes Statement (Resolvable ResolvedStmt s.scopes s.decls) ts e
  block {depth : Nat} {s : ParseState} {e : Failure} :
    block stop depth s ts = .error e → Resumes Block (Resolvable ResolvedBlock s.scopes s.decls) ts e
  blockItems {depth : Nat} {s : ParseState} {e : Failure} :
    blockItems stop depth s ts = .error e →
      Resumes Items (Resolvable ResolvedItems s.scopes s.decls) ts e

section

variable {stop : Pos} {depth : Nat} {s : ParseState} {ts : List Token} {e : Failure}
variable (ih : ∀ ts' : List Token, ts'.length < ts.length → StmtResumes stop ts')
include ih

theorem block_resumes (h : block stop depth s ts = .error e) :
    Resumes Block (Resolvable ResolvedBlock s.scopes s.decls) ts e := by
  rw [block.eq_def] at h
  obtain h | ⟨⟨r1, hr1⟩, hopen, h⟩ := bind_eq_error h
  · exact (expect_stuck h).resumes (c := []) rfl
      ⟨[mark .lbrace, mark .rbrace], [], fun _ _ => .mk .nil, _, _, _, .empty (n := 0)⟩
  obtain ⟨q, hts⟩ := expect_ok hopen
  obtain h | ⟨⟨items, s1, r2, hr2⟩, hitems, h⟩ := bind_eq_error h
  · have more := (ih r1 hr1).blockItems h
    simp only [enter_scopes, enter_decls] at more
    refine more.enclose (p := [_]) ?_ hts
    exact fun _ w items g => ⟨w ++ [mark .rbrace], items,
      fun z _ => .mk (by rw [List.append_assoc]; exact g _ rfl), Resolvable.block⟩
  obtain ⟨raw, g, res⟩ := (stmtSound stop r1).blockItems hitems
  dsimp only at g res h
  simp only [enter_scopes, enter_decls] at res
  obtain h | ⟨⟨r3, hr3⟩, -, h⟩ := bind_eq_error h
  · -- `}` is missing after the statements
    obtain ⟨p, hp, cut⟩ := g.cut
    exact (expect_stuck h).resumes (c := _ :: p) (by rw [hts, hp]; rfl)
      ⟨[mark .rbrace], raw, fun _ _ => .mk (cut _ fun _ => rfl), Resolvable.block ⟨_, _, _, res⟩⟩
  obtain h | ⟨s2, -, h⟩ := bind_eq_error h
  · -- closing the block's scope cannot fail: its statements left the scope open
    have outer : s1.scopes.outer = s.scopes.top :: s.scopes.outer := by
      rw [resolvedItems_frame res]
      rfl
    obtain ⟨s2, hx, -⟩ := exit_of_outer r3 outer
    rw [hx] at h
    cases h
  · rcases hc : Stmt.chain items s2.nodes with ⟨inner, n⟩
    simp only [ParseState.chain, hc] at h
    cases inner <;> cases h

theorem funcDef_resumes (h : funcDef stop depth s ts = .error e) :
    Resumes Statement (Resolvable ResolvedStmt s.scopes s.decls) ts e := by
  rw [funcDef.eq_def] at h
  obtain h | ⟨⟨ret, r1, hr1⟩, hret, h⟩ := bind_eq_error h
  · exact (type_stuck h).resumes (c := []) rfl Statement.completable_empty
  have gret := type_ok hret
  obtain h | ⟨⟨name, r2, hr2⟩, hname, h⟩ := bind_eq_error h
  · -- no name after the type: `x;` completes a declaration
    obtain ⟨p, hp, hc⟩ := @Statement.completable_decl s.scopes s.decls _ _ _ gret
    exact (expectIdent_stuck h).resumes hp hc
  obtain ⟨q1, hr1eq⟩ := expectIdent_ok hname
  rw [hr1eq] at gret
  obtain ⟨p, hp, cut⟩ := gret.cut
  obtain h | ⟨⟨r3, hr3⟩, hopen, h⟩ := bind_eq_error h
  · -- no `(` after the name: `;` completes a declaration of the name
    exact (expect_stuck h).resumes (c := p ++ [⟨.ident name, q1⟩]) (by simp [hp])
      (Statement.completable_named cut)
  obtain ⟨q2, hr2eq⟩ := expect_ok hopen
  obtain h | ⟨⟨fs, s1, r4, hr4⟩, hfs, h⟩ := bind_eq_error h
  · -- the parameters failed: `) {}` closes them and gives the function an empty body
    refine (formalsOrNone_resumes h).enclose
      (p := p ++ [⟨.ident name, q1⟩, ⟨.punct .lparen, q2⟩]) ?_ (by simp [hp, hr2eq])
    exact fun _ w ps g => ⟨w ++ [mark .rparen, mark .lbrace, mark .rbrace], .funcDef ret name ps [],
      fun z _ => by simpa using .funcDef (cut _) (g _ rfl) (.mk .nil), Resolvable.funcDef_empty⟩
  have params := formalsOrNone_reads hfs
  obtain ⟨ps, gps, rels⟩ := params.phrase
  dsimp only at h gps rels
  -- the parameters are declared in a scope of their own, inside the one that binds the name
  have declared := declareParams_declared rels (s1.declare name (ret.func (fs.map (·.ty)))).2.enter
  generalize declareParams fs (s1.declare name (ret.func (fs.map (·.ty)))).2.enter = P at declared h
  simp only [enter_scopes, enter_decls, declare_scopes, declare_decls] at declared
  rw [params.scopes, params.decls, ← ReadFormal.map_ty rels] at declared
  obtain h | ⟨⟨r5, hr5⟩, hclose, h⟩ := bind_eq_error h
  · -- `)` is missing after the parameters: `) {}` completes
    obtain ⟨pp, hpp, cut'⟩ := gps.cut_open (expect_error_not_at h)
    exact (expect_stuck h).resumes (c := p ++ ⟨.ident name, q1⟩ :: ⟨.punct .lparen, q2⟩ :: pp)
      (by simp [hp, hr2eq, hpp])
      ⟨[mark .rparen, mark .lbrace, mark .rbrace], .funcDef ret name ps [],
        fun _ _ => by simpa using .funcDef (cut _) (cut' _) (.mk .nil),
        Resolvable.funcDef (ReadFormal.defaults rels) declared ⟨.emptyBlock 0, _, _, .empty⟩⟩
  obtain ⟨q3, hr4eq⟩ := expect_ok hclose
  rw [hr4eq] at gps
  obtain ⟨pp, hpp, cut'⟩ := gps.cut_rparen
  obtain h | ⟨⟨body, s3, r6, hr6⟩, hbody, h⟩ := bind_eq_error h
  · -- the body failed
    have more := (ih r5 (by omega)).block h
    refine more.enclose
      (p := p ++ ⟨.ident name, q1⟩ :: ⟨.punct .lparen, q2⟩ :: pp ++ [⟨.punct .rparen, q3⟩]) ?_
      (by simp [hp, hr2eq, hpp])
    exact fun _ w b g => ⟨w, .funcDef ret name ps b,
      fun z hz => by simpa using .funcDef (cut _) (cut' _) (g z hz),
      Resolvable.funcDef (ReadFormal.defaults rels) declared⟩
  -- closing the parameters' scope returns to the scope that binds the function's name, so
  -- neither the close nor the lookup after it fails
  obtain ⟨rawBody, -, resBody⟩ := (stmtSound stop r5).block hbody
  dsimp only at resBody h
  have outer : s3.scopes.outer =
      (s.scopes.install name (functionEntry s.scopes s.decls ret name ps)).top ::
        (s.scopes.install name (functionEntry s.scopes s.decls ret name ps)).outer := by
    rw [resolvedBlock_frame resBody, declaredParams_frame declared]
    rfl
  obtain ⟨s4, hx, closed, -⟩ := exit_of_outer r6 outer
  rw [hx] at h
  simp only [bind, Except.bind] at h
  rw [closed, Scopes.lookup_install_self] at h
  cases h

theorem statement_resumes (h : statement stop depth s ts = .error e) :
    Resumes Statement (Resolvable ResolvedStmt s.scopes s.decls) ts e := by
  rw [statement.eq_def] at h
  split at h
  · split at h
    · rename_i t rest
      obtain ⟨k, p⟩ := t
      dsimp only at h
      split at h
      case h_1 | h_2 | h_3 =>
        -- a type starts a function definition or a declaration
        split at h
        · exact funcDef_resumes ih h
        · exact declaration_resumes h
      case h_4 =>
        refine (block_resumes ih h).enclose (p := []) ?_ rfl
        exact fun _ w a g => ⟨w, .block a, fun z hz => .block (g z hz), Resolvable.blockStmt⟩
      case h_5 =>
        obtain h | ⟨⟨r1, hr1⟩, hopen, h⟩ := bind_eq_error h
        · exact Guarded.ifThen.resumes_open (expect_stuck h)
        obtain ⟨q, hrest⟩ := expect_ok hopen
        obtain h | ⟨⟨c, s1, r2, hr2⟩, hc, h⟩ := bind_eq_error h
        · exact Guarded.ifThen.resumes_condition (by rw [hrest]) ((exprResumes stop r1).expression h)
        have read := (exprSound stop r1).expression hc
        obtain ⟨a, gc, res⟩ := read.phrase
        dsimp only at h gc res
        obtain ⟨pc, hpc, cutc⟩ := gc.cut
        obtain h | ⟨⟨r3, hr3⟩, hclose, h⟩ := bind_eq_error h
        · exact Guarded.ifThen.resumes_close cutc res (by rw [hrest, hpc]) (expect_stuck h)
        obtain ⟨q', hr2eq⟩ := expect_ok hclose
        dsimp only at hr2 hr3
        obtain h | ⟨⟨th, s2, r4, hr4⟩, hth, h⟩ := bind_eq_error h
        · -- the branch failed
          have more := (ih r3 (by simp only [List.length_cons] at hrest ⊢; omega)).statement h
          rw [read.scopes, read.decls] at more
          exact Guarded.ifThen.resumes_body cutc res (by rw [hrest, hpc, hr2eq]) more
        obtain ⟨thRaw, gth, resth⟩ := (stmtSound stop r3).statement hth
        dsimp only at h gth resth
        rw [read.scopes, read.decls] at resth
        split at h
        · -- the `else` branch failed
          rename_i pe r5 hlen
          obtain h | ⟨_, -, h⟩ := bind_eq_error h
          · have more := (ih r5 (by simp only [List.length_cons] at hrest hlen ⊢; omega)).statement h
            obtain ⟨pth, hpth, cutth⟩ := gth.cut
            refine more.enclose (p := ⟨.keyword .ifKw, p⟩ :: ⟨.punct .lparen, q⟩ :: pc ++
                ⟨.punct .rparen, q'⟩ :: pth ++ [⟨.keyword .elseKw, pe⟩]) ?_
              (by simp [hrest, hpc, hr2eq, hpth])
            exact fun _ w b g => ⟨w, .ifElse a thRaw b,
              fun z hz => by simpa using .ifElse (cutc _) (cutth _ fun h => by cases h) (g z hz),
              Resolvable.ifElse res resth⟩
          · cases h
        · cases h
      case h_6 =>
        obtain h | ⟨⟨r1, hr1⟩, hopen, h⟩ := bind_eq_error h
        · exact Guarded.whileLoop.resumes_open (expect_stuck h)
        obtain ⟨q, hrest⟩ := expect_ok hopen
        obtain h | ⟨⟨c, s1, r2, hr2⟩, hc, h⟩ := bind_eq_error h
        · exact Guarded.whileLoop.resumes_condition (by rw [hrest])
            ((exprResumes stop r1).expression h)
        have read := (exprSound stop r1).expression hc
        obtain ⟨a, gc, res⟩ := read.phrase
        dsimp only at h gc res
        obtain ⟨pc, hpc, cutc⟩ := gc.cut
        obtain h | ⟨⟨r3, hr3⟩, hclose, h⟩ := bind_eq_error h
        · exact Guarded.whileLoop.resumes_close cutc res (by rw [hrest, hpc]) (expect_stuck h)
        obtain ⟨q', hr2eq⟩ := expect_ok hclose
        dsimp only at hr2 hr3
        obtain h | ⟨_, -, h⟩ := bind_eq_error h
        · -- the body failed
          have more := (ih r3 (by simp only [List.length_cons] at hrest ⊢; omega)).statement h
          rw [read.scopes, read.decls] at more
          exact Guarded.whileLoop.resumes_body cutc res (by rw [hrest, hpc, hr2eq]) more
        · cases h
      case h_7 | h_8 | h_9 => exact jump_resumes (by simp) (map_eq_error h)
      case h_10 => cases h
      case h_11 =>
        split at h
        · rename_i a r'
          split at h
          · rename_i ha
            obtain ⟨ak, aq⟩ := a
            dsimp only at ha
            subst ha
            obtain h | ⟨entry, hentry, h⟩ := bind_eq_error h
            · -- an unbound target: `x;` reads it as an expression statement
              exact resolve_resumes h Statement.completable_empty
                ⟨[mark .semicolon], .exprStmt (.name _),
                  fun _ _ => .exprStmt (.of_unary (.primary .name) .or), trivial⟩
            · exact assignment_resumes (resolve_ok hentry) (map_eq_error h)
          · exact exprStatement_resumes h
        · exact exprStatement_resumes h
      case h_12 => exact exprStatement_resumes h
    · exact exprStatement_resumes h
  · cases h
    exact (failAt_stuck _).resumes (c := []) rfl Statement.completable_empty

theorem blockItems_resumes (h : blockItems stop depth s ts = .error e) :
    Resumes Items (Resolvable ResolvedItems s.scopes s.decls) ts e := by
  rw [blockItems.eq_def] at h
  split at h
  · cases h
  · split at h
    · cases h
    · obtain h | ⟨⟨x, s1, r1, hr1⟩, hx, h⟩ := bind_eq_error h
      · exact (statement_resumes ih h).items_of_statement
      obtain ⟨a, g, res⟩ := (stmtSound stop _).statement hx
      obtain h | ⟨_, -, h⟩ := bind_eq_error h
      · exact Resumes.items_after g res ((ih r1 hr1).blockItems h)
      · cases h

theorem stmtResumes_of_shorter : StmtResumes stop ts :=
  { statement := statement_resumes ih
    block := block_resumes ih
    blockItems := blockItems_resumes ih }

end

-- Every failed parse of a statement reader consumed a viable prefix of its phrase.
theorem stmtResumes (stop : Pos) (ts : List Token) : StmtResumes stop ts := by
  induction ts using tokens_induction with
  | shorter ts ih => exact stmtResumes_of_shorter ih

-- A failed parse of a program consumed a viable prefix of its statements.
theorem programItems_resumes {stop : Pos} {s : ParseState} {ts : List Token} {e : Failure}
    (h : programItems stop s ts = .error e) :
    Resumes Items (Resolvable ResolvedItems s.scopes s.decls) ts e := by
  rw [programItems.eq_def] at h
  split at h
  · cases h
  · obtain h | ⟨⟨x, s1, r1, hr1⟩, hx, h⟩ := bind_eq_error h
    · exact ((stmtResumes stop _).statement h).items_of_statement
    obtain ⟨a, g, res⟩ := (stmtSound stop _).statement hx
    obtain h | ⟨_, -, h⟩ := bind_eq_error h
    · exact Resumes.items_after g res (programItems_resumes h)
    · cases h
termination_by ts.length

end ScopedC

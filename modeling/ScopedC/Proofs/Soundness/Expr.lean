import ScopedC.Proofs.Reading
namespace ScopedC

open Parse

-- A successful parse of `ts` from `s` to `s'` of a phrase that declares nothing, giving `v` and
-- leaving `rest`: the scopes and the declaration number are untouched, and `v` resolves a
-- phrase of `G` read off `ts`.
structure ReadsPhrase {α β : Type} (G : List Token → α → List Token → Prop) (R : α → β → Prop)
    (ts : List Token) (v : β) (s s' : ParseState) (rest : List Token) : Prop where
  scopes : s'.scopes = s.scopes
  decls : s'.decls = s.decls
  phrase : ∃ a, G ts a rest ∧ R a v

-- The soundness of every expression parser on the token list `ts`.
structure ExprSound (stop : Pos) (ts : List Token) : Prop where
  expression {depth : Nat} {s : ParseState} {r : Step ts Expr} :
    expression stop depth s ts = .ok r →
      ReadsPhrase (Gram.Chain .or) (ResolvedExpr s.scopes) ts r.value s r.state r.rest
  chain {depth : Nat} {lvl : Level} {s : ParseState} {r : Step ts Expr} :
    chain stop depth lvl s ts = .ok r →
      ReadsPhrase (Gram.Chain lvl) (ResolvedExpr s.scopes) ts r.value s r.state r.rest
  operand {depth : Nat} {lvl : Level} {s : ParseState} {r : Step ts Expr} :
    operand stop depth lvl s ts = .ok r →
      ReadsPhrase (Gram.Operand lvl) (ResolvedExpr s.scopes) ts r.value s r.state r.rest
  links {depth : Nat} {lvl : Level} {left : Expr} {s : ParseState} {r : Steps ts Expr}
    {acc : Raw.Expr} : links stop depth lvl left s ts = .ok r → ResolvedExpr s.scopes acc left →
      ReadsPhrase (Gram.Links lvl acc) (ResolvedExpr s.scopes) ts r.value s r.state r.rest
  unary {depth : Nat} {s : ParseState} {r : Step ts Expr} :
    unary stop depth s ts = .ok r →
      ReadsPhrase Gram.Unary (ResolvedExpr s.scopes) ts r.value s r.state r.rest
  primary {depth : Nat} {s : ParseState} {r : Step ts Expr} :
    primary stop depth s ts = .ok r →
      ReadsPhrase Gram.Primary (ResolvedExpr s.scopes) ts r.value s r.state r.rest
  call {depth : Nat} {callee : Entry} {s : ParseState} {r : Step ts Expr} :
    call stop depth callee s ts = .ok r →
      ReadsPhrase Gram.CallArgs
        (fun args v => ∃ n args', v = .call n callee args' ∧ ResolvedArgs s.scopes args args')
        ts r.value s r.state r.rest
  arguments {depth : Nat} {s : ParseState} {r : Step ts (List Expr)} :
    arguments stop depth s ts = .ok r →
      ReadsPhrase Gram.Args (ResolvedArgs s.scopes) ts r.value s r.state r.rest

section

variable {stop : Pos} {ts : List Token}

theorem expression_reads_of_chain {depth : Nat} {s : ParseState} {r : Step ts Expr}
    (hchain : ∀ {depth : Nat} {r : Step ts Expr}, chain stop depth .or s ts = .ok r →
      ReadsPhrase (Gram.Chain .or) (ResolvedExpr s.scopes) ts r.value s r.state r.rest)
    (h : expression stop depth s ts = .ok r) :
    ReadsPhrase (Gram.Chain .or) (ResolvedExpr s.scopes) ts r.value s r.state r.rest := by
  rw [expression.eq_def] at h
  obtain ⟨depth', -, h⟩ := bind_eq_ok h
  exact hchain h

variable (ih : ∀ ts' : List Token, ts'.length < ts.length → ExprSound stop ts')
include ih

theorem links_reads {depth : Nat} {lvl : Level} {left : Expr} {s : ParseState}
    {r : Steps ts Expr} {acc : Raw.Expr} (h : links stop depth lvl left s ts = .ok r)
    (hacc : ResolvedExpr s.scopes acc left) :
    ReadsPhrase (Gram.Links lvl acc) (ResolvedExpr s.scopes) ts r.value s r.state r.rest := by
  rw [links.eq_def] at h
  split at h
  · rename_i t rest
    split at h
    · rename_i op hop
      obtain ⟨depth', -, h⟩ := bind_eq_ok h
      obtain ⟨⟨right, s1, r1, hr1⟩, hright, h⟩ := bind_eq_ok h
      obtain ⟨⟨e, s2, r2, hr2⟩, hlinks, h⟩ := bind_eq_ok h
      cases h
      have right_reads := (ih rest (by simp)).operand hright
      dsimp only at right_reads
      obtain ⟨e2, g2, res2⟩ := right_reads.phrase
      -- the links go on from the operand so far joined with the new one, resolved in the
      -- unchanged scopes
      have more := (ih r1 (by simp only [List.length_cons]; omega)).links hlinks
        (by rw [right_reads.scopes]; exact .binary hacc res2)
      dsimp only at more
      obtain ⟨e', g', res'⟩ := more.phrase
      refine ⟨?_, ?_, e', .cons hop g2 g', ?_⟩
      · rw [more.scopes, right_reads.scopes]
      · rw [more.decls, right_reads.decls]
      · rwa [right_reads.scopes] at res'
    · cases h
      exact ⟨rfl, rfl, acc, .nil, hacc⟩
  · cases h
    exact ⟨rfl, rfl, acc, .nil, hacc⟩

theorem arguments_reads_of_expression {depth : Nat} {s : ParseState} {r : Step ts (List Expr)}
    (hexpr : ∀ {r : Step ts Expr}, expression stop depth s ts = .ok r →
      ReadsPhrase (Gram.Chain .or) (ResolvedExpr s.scopes) ts r.value s r.state r.rest)
    (h : arguments stop depth s ts = .ok r) :
    ReadsPhrase Gram.Args (ResolvedArgs s.scopes) ts r.value s r.state r.rest := by
  rw [arguments.eq_def] at h
  obtain ⟨⟨e, s1, r1, hr1⟩, hfirst, h⟩ := bind_eq_ok h
  have first := hexpr hfirst
  dsimp only at first
  obtain ⟨e', g, res⟩ := first.phrase
  dsimp only at h
  split at h
  · -- a comma: more arguments follow
    rename_i pos r2 hlen
    obtain ⟨⟨more, s2, r3, hr3⟩, hmore, h⟩ := bind_eq_ok h
    cases h
    have others := (ih r2 (by simp only [List.length_cons] at hlen; omega)).arguments hmore
    dsimp only at others
    obtain ⟨es, gs, ress⟩ := others.phrase
    refine ⟨?_, ?_, e' :: es, .cons g gs, .cons res ?_⟩
    · rw [others.scopes, first.scopes]
    · rw [others.decls, first.decls]
    · rwa [first.scopes] at ress
  · cases h
    exact ⟨first.scopes, first.decls, [e'], .one g, .cons res .nil⟩

theorem call_reads_of_arguments {depth : Nat} {callee : Entry} {s : ParseState} {r : Step ts Expr}
    (hargs : ∀ {r : Step ts (List Expr)}, arguments stop depth s ts = .ok r →
      ReadsPhrase Gram.Args (ResolvedArgs s.scopes) ts r.value s r.state r.rest)
    (h : call stop depth callee s ts = .ok r) :
    ReadsPhrase Gram.CallArgs
      (fun args v => ∃ n args', v = .call n callee args' ∧ ResolvedArgs s.scopes args args')
      ts r.value s r.state r.rest := by
  rw [call.eq_def] at h
  split at h
  · -- `)` at once: no arguments
    cases h
    exact ⟨rfl, rfl, [], .none, _, [], rfl, .nil⟩
  · obtain ⟨⟨args, s1, r1, hr1⟩, hargs', h⟩ := bind_eq_ok h
    obtain ⟨⟨r2, hr2⟩, hclose, h⟩ := bind_eq_ok h
    cases h
    have read := hargs hargs'
    dsimp only at read
    obtain ⟨q, hq⟩ := expect_ok hclose
    obtain ⟨as, g, res⟩ := read.phrase
    rw [hq] at g
    exact ⟨read.scopes, read.decls, as, .some g, _, args, rfl, res⟩

theorem primary_reads {depth : Nat} {s : ParseState} {r : Step ts Expr}
    (h : primary stop depth s ts = .ok r) :
    ReadsPhrase Gram.Primary (ResolvedExpr s.scopes) ts r.value s r.state r.rest := by
  rw [primary.eq_def] at h
  split at h
  · -- a literal
    cases h
    exact ⟨rfl, rfl, _, .lit, .lit⟩
  · -- a call: the callee is resolved, then the arguments are read
    rename_i name pos q rest
    obtain ⟨callee, hcallee, h⟩ := bind_eq_ok h
    obtain ⟨⟨e, s1, r1, hr1⟩, hcall, h⟩ := bind_eq_ok h
    cases h
    have read := (ih rest (by simp only [List.length_cons]; omega)).call hcall
    dsimp only at read
    obtain ⟨args, g, n, args', rfl, res⟩ := read.phrase
    exact ⟨read.scopes, read.decls, _, .call g, .call (resolve_ok hcallee) res⟩
  · -- a name
    obtain ⟨e, he, h⟩ := bind_eq_ok h
    cases h
    exact ⟨rfl, rfl, _, .name, .name (resolve_ok he)⟩
  · -- a parenthesized expression
    rename_i pos rest
    obtain ⟨⟨e, s1, r1, hr1⟩, hexpr, h⟩ := bind_eq_ok h
    obtain ⟨⟨r2, hr2⟩, hclose, h⟩ := bind_eq_ok h
    cases h
    have inner := (ih rest (by simp)).expression hexpr
    dsimp only at inner
    obtain ⟨q, hq⟩ := expect_ok hclose
    obtain ⟨e', g, res⟩ := inner.phrase
    rw [hq] at g
    exact ⟨inner.scopes, inner.decls, e', .paren g, res⟩
  · cases h

theorem unary_reads {depth : Nat} {s : ParseState} {r : Step ts Expr}
    (h : unary stop depth s ts = .ok r) :
    ReadsPhrase Gram.Unary (ResolvedExpr s.scopes) ts r.value s r.state r.rest := by
  rw [unary.eq_def] at h
  split at h
  · rename_i t rest
    split at h
    · -- a prefix operator, then a prefix expression one level deeper
      rename_i op hop
      obtain ⟨depth', -, h⟩ := bind_eq_ok h
      obtain ⟨⟨a, s1, r1, hr1⟩, harg, h⟩ := bind_eq_ok h
      cases h
      have arg := (ih rest (by simp)).unary harg
      dsimp only at arg
      obtain ⟨a', g, res⟩ := arg.phrase
      exact ⟨by simp [arg.scopes], by simp [arg.decls], _, .prefixed hop g, .unary res⟩
    · have read := primary_reads ih h
      obtain ⟨e, g, res⟩ := read.phrase
      exact ⟨read.scopes, read.decls, e, .primary g, res⟩
  · have read := primary_reads ih h
    obtain ⟨e, g, res⟩ := read.phrase
    exact ⟨read.scopes, read.decls, e, .primary g, res⟩

theorem operand_reads_of_chain {depth : Nat} {lvl : Level} {s : ParseState} {r : Step ts Expr}
    (hchain : ∀ {l : Level} {depth : Nat} {r : Step ts Expr}, lvl.tighter? = some l →
      chain stop depth l s ts = .ok r →
        ReadsPhrase (Gram.Chain l) (ResolvedExpr s.scopes) ts r.value s r.state r.rest)
    (h : operand stop depth lvl s ts = .ok r) :
    ReadsPhrase (Gram.Operand lvl) (ResolvedExpr s.scopes) ts r.value s r.state r.rest := by
  rw [operand.eq_def] at h
  split at h
  · rename_i l hl
    have read := hchain hl h
    obtain ⟨e, g, res⟩ := read.phrase
    exact ⟨read.scopes, read.decls, e, .tighter hl g, res⟩
  · rename_i hl
    have read := unary_reads ih h
    obtain ⟨e, g, res⟩ := read.phrase
    exact ⟨read.scopes, read.decls, e, .unary hl g, res⟩

theorem chain_reads {depth : Nat} {lvl : Level} {s : ParseState} {r : Step ts Expr}
    (h : chain stop depth lvl s ts = .ok r) :
    ReadsPhrase (Gram.Chain lvl) (ResolvedExpr s.scopes) ts r.value s r.state r.rest := by
  -- by induction from the tightest level out: an operand is a chain one level tighter
  induction lvl using Level.tighter_induction generalizing depth r with
  | step lvl ihl =>
    rw [chain.eq_def] at h
    obtain ⟨⟨left, s1, r1, hr1⟩, hleft, h⟩ := bind_eq_ok h
    obtain ⟨⟨e, s2, r2, hr2⟩, hlinks, h⟩ := bind_eq_ok h
    cases h
    have first := operand_reads_of_chain ih (fun hl hc => ihl _ hl hc) hleft
    dsimp only at first
    obtain ⟨e1, g1, res1⟩ := first.phrase
    have more := (ih r1 hr1).links hlinks (by rw [first.scopes]; exact res1)
    dsimp only at more
    obtain ⟨e', g', res'⟩ := more.phrase
    refine ⟨?_, ?_, e', .mk g1 g', ?_⟩
    · rw [more.scopes, first.scopes]
    · rw [more.decls, first.decls]
    · rwa [first.scopes] at res'

theorem exprSound_of_shorter : ExprSound stop ts :=
  have hexpr : ∀ {depth : Nat} {s : ParseState} {r : Step ts Expr},
      expression stop depth s ts = .ok r →
        ReadsPhrase (Gram.Chain .or) (ResolvedExpr s.scopes) ts r.value s r.state r.rest :=
    fun h => expression_reads_of_chain (fun hc => chain_reads ih hc) h
  have hargs : ∀ {depth : Nat} {s : ParseState} {r : Step ts (List Expr)},
      arguments stop depth s ts = .ok r →
        ReadsPhrase Gram.Args (ResolvedArgs s.scopes) ts r.value s r.state r.rest :=
    fun h => arguments_reads_of_expression ih hexpr h
  { expression := hexpr
    chain := chain_reads ih
    operand := operand_reads_of_chain ih (fun _ hc => chain_reads ih hc)
    links := links_reads ih
    unary := unary_reads ih
    primary := primary_reads ih
    call := call_reads_of_arguments ih hargs
    arguments := hargs }

end

-- Every expression parser is sound on every token list.
theorem exprSound (stop : Pos) (ts : List Token) : ExprSound stop ts := by
  induction ts using tokens_induction with
  | shorter ts ih => exact exprSound_of_shorter ih

end ScopedC

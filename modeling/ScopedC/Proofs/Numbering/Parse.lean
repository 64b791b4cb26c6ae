import ScopedC.Proofs.Numbering.Shift
import ScopedC.Proofs.Resolution
namespace ScopedC

open Parse

def Expr.Numbered (s s' : ParseState) (e : Expr) : Prop := Span True s s' e.ids e.ops ∧ e.Ordered

structure ExprNumbered (stop : Pos) (ts : List Token) : Prop where
  expression {depth : Nat} {s : ParseState} {r : Step ts Expr} :
    expression stop depth s ts = .ok r → r.value.Numbered s r.state
  chain {depth : Nat} {lvl : Level} {s : ParseState} {r : Step ts Expr} :
    chain stop depth lvl s ts = .ok r → r.value.Numbered s r.state
  operand {depth : Nat} {lvl : Level} {s : ParseState} {r : Step ts Expr} :
    operand stop depth lvl s ts = .ok r → r.value.Numbered s r.state
  links {depth : Nat} {lvl : Level} {left : Expr} {s₀ s : ParseState} {r : Steps ts Expr} :
    links stop depth lvl left s ts = .ok r → left.Numbered s₀ s → r.value.Numbered s₀ r.state
  unary {depth : Nat} {s : ParseState} {r : Step ts Expr} :
    unary stop depth s ts = .ok r → r.value.Numbered s r.state
  primary {depth : Nat} {s : ParseState} {r : Step ts Expr} :
    primary stop depth s ts = .ok r → r.value.Numbered s r.state
  call {depth : Nat} {callee : Entry} {s : ParseState} {r : Step ts Expr} :
    call stop depth callee s ts = .ok r → r.value.Numbered s r.state
  arguments {depth : Nat} {s : ParseState} {r : Step ts (List Expr)} :
    arguments stop depth s ts = .ok r →
      Span True s r.state (r.value.flatMap Expr.ids) (r.value.flatMap Expr.ops) ∧
        ∀ e ∈ r.value, e.Ordered

section

variable {stop : Pos} {depth : Nat} {s : ParseState} {ts : List Token}
variable (ih : ∀ ts' : List Token, ts'.length < ts.length → ExprNumbered stop ts')
include ih

theorem links_numbered {lvl : Level} {left : Expr} {s₀ : ParseState} {r : Steps ts Expr}
    (h : links stop depth lvl left s ts = .ok r) (hleft : left.Numbered s₀ s) :
    r.value.Numbered s₀ r.state := by
  rw [links.eq_def] at h
  split at h
  · rename_i t rest
    split at h
    · obtain ⟨depth', -, h⟩ := bind_eq_ok h
      obtain ⟨⟨right, s1, r1, hr1⟩, hright, h⟩ := bind_eq_ok h
      obtain ⟨⟨e, s2, r2, hr2⟩, hlinks, h⟩ := bind_eq_ok h
      cases h
      obtain ⟨hspan, hord⟩ := (ih rest (by simp)).operand hright
      -- the operand so far and the new one, joined under the operator's node
      have joined := (hleft.1.append hspan).append (Span.operator True s1)
      refine (ih r1 (by simp only [List.length_cons]; omega)).links hlinks
        ⟨joined, hleft.2, hord, ?_, ?_⟩
      · exact (hleft.1.append hspan).below_nodes
      · simpa using (hleft.1.append hspan).below_labels
    · cases h
      exact hleft
  · cases h
    exact hleft

theorem call_numbered_of_arguments {callee : Entry} {r : Step ts Expr}
    (hargs : ∀ {r : Step ts (List Expr)}, arguments stop depth s ts = .ok r →
      Span True s r.state (r.value.flatMap Expr.ids) (r.value.flatMap Expr.ops) ∧
        ∀ e ∈ r.value, e.Ordered)
    (h : call stop depth callee s ts = .ok r) : r.value.Numbered s r.state := by
  rw [call.eq_def] at h
  split at h
  · cases h
    exact ⟨Span.fresh True s, by simp [Expr.Ordered, Below]⟩
  · obtain ⟨⟨args, s1, r1, hr1⟩, hargs', h⟩ := bind_eq_ok h
    obtain ⟨⟨r2, hr2⟩, -, h⟩ := bind_eq_ok h
    cases h
    obtain ⟨hspan, hord⟩ := hargs hargs'
    have call := hspan.append (Span.fresh True s1)
    rw [List.append_nil] at call
    refine ⟨?_, ?_⟩
    · simp only [Expr.ids, Expr.ops, Expr.listIds_eq, Expr.listOps_eq]
      exact call
    · simp only [Expr.Ordered, Expr.listOrdered_iff, Expr.listIds_eq]
      exact ⟨hord, hspan.below_nodes⟩

theorem primary_numbered {r : Step ts Expr} (h : primary stop depth s ts = .ok r) :
    r.value.Numbered s r.state := by
  rw [primary.eq_def] at h
  split at h
  · cases h
    exact ⟨Span.fresh True s, trivial⟩
  · rename_i name pos q rest
    obtain ⟨callee, -, h⟩ := bind_eq_ok h
    obtain ⟨⟨e, s1, r1, hr1⟩, hcall, h⟩ := bind_eq_ok h
    cases h
    exact (ih rest (by simp only [List.length_cons]; omega)).call hcall
  · obtain ⟨entry, -, h⟩ := bind_eq_ok h
    cases h
    exact ⟨Span.fresh True s, trivial⟩
  · rename_i pos rest
    obtain ⟨⟨e, s1, r1, hr1⟩, hexpr, h⟩ := bind_eq_ok h
    obtain ⟨⟨r2, hr2⟩, -, h⟩ := bind_eq_ok h
    cases h
    exact (ih rest (by simp)).expression hexpr
  · cases h

theorem unary_numbered {r : Step ts Expr} (h : unary stop depth s ts = .ok r) :
    r.value.Numbered s r.state := by
  rw [unary.eq_def] at h
  split at h
  · rename_i t rest
    split at h
    · obtain ⟨depth', -, h⟩ := bind_eq_ok h
      obtain ⟨⟨a, s1, r1, hr1⟩, harg, h⟩ := bind_eq_ok h
      cases h
      obtain ⟨hspan, hord⟩ := (ih rest (by simp)).unary harg
      exact ⟨(hspan.append (Span.operator True s1)), hord,
        hspan.below_nodes, hspan.below_labels⟩
    · exact primary_numbered ih h
  · exact primary_numbered ih h

theorem exprChain_numbered {lvl : Level} {r : Step ts Expr} (h : chain stop depth lvl s ts = .ok r) :
    r.value.Numbered s r.state := by
  -- by induction from the tightest level out: an operand is a chain one level tighter
  induction lvl using Level.tighter_induction generalizing depth r with
  | step lvl ihl =>
    rw [chain.eq_def] at h
    obtain ⟨⟨left, s1, r1, hr1⟩, hleft, h⟩ := bind_eq_ok h
    obtain ⟨⟨e, s2, r2, hr2⟩, hlinks, h⟩ := bind_eq_ok h
    cases h
    have first : left.Numbered s s1 := by
      rw [operand.eq_def] at hleft
      split at hleft
      · rename_i l hl
        exact ihl _ hl hleft
      · exact unary_numbered ih hleft
    exact (ih r1 hr1).links hlinks first

theorem exprNumbered_of_shorter : ExprNumbered stop ts :=
  have hexpr : ∀ {depth : Nat} {s : ParseState} {r : Step ts Expr},
      expression stop depth s ts = .ok r → r.value.Numbered s r.state := fun h => by
    rw [expression.eq_def] at h
    obtain ⟨depth', -, h⟩ := bind_eq_ok h
    exact exprChain_numbered ih h
  have hargs : ∀ {depth : Nat} {s : ParseState} {r : Step ts (List Expr)},
      arguments stop depth s ts = .ok r →
        Span True s r.state (r.value.flatMap Expr.ids) (r.value.flatMap Expr.ops) ∧
          ∀ e ∈ r.value, e.Ordered := fun h => by
    rw [arguments.eq_def] at h
    obtain ⟨⟨e, s1, r1, hr1⟩, hfirst, h⟩ := bind_eq_ok h
    obtain ⟨hspan, hord⟩ := hexpr hfirst
    dsimp only at h
    split at h
    · rename_i pos r2 hlen
      obtain ⟨⟨more, s2, r3, hr3⟩, hmore, h⟩ := bind_eq_ok h
      cases h
      obtain ⟨hspan', hord'⟩ := (ih r2 (by simp only [List.length_cons] at hlen; omega)).arguments hmore
      refine ⟨by simpa using (hspan.append hspan'), ?_⟩
      simpa using ⟨hord, hord'⟩
    · cases h
      exact ⟨by simpa using hspan, by simpa using hord⟩
  { expression := hexpr
    chain := exprChain_numbered ih
    operand := fun h => by
      rw [operand.eq_def] at h
      split at h
      · exact exprChain_numbered ih h
      · exact unary_numbered ih h
    links := links_numbered ih
    unary := unary_numbered ih
    primary := primary_numbered ih
    call := call_numbered_of_arguments ih hargs
    arguments := hargs }

end

theorem exprNumbered (stop : Pos) (ts : List Token) : ExprNumbered stop ts := by
  induction ts using tokens_induction with
  | shorter ts ih => exact exprNumbered_of_shorter ih

def DeclaresOnce (ts : List Token) : Prop :=
  ∀ ts' ty ds rest, ts' <:+ ts → Gram.Statement ts' (.decl ty ds) rest → (ds.map Prod.fst).Nodup

-- A declaration read where no comma stands has one declarator.
theorem Gram.Declarators.length_of_no_comma {ts rest : List Token}
    {ds : List (String × Option Raw.Expr)} (g : Gram.Declarators ts ds rest)
    (h : ∀ t ∈ ts, t.kind ≠ .punct .comma) : ds.length = 1 := by
  cases g with
  | one _ => rfl
  | cons gi _ =>
    exfalso
    exact h _ ((gi.suffix.trans (List.suffix_cons _ _)).subset List.mem_cons_self) rfl

theorem declaresOnce_of_no_comma {ts : List Token} (h : ∀ t ∈ ts, t.kind ≠ .punct .comma) :
    DeclaresOnce ts := by
  intro ts' ty ds rest hs g
  cases g with
  | decl gty gds =>
    have hone := gds.length_of_no_comma fun t ht => h t (hs.subset (gty.suffix.subset ht))
    obtain ⟨d, rfl⟩ := List.length_eq_one_iff.1 hone
    simp

theorem DeclaresOnce.suffix {ts ts' : List Token} (h : DeclaresOnce ts) (hs : ts' <:+ ts) :
    DeclaresOnce ts' :=
  fun ts'' ty ds rest hs' g => h ts'' ty ds rest (hs'.trans hs) g

section

variable {stop : Pos} {depth : Nat} {s : ParseState} {ts : List Token}

theorem initializer_numbered {r : Steps ts (Option Expr)} (h : initializer stop depth s ts = .ok r) :
    Span True s r.state (Expr.optIds r.value) (Expr.optOps r.value) ∧ Expr.OptOrdered r.value := by
  unfold initializer at h
  split at h
  · obtain ⟨⟨e, s1, r1, hr1⟩, he, h⟩ := bind_eq_ok h
    cases h
    exact (exprNumbered stop _).expression he
  · cases h
    exact ⟨Span.nil True s, trivial⟩

-- The declarators read, in source order, resolved, with the numbers their initializers took.
theorem declarators_numbered {s : ParseState} {ts : List Token}
    {acc : List (String × Option Expr)} {r : Step ts (List (String × Option Expr))}
    (h : declarators stop depth s ts acc = .ok r) :
    ∃ (ds : List (String × Option Raw.Expr)) (read : List (String × Option Expr)),
      Gram.Declarators ts ds r.rest ∧ ds.map Prod.fst = read.map Prod.fst ∧
      List.Forall₂ (ResolvedDeclarator s.scopes) ds read ∧
      r.value = read.foldl (fun acc x => insertByName x.1 x.2 acc) acc ∧
      Span True s r.state (read.flatMap (Expr.optIds ·.2)) (read.flatMap (Expr.optOps ·.2)) ∧
      ∀ x ∈ read, Expr.OptOrdered x.2 := by
  rw [declarators.eq_def] at h
  obtain ⟨⟨name, r1, hr1⟩, hname, h⟩ := bind_eq_ok h
  obtain ⟨⟨init, s1, r2, hr2⟩, hinit, h⟩ := bind_eq_ok h
  obtain ⟨q, hts⟩ := expectIdent_ok hname
  have first := initializer_reads hinit
  obtain ⟨i, g, res⟩ := first.phrase
  obtain ⟨hspan, hord⟩ := initializer_numbered hinit
  dsimp only at h g res hspan hord first
  split at h
  · -- a comma: more declarators follow
    rename_i pos r3 hlen
    have : r3.length < ts.length := by simp only [List.length_cons] at hlen; omega
    obtain ⟨⟨acc', s2, r4, hr4⟩, hmore, h⟩ := bind_eq_ok h
    cases h
    dsimp only
    obtain ⟨ds, read, gs, hnames, hrel, hv, hspan', hord'⟩ := declarators_numbered hmore
    rw [first.scopes] at hrel
    refine ⟨(name, i) :: ds, (name, init) :: read, ?_, by simp [hnames], .cons ⟨rfl, res⟩ hrel, hv,
      ?_, ?_⟩
    · rw [hts]
      exact .cons g gs
    · simpa using hspan.append hspan'
    · exact List.forall_mem_cons.2 ⟨hord, hord'⟩
  · cases h
    dsimp only
    refine ⟨[(name, i)], [(name, init)], ?_, rfl, .cons ⟨rfl, res⟩ .nil, rfl, by simpa using hspan,
      by simpa using hord⟩
    rw [hts]
    exact .one g
termination_by ts.length
decreasing_by omega

-- A declaration numbers its initializers, then its names in their order, then itself. Of the
-- declarators of one name only the last is kept, so when a name repeats, the numbers the
-- others' initializers took are kept by no node.
theorem declaration_numbered {r : Step ts Stmt} (h : declaration stop depth s ts = .ok r) :
    r.value.Numbered (DeclaresOnce ts) s r.state := by
  unfold declaration at h
  obtain ⟨⟨ty, r1, hr1⟩, hty, h⟩ := bind_eq_ok h
  obtain ⟨⟨items, s1, r2, hr2⟩, hitems, h⟩ := bind_eq_ok h
  obtain ⟨⟨r3, hr3⟩, hsemi, h⟩ := bind_eq_ok h
  cases h
  obtain ⟨ds, read, g, hnames, -, rfl, hspan, hord⟩ := declarators_numbered hitems
  dsimp only at g hspan
  obtain ⟨q, hq⟩ := expect_ok hsemi
  rw [hq] at g
  generalize hkept : read.foldl (fun acc x => insertByName x.1 x.2 acc) [] = items
  have hsub := foldl_insertByName_subperm read []
  rw [hkept, List.nil_append] at hsub
  have kept : Span (DeclaresOnce ts) s s1 (items.flatMap (Expr.optIds ·.2))
      (items.flatMap (Expr.optOps ·.2)) := by
    by_cases hd : DeclaresOnce ts
    · have hnodup : (([] : List (String × Option Expr)).map Prod.fst ++ read.map Prod.fst).Nodup := by
        rw [List.map_nil, List.nil_append, ← hnames]
        exact hd ts ty ds r3 (List.suffix_refl ts) (.decl (type_ok hty) g)
      have hperm := foldl_insertByName_perm hnodup
      rw [hkept, List.nil_append] at hperm
      exact (hspan.perm (hperm.flatMap_right _).symm (hperm.flatMap_right _).symm).mono
        fun _ => trivial
    · exact (hspan.subperm (Subperm.flatMap_right hsub _) (Subperm.flatMap_right hsub _)).mono hd
  obtain ⟨hinits, hnodes, hcount, hlabels⟩ := declareAll_numbers ty items s1
  have names : Span (DeclaresOnce ts) s1 (declareAll ty items s1).2
      (List.range' s1.nodes items.length) [] := Span.range _ hcount hlabels
  have declared := kept.append names
  have hids : (Stmt.declIds (declareAll ty items s1).1).Perm
      (items.flatMap (Expr.optIds ·.2) ++ List.range' s1.nodes items.length) := by
    have := declIds_perm (declareAll ty items s1).1
    rwa [hinits, hnodes, List.flatMap_map] at this
  have hops : (declareAll ty items s1).1.flatMap (Expr.optOps ·.2) =
      items.flatMap (Expr.optOps ·.2) := by
    rw [← List.flatMap_map, hinits, List.flatMap_map]
  refine ⟨?_, ?_, ?_⟩
  · have whole := declared.append (Span.fresh (DeclaresOnce ts) (declareAll ty items s1).2)
    refine whole.perm ?_ ?_
    · exact (hids.append_right _).symm
    · simp [Stmt.ops, hops]
  · intro item hitem
    obtain ⟨x, hx, hx2⟩ := List.mem_map.1 (hinits ▸ List.mem_map_of_mem hitem : item.2 ∈ items.map (·.2))
    exact hx2 ▸ hord x (hsub.subset hx)
  · exact fun i hi => declared.below_nodes i (hids.mem_iff.1 hi)

theorem formals_numbered {s : ParseState} {ts : List Token} {r : Step ts (List Formal)}
    (h : formals stop depth s ts = .ok r) :
    Span True s r.state (r.value.flatMap (Expr.optIds ·.default))
        (r.value.flatMap (Expr.optOps ·.default)) ∧
      ∀ f ∈ r.value, Expr.OptOrdered f.default := by
  rw [formals.eq_def] at h
  obtain ⟨⟨ty, r1, hr1⟩, hty, h⟩ := bind_eq_ok h
  obtain ⟨⟨name, r2, hr2⟩, hname, h⟩ := bind_eq_ok h
  obtain ⟨⟨dflt, s1, r3, hr3⟩, hdflt, h⟩ := bind_eq_ok h
  obtain ⟨hspan, hord⟩ := initializer_numbered hdflt
  dsimp only at h hspan hord
  split at h
  · -- a comma: more parameters follow
    rename_i pos r4 hlen
    have : r4.length < ts.length := by simp only [List.length_cons] at hlen; omega
    obtain ⟨⟨more, s2, r5, hr5⟩, hmore, h⟩ := bind_eq_ok h
    cases h
    obtain ⟨hspan', hord'⟩ := formals_numbered hmore
    exact ⟨by simpa using hspan.append hspan', List.forall_mem_cons.2 ⟨hord, hord'⟩⟩
  · cases h
    exact ⟨by simpa using hspan, by simpa using hord⟩
termination_by ts.length
decreasing_by omega

theorem formalsOrNone_numbered {r : Steps ts (List Formal)}
    (h : formalsOrNone stop depth s ts = .ok r) :
    Span True s r.state (r.value.flatMap (Expr.optIds ·.default))
        (r.value.flatMap (Expr.optOps ·.default)) ∧
      ∀ f ∈ r.value, Expr.OptOrdered f.default := by
  unfold formalsOrNone at h
  split at h
  · cases h
    exact ⟨Span.nil True s, by simp⟩
  · obtain ⟨⟨fs, s1, r1, hr1⟩, hfs, h⟩ := bind_eq_ok h
    cases h
    exact formals_numbered hfs

theorem exprStatement_numbered {r : Step ts Stmt} (h : exprStatement stop depth s ts = .ok r) :
    r.value.Numbered True s r.state := by
  unfold exprStatement at h
  obtain ⟨⟨e, s1, r1, hr1⟩, he, h⟩ := bind_eq_ok h
  obtain ⟨⟨r2, hr2⟩, -, h⟩ := bind_eq_ok h
  cases h
  obtain ⟨hspan, hord⟩ := (exprNumbered stop ts).expression he
  exact ⟨hspan.node, hord, hspan.below_nodes⟩

-- The target is numbered before the value.
theorem assignment_numbered {entry : Entry} {r : Step ts Stmt}
    (h : assignment stop depth entry s ts = .ok r) : r.value.Numbered True s r.state := by
  unfold assignment at h
  obtain ⟨⟨e, s1, r1, hr1⟩, he, h⟩ := bind_eq_ok h
  obtain ⟨⟨r2, hr2⟩, -, h⟩ := bind_eq_ok h
  cases h
  obtain ⟨hspan, hord⟩ := (exprNumbered stop ts).expression he
  have whole := (Span.fresh True s).append hspan
  exact ⟨whole.node, hord, whole.below_nodes⟩

theorem jump_numbered {k : Keyword} {r : Steps ts Stmt} (h : jump stop depth k s ts = .ok r) :
    r.value.Numbered True s r.state := by
  unfold jump at h
  split at h
  · obtain ⟨⟨e, s1, r1, hr1⟩, he, h⟩ := bind_eq_ok h
    obtain ⟨⟨r2, hr2⟩, -, h⟩ := bind_eq_ok h
    cases h
    obtain ⟨hspan, hord⟩ := (exprNumbered stop ts).expression he
    exact ⟨hspan.node, hord, hspan.below_nodes⟩
  all_goals
    obtain ⟨⟨r1, hr1⟩, -, h⟩ := bind_eq_ok h
    cases h
    exact ⟨Span.fresh True s, trivial⟩

end

section

variable {stop : Pos} {depth : Nat} {s : ParseState} {ts : List Token}

-- What a parse leaves unread is a suffix of what it was given.
theorem expect_suffix {p : Punct} {site : Site} {r : List Token} {hr : r.length < ts.length}
    (h : expect stop s p site ts = .ok ⟨r, hr⟩) : r <:+ ts := by
  obtain ⟨q, rfl⟩ := expect_ok h
  exact List.suffix_cons _ _

theorem expression_suffix {r : Step ts Expr} (h : expression stop depth s ts = .ok r) :
    r.rest <:+ ts := by
  obtain ⟨_, g, -⟩ := ((exprSound stop ts).expression h).phrase
  exact g.suffix

theorem statement_suffix {r : Step ts Stmt} (h : statement stop depth s ts = .ok r) :
    r.rest <:+ ts := by
  obtain ⟨_, g, -⟩ := (stmtSound stop ts).statement h
  exact g.suffix

end

theorem Stmt.Numbered.mono {P Q : Prop} {s s' : ParseState} {st : Stmt} (h : st.Numbered P s s')
    (hQP : Q → P) : st.Numbered Q s s' :=
  ⟨h.1.mono hQP, h.2⟩

structure StmtNumbered (stop : Pos) (ts : List Token) : Prop where
  statement {depth : Nat} {s : ParseState} {r : Step ts Stmt} :
    statement stop depth s ts = .ok r → r.value.Numbered (DeclaresOnce ts) s r.state
  block {depth : Nat} {s : ParseState} {r : Step ts Stmt} :
    block stop depth s ts = .ok r → r.value.Numbered (DeclaresOnce ts) s r.state
  blockItems {depth : Nat} {s : ParseState} {r : Steps ts (List Stmt)} :
    blockItems stop depth s ts = .ok r →
      Span (DeclaresOnce ts) s r.state (r.value.flatMap Stmt.ids) (r.value.flatMap Stmt.ops) ∧
        ∀ x ∈ r.value, x.Ordered

section

variable {stop : Pos} {depth : Nat} {s : ParseState} {ts : List Token}
variable (ih : ∀ ts' : List Token, ts'.length < ts.length → StmtNumbered stop ts')
include ih

theorem block_numbered {r : Step ts Stmt} (h : block stop depth s ts = .ok r) :
    r.value.Numbered (DeclaresOnce ts) s r.state := by
  rw [block.eq_def] at h
  obtain ⟨⟨r1, hr1⟩, hopen, h⟩ := bind_eq_ok h
  obtain ⟨⟨items, s1, r2, hr2⟩, hitems, h⟩ := bind_eq_ok h
  obtain ⟨⟨r3, hr3⟩, -, h⟩ := bind_eq_ok h
  obtain ⟨s2, hexit, h⟩ := bind_eq_ok h
  obtain ⟨q, hq⟩ := expect_ok hopen
  obtain ⟨hspan, hord⟩ := (ih r1 hr1).blockItems hitems
  dsimp only at hspan hord
  -- opening and closing the block's scope move no counter
  have inner : Span (DeclaresOnce ts) s s2 (items.flatMap Stmt.ids) (items.flatMap Stmt.ops) :=
    (hspan.mono (DeclaresOnce.suffix · (hq ▸ List.suffix_cons _ _))).congr rfl rfl
      (exit_counters hexit).1 (exit_counters hexit).2
  rcases hc : s2.chain items with ⟨_ | root, s3⟩
  · -- no statements: the block is one empty node
    simp only [hc] at h
    cases h
    obtain rfl : items = [] := nil_of_chain (congrArg Prod.fst hc)
    obtain rfl : s3 = s2 := by
      simp only [ParseState.chain, Stmt.chain, List.reverse_nil, Prod.mk.injEq] at hc
      rw [← hc.2]
    exact ⟨inner.node, trivial⟩
  · simp only [hc] at h
    cases h
    have hroot := chain_numbered hc inner hord
    exact ⟨hroot.1.node, hroot.2, hroot.1.below_nodes⟩

theorem funcDef_numbered {r : Step ts Stmt} (h : funcDef stop depth s ts = .ok r) :
    r.value.Numbered (DeclaresOnce ts) s r.state := by
  rw [funcDef.eq_def] at h
  obtain ⟨⟨ret, r1, hr1⟩, hret, h⟩ := bind_eq_ok h
  obtain ⟨⟨name, r2, hr2⟩, hname, h⟩ := bind_eq_ok h
  obtain ⟨⟨r3, hr3⟩, hopen, h⟩ := bind_eq_ok h
  obtain ⟨⟨fs, s1, r4, hr4⟩, hfs, h⟩ := bind_eq_ok h
  dsimp only at h
  obtain ⟨⟨r5, hr5⟩, hclose, h⟩ := bind_eq_ok h
  obtain ⟨⟨body, s3, r6, hr6⟩, hbody, h⟩ := bind_eq_ok h
  obtain ⟨s4, hexit, h⟩ := bind_eq_ok h
  dsimp only at h
  split at h
  · cases h
    dsimp only at hexit hbody hr6 ⊢
    -- the body is read off a suffix of the definition
    have hsuf : r5 <:+ ts := by
      obtain ⟨q, hr1eq⟩ := expectIdent_ok hname
      obtain ⟨_, gps, -⟩ := (formalsOrNone_reads hfs).phrase
      have h12 : r2 <:+ r1 := hr1eq ▸ List.suffix_cons _ _
      exact ((((expect_suffix hclose).trans gps.suffix).trans (expect_suffix hopen)).trans
        h12).trans (type_ok hret).suffix
    obtain ⟨hdefaults, hord⟩ := formalsOrNone_numbered hfs
    dsimp only at hdefaults hord
    -- the parameters are numbered in the scope the function's name was declared in
    obtain ⟨hdefs, hnodes, hcount, hlabels⟩ :=
      declareParams_numbers fs (s1.declare name (ret.func (fs.map (·.ty)))).2.enter
    simp only [enter_nodes, enter_labels, declare_nodes, declare_labels] at hnodes hcount hlabels
    generalize declareParams fs (s1.declare name (ret.func (fs.map (·.ty)))).2.enter = P
      at hdefs hnodes hcount hlabels hbody
    have named : Span (DeclaresOnce ts) s1 P.2 (List.range' s1.nodes fs.length) [] :=
      Span.range _ hcount hlabels
    obtain ⟨bspan, bord⟩ := ((ih r5 (by omega)).block hbody).mono (DeclaresOnce.suffix · hsuf)
    have closed := bspan.congr rfl rfl (exit_counters hexit).1 (exit_counters hexit).2
    have params := (hdefaults.mono fun _ => trivial).append named
    have hids : (P.1.flatMap Param.ids).Perm
        (fs.flatMap (Expr.optIds ·.default) ++ List.range' s1.nodes fs.length) := by
      have := paramIds_perm P.1
      rwa [hdefs, hnodes, List.flatMap_map] at this
    have hops : P.1.flatMap (Expr.optOps ·.default) = fs.flatMap (Expr.optOps ·.default) := by
      rw [← List.flatMap_map, hdefs, List.flatMap_map]
    have whole := params.append closed
    refine ⟨whole.node.perm ?_ ?_, ?_, bord, ?_⟩
    · exact ((hids.append_right _).append_right _).symm
    · simp [Stmt.ops, hops]
    · intro prm hprm
      obtain ⟨f, hf, hf2⟩ := List.mem_map.1
        (hdefs ▸ List.mem_map_of_mem hprm : prm.default ∈ fs.map (·.default))
      exact hf2 ▸ hord f hf
    · exact fun i hi => whole.below_nodes i ((hids.append_right _).mem_iff.1 hi)
  · cases h

theorem statement_numbered {r : Step ts Stmt} (h : statement stop depth s ts = .ok r) :
    r.value.Numbered (DeclaresOnce ts) s r.state := by
  rw [statement.eq_def] at h
  split at h
  · split at h
    · rename_i t rest
      obtain ⟨k, p⟩ := t
      dsimp only at h
      split at h
      case h_1 | h_2 | h_3 =>
        -- a type starts a function definition or a declaration
        split at h
        · exact funcDef_numbered ih h
        · exact declaration_numbered h
      case h_4 => exact block_numbered ih h
      case h_5 =>
        obtain ⟨⟨r1, hr1⟩, hopen, h⟩ := bind_eq_ok h
        obtain ⟨⟨c, s1, r2, hr2⟩, hc, h⟩ := bind_eq_ok h
        obtain ⟨⟨r3, hr3⟩, hclose, h⟩ := bind_eq_ok h
        obtain ⟨⟨th, s2, r4, hr4⟩, hth, h⟩ := bind_eq_ok h
        dsimp only at hc hclose hth h hr2 hr3 hr4
        obtain ⟨cspan, cord⟩ := (exprNumbered stop r1).expression hc
        have hsuf : r3 <:+ ⟨.keyword .ifKw, p⟩ :: rest :=
          (((expect_suffix hclose).trans (expression_suffix hc)).trans (expect_suffix hopen)).trans
            (List.suffix_cons _ _)
        obtain ⟨tspan, tord⟩ := ((ih r3 (by simp only [List.length_cons]; omega)).statement hth).mono
          (DeclaresOnce.suffix · hsuf)
        split at h
        · -- an `else` follows: its statement is numbered after the first branch
          rename_i pe r5 hlen
          obtain ⟨⟨el, s3, r6, hr6⟩, hel, h⟩ := bind_eq_ok h
          cases h
          have hsuf' : r5 <:+ ⟨.keyword .ifKw, p⟩ :: rest :=
            ((List.suffix_cons _ _).trans (statement_suffix hth)).trans hsuf
          obtain ⟨espan, eord⟩ :=
            ((ih r5 (by simp only [List.length_cons] at hr4 ⊢; omega)).statement hel).mono
              (DeclaresOnce.suffix · hsuf')
          have whole := ((cspan.mono fun _ => trivial).append tspan).append espan
          exact ⟨whole.node, cord, tord, eord, whole.below_nodes⟩
        · cases h
          have whole := (cspan.mono fun _ => trivial).append tspan
          exact ⟨whole.node, cord, tord, whole.below_nodes⟩
      case h_6 =>
        obtain ⟨⟨r1, hr1⟩, hopen, h⟩ := bind_eq_ok h
        obtain ⟨⟨c, s1, r2, hr2⟩, hc, h⟩ := bind_eq_ok h
        obtain ⟨⟨r3, hr3⟩, hclose, h⟩ := bind_eq_ok h
        obtain ⟨⟨b, s2, r4, hr4⟩, hb, h⟩ := bind_eq_ok h
        dsimp only at hc hclose hb h hr2 hr3 hr4
        cases h
        obtain ⟨cspan, cord⟩ := (exprNumbered stop r1).expression hc
        have hsuf : r3 <:+ ⟨.keyword .whileKw, p⟩ :: rest :=
          (((expect_suffix hclose).trans (expression_suffix hc)).trans (expect_suffix hopen)).trans
            (List.suffix_cons _ _)
        obtain ⟨bspan, bord⟩ := ((ih r3 (by simp only [List.length_cons]; omega)).statement hb).mono
          (DeclaresOnce.suffix · hsuf)
        have whole := (cspan.mono fun _ => trivial).append bspan
        exact ⟨whole.node, cord, bord, whole.below_nodes⟩
      case h_7 | h_8 | h_9 =>
        obtain ⟨x, hx, rfl⟩ := ok_of_map_ok h
        exact (jump_numbered hx).mono fun _ => trivial
      case h_10 =>
        cases h
        exact ⟨Span.fresh _ s, trivial⟩
      case h_11 =>
        split at h
        · split at h
          · -- `name =`: an assignment
            obtain ⟨entry, -, h⟩ := bind_eq_ok h
            obtain ⟨x, hx, rfl⟩ := ok_of_map_ok h
            exact (assignment_numbered hx).mono fun _ => trivial
          · exact (exprStatement_numbered h).mono fun _ => trivial
        · exact (exprStatement_numbered h).mono fun _ => trivial
      case h_12 => exact (exprStatement_numbered h).mono fun _ => trivial
    · exact (exprStatement_numbered h).mono fun _ => trivial
  · cases h

theorem blockItems_numbered {r : Steps ts (List Stmt)} (h : blockItems stop depth s ts = .ok r) :
    Span (DeclaresOnce ts) s r.state (r.value.flatMap Stmt.ids) (r.value.flatMap Stmt.ops) ∧
      ∀ x ∈ r.value, x.Ordered := by
  rw [blockItems.eq_def] at h
  split at h
  · cases h
    exact ⟨Span.nil _ s, by simp⟩
  · split at h
    · cases h
      exact ⟨Span.nil _ s, by simp⟩
    · obtain ⟨⟨x, s1, r1, hr1⟩, hx, h⟩ := bind_eq_ok h
      obtain ⟨⟨xs, s2, r2, hr2⟩, hxs, h⟩ := bind_eq_ok h
      cases h
      obtain ⟨xspan, xord⟩ := statement_numbered ih hx
      obtain ⟨xsspan, xsord⟩ := (ih r1 hr1).blockItems hxs
      exact ⟨xspan.append (xsspan.mono (DeclaresOnce.suffix · (statement_suffix hx))),
        List.forall_mem_cons.2 ⟨xord, xsord⟩⟩

theorem stmtNumbered_of_shorter : StmtNumbered stop ts :=
  { statement := statement_numbered ih
    block := block_numbered ih
    blockItems := blockItems_numbered ih }

end

theorem stmtNumbered (stop : Pos) (ts : List Token) : StmtNumbered stop ts := by
  induction ts using tokens_induction with
  | shorter ts ih => exact stmtNumbered_of_shorter ih

theorem programItems_numbered {stop : Pos} {s : ParseState} {ts : List Token}
    {r : Steps ts (List Stmt)} (h : programItems stop s ts = .ok r) :
    Span (DeclaresOnce ts) s r.state (r.value.flatMap Stmt.ids) (r.value.flatMap Stmt.ops) ∧
      ∀ x ∈ r.value, x.Ordered := by
  rw [programItems.eq_def] at h
  split at h
  · cases h
    exact ⟨Span.nil _ s, by simp⟩
  · obtain ⟨⟨x, s1, r1, hr1⟩, hx, h⟩ := bind_eq_ok h
    obtain ⟨⟨xs, s2, r2, hr2⟩, hxs, h⟩ := bind_eq_ok h
    cases h
    obtain ⟨xspan, xord⟩ := (stmtNumbered stop _).statement hx
    obtain ⟨xsspan, xsord⟩ := programItems_numbered hxs
    exact ⟨xspan.append (xsspan.mono (DeclaresOnce.suffix · (statement_suffix hx))),
      List.forall_mem_cons.2 ⟨xord, xsord⟩⟩
termination_by ts.length

-- An accepted program is numbered from the counters it started with.
theorem parseFrom_numbered {s : ParseState} {toks : List Token} {p : Program}
    (h : Program.parseFrom s toks = .ok p) :
    p.root.Numbered (DeclaresOnce (Program.input toks).1) s p.state := by
  unfold Program.parseFrom at h
  rcases hin : Program.input toks with ⟨ts, stop⟩
  rw [hin] at h
  obtain ⟨⟨items, s1, r1, hr1⟩, hitems, h⟩ := bind_eq_ok h
  obtain ⟨span, ord⟩ := programItems_numbered hitems
  dsimp only at h span ord
  rcases hc : s1.chain items with ⟨_ | root, s2⟩
  · simp only [hc] at h
    cases h
  · simp only [hc] at h
    cases h
    exact chain_numbered hc span ord

theorem parseFrom_numbering {s : ParseState} {toks : List Token} {p : Program}
    (h : Program.parseFrom s toks = .ok p) :
    (p.root.ids.Nodup ∧ p.root.Ordered) ∧
      ((p.root.ops.map (·.2)).Nodup ∧
        ∀ o ∈ p.root.ops, ∀ o' ∈ p.root.ops, o.1 < o'.1 ↔ o.2 < o'.2) ∧
      (DeclaresOnce (Program.input toks).1 →
        p.root.ids.Perm (List.range' s.nodes p.root.ids.length) ∧
          (p.root.ops.map (·.2)).Perm (List.range' s.labels p.root.ops.length)) ∧
      ∀ k j, Program.parseFrom (s.shift k j) toks = .ok (p.shift k j) := by
  obtain ⟨span, ord⟩ := parseFrom_numbered h
  refine ⟨⟨span.ids_nodup, ord⟩, ⟨span.labels_nodup, span.ops_mono⟩,
    fun hd => ⟨span.ids_perm_range hd, span.labels_perm_range hd⟩, fun k j => ?_⟩
  rw [parseFrom_shift, h]
  rfl

-- int x; x = -x + x * 2; whose assigned value holds three operators.
def declareThenCompute : List Token :=
  [⟨.keyword .intKw, ⟨1, 1⟩⟩, ⟨.ident "x", ⟨1, 5⟩⟩, ⟨.punct .semicolon, ⟨1, 6⟩⟩,
    ⟨.ident "x", ⟨1, 8⟩⟩, ⟨.punct .assign, ⟨1, 10⟩⟩, ⟨.punct .minus, ⟨1, 12⟩⟩,
    ⟨.ident "x", ⟨1, 13⟩⟩, ⟨.punct .plus, ⟨1, 15⟩⟩, ⟨.ident "x", ⟨1, 17⟩⟩,
    ⟨.punct .star, ⟨1, 19⟩⟩, ⟨.num 2, ⟨1, 21⟩⟩, ⟨.punct .semicolon, ⟨1, 22⟩⟩]

theorem declareThenCompute_numbering :
    ∃ p, Program.parseFrom (Program.initialState false) declareThenCompute = .ok p ∧
      p.root.ops.length = 3 ∧
      (p.root.ids.Nodup ∧ p.root.Ordered) ∧
      ((p.root.ops.map (·.2)).Nodup ∧
        ∀ o ∈ p.root.ops, ∀ o' ∈ p.root.ops, o.1 < o'.1 ↔ o.2 < o'.2) ∧
      (DeclaresOnce (Program.input declareThenCompute).1 →
        p.root.ids.Perm (List.range' 0 p.root.ids.length) ∧
          (p.root.ops.map (·.2)).Perm (List.range' 0 p.root.ops.length)) ∧
      (∀ k j, Program.parseFrom ((Program.initialState false).shift k j) declareThenCompute =
        .ok (p.shift k j)) ∧
      DeclaresOnce (Program.input declareThenCompute).1 := by
  obtain ⟨p, hp⟩ := ok_of_toBool
    (by cbv : (Program.parseFrom (Program.initialState false) declareThenCompute).toBool = true)
  have hops : (Program.parseFrom (Program.initialState false) declareThenCompute).map
      (·.root.ops.length) = .ok 3 := by cbv
  rw [hp] at hops
  obtain ⟨ha, hb, hc, hd⟩ := parseFrom_numbering hp
  exact ⟨p, hp, by simpa [Except.map] using hops, ha, hb, hc, hd,
    declaresOnce_of_no_comma (by decide)⟩

end ScopedC

import ScopedC.Proofs.Soundness.Stmt
import ScopedC.Program
namespace ScopedC

open Parse

-- A failure of a parse of `ts`: stopped at a suffix of `ts`, with a syntax error placed at the
-- token there or an unbound name that is the token there.
def Located (stop : Pos) (ts : List Token) (e : Failure) : Prop :=
  e.rest <:+ ts ∧
    ((∃ se, e.error = .malformed se (peek stop e.rest).pos) ∨
      ∃ name pos r, e.error = .undefined name pos ∧ e.rest = ⟨.ident name, pos⟩ :: r)

section

variable {stop : Pos} {s : ParseState} {ts r : List Token} {e : Failure}

theorem Located.of_suffix (h : Located stop r e) (hr : r <:+ ts) : Located stop ts e :=
  ⟨h.1.trans hr, h.2⟩

theorem Located.tail {t : Token} (h : Located stop r e) : Located stop (t :: r) e :=
  h.of_suffix (List.suffix_cons _ _)

theorem Located.not_internal (h : Located stop ts e) (ie : InternalError) :
    e.error ≠ .internal ie := by
  rcases h.2 with ⟨se, he⟩ | ⟨name, pos, r, he, -⟩ <;> rw [he] <;> simp

theorem failAt_located (se : SyntaxError) : Located stop ts (failAt stop s ts se) :=
  ⟨List.suffix_refl _, .inl ⟨se, rfl⟩⟩

theorem expect_located {p : Punct} {site : Site} (h : expect stop s p site ts = .error e) :
    Located stop ts e := by
  unfold expect at h
  split at h
  · split at h
    · cases h
    · cases h
      exact failAt_located _
  · cases h
    exact failAt_located _

theorem expectIdent_located (h : expectIdent stop s ts = .error e) : Located stop ts e := by
  unfold expectIdent at h
  split at h
  · cases h
  · cases h
    exact failAt_located _

theorem type_located (h : type stop s ts = .error e) : Located stop ts e := by
  unfold type at h
  split at h
  · cases h
  · cases h
    exact failAt_located _

theorem deeper_located {depth : Nat} (h : deeper stop depth s ts = .error e) :
    Located stop ts e := by
  unfold deeper at h
  split at h
  · cases h
  · cases h
    exact failAt_located _

theorem resolve_located {name : String} {pos : Pos}
    (h : s.resolve name pos (⟨.ident name, pos⟩ :: r) = .error e) :
    Located stop (⟨.ident name, pos⟩ :: r) e := by
  unfold ParseState.resolve at h
  split at h
  · cases h
  · cases h
    exact ⟨List.suffix_refl _, .inr ⟨name, pos, r, rfl, rfl⟩⟩

end

-- Every failure of an expression parser on `ts` is located.
structure ExprFails (stop : Pos) (ts : List Token) : Prop where
  expression {depth : Nat} {s : ParseState} {e : Failure} :
    expression stop depth s ts = .error e → Located stop ts e
  chain {depth : Nat} {lvl : Level} {s : ParseState} {e : Failure} :
    chain stop depth lvl s ts = .error e → Located stop ts e
  operand {depth : Nat} {lvl : Level} {s : ParseState} {e : Failure} :
    operand stop depth lvl s ts = .error e → Located stop ts e
  links {depth : Nat} {lvl : Level} {left : Expr} {s : ParseState} {e : Failure} :
    links stop depth lvl left s ts = .error e → Located stop ts e
  unary {depth : Nat} {s : ParseState} {e : Failure} :
    unary stop depth s ts = .error e → Located stop ts e
  primary {depth : Nat} {s : ParseState} {e : Failure} :
    primary stop depth s ts = .error e → Located stop ts e
  arguments {depth : Nat} {s : ParseState} {e : Failure} :
    arguments stop depth s ts = .error e → Located stop ts e
  call {depth : Nat} {callee : Entry} {s : ParseState} {e : Failure} :
    call stop depth callee s ts = .error e → Located stop ts e

section

variable {stop : Pos} {depth : Nat} {s : ParseState} {ts : List Token} {e : Failure}
variable (ih : ∀ ts' : List Token, ts'.length < ts.length → ExprFails stop ts')
include ih

theorem links_located {lvl : Level} {left : Expr} (h : links stop depth lvl left s ts = .error e) :
    Located stop ts e := by
  rw [links.eq_def] at h
  split at h
  · rename_i t rest
    split at h
    · obtain h | ⟨depth', -, h⟩ := bind_eq_error h
      · exact (deeper_located h).tail
      obtain h | ⟨⟨right, s1, r1, hr1⟩, hright, h⟩ := bind_eq_error h
      · exact ((ih rest (by simp only [List.length_cons]; omega)).operand h).tail
      obtain h | ⟨⟨e', s2, r2, hr2⟩, -, h⟩ := bind_eq_error h
      · -- the links go on after the operand, which left a suffix
        have read := (exprSound stop rest).operand hright
        obtain ⟨_, g, -⟩ := read.phrase
        exact (((ih r1 (by simp only [List.length_cons]; omega)).links h).of_suffix g.suffix).tail
      · cases h
    · cases h
  · cases h

theorem primary_located (h : primary stop depth s ts = .error e) : Located stop ts e := by
  rw [primary.eq_def] at h
  split at h
  · cases h
  · -- a call: its callee is resolved before its arguments are read
    obtain h | ⟨callee, -, h⟩ := bind_eq_error h
    · exact resolve_located h
    obtain h | ⟨_, -, h⟩ := bind_eq_error h
    · exact ((ih _ (by simp only [List.length_cons]; omega)).call h).tail.tail
    · cases h
  · obtain h | ⟨entry, -, h⟩ := bind_eq_error h
    · exact resolve_located h
    · cases h
  · rename_i pos rest
    obtain h | ⟨⟨e', s1, r1, hr1⟩, hexpr, h⟩ := bind_eq_error h
    · exact ((ih rest (by simp only [List.length_cons]; omega)).expression h).tail
    obtain h | ⟨_, -, h⟩ := bind_eq_error h
    · have read := (exprSound stop rest).expression hexpr
      obtain ⟨_, g, -⟩ := read.phrase
      exact ((expect_located h).of_suffix g.suffix).tail
    · cases h
  · cases h
    exact failAt_located _

theorem unary_located (h : unary stop depth s ts = .error e) : Located stop ts e := by
  rw [unary.eq_def] at h
  split at h
  · split at h
    · obtain h | ⟨depth', -, h⟩ := bind_eq_error h
      · exact (deeper_located h).tail
      obtain h | ⟨_, -, h⟩ := bind_eq_error h
      · exact ((ih _ (by simp only [List.length_cons]; omega)).unary h).tail
      · cases h
    · exact primary_located ih h
  · exact primary_located ih h

theorem chain_located {lvl : Level} (h : chain stop depth lvl s ts = .error e) :
    Located stop ts e := by
  -- by induction from the tightest level out, as for soundness
  induction lvl using Level.tighter_induction generalizing depth e with
  | step lvl ihl =>
    rw [chain.eq_def] at h
    obtain h | ⟨⟨left, s1, r1, hr1⟩, hleft, h⟩ := bind_eq_error h
    · -- the first operand failed
      rw [operand.eq_def] at h
      split at h
      · rename_i l hl
        exact ihl _ hl h
      · exact unary_located ih h
    obtain h | ⟨_, -, h⟩ := bind_eq_error h
    · have read := (exprSound stop ts).operand hleft
      obtain ⟨_, g, -⟩ := read.phrase
      exact ((ih r1 hr1).links h).of_suffix g.suffix
    · cases h

theorem operand_located {lvl : Level} (h : operand stop depth lvl s ts = .error e) :
    Located stop ts e := by
  rw [operand.eq_def] at h
  split at h
  · exact chain_located ih h
  · exact unary_located ih h

theorem expression_located (h : expression stop depth s ts = .error e) : Located stop ts e := by
  rw [expression.eq_def] at h
  obtain h | ⟨depth', -, h⟩ := bind_eq_error h
  · exact deeper_located h
  · exact chain_located ih h

theorem arguments_located (h : arguments stop depth s ts = .error e) : Located stop ts e := by
  rw [arguments.eq_def] at h
  obtain h | ⟨⟨e', s1, r1, hr1⟩, hfirst, h⟩ := bind_eq_error h
  · exact expression_located ih h
  have read := (exprSound stop ts).expression hfirst
  obtain ⟨_, g, -⟩ := read.phrase
  dsimp only at h g
  split at h
  · rename_i pos r2 hlen
    obtain h | ⟨_, -, h⟩ := bind_eq_error h
    · exact (((ih r2 (by simp only [List.length_cons] at hlen; omega)).arguments h).tail).of_suffix
        g.suffix
    · cases h
  · cases h

theorem call_located {callee : Entry} (h : call stop depth callee s ts = .error e) :
    Located stop ts e := by
  rw [call.eq_def] at h
  split at h
  · cases h
  · obtain h | ⟨⟨args, s1, r1, hr1⟩, hargs, h⟩ := bind_eq_error h
    · exact arguments_located ih h
    obtain h | ⟨_, -, h⟩ := bind_eq_error h
    · have read := (exprSound stop ts).arguments hargs
      obtain ⟨_, g, -⟩ := read.phrase
      exact (expect_located h).of_suffix g.suffix
    · cases h

theorem exprFails_of_shorter : ExprFails stop ts :=
  { expression := expression_located ih
    chain := chain_located ih
    operand := operand_located ih
    links := links_located ih
    unary := unary_located ih
    primary := primary_located ih
    arguments := arguments_located ih
    call := call_located ih }

end

theorem exprFails (stop : Pos) (ts : List Token) : ExprFails stop ts := by
  induction ts using tokens_induction with
  | shorter ts ih => exact exprFails_of_shorter ih

section

variable {stop : Pos} {depth : Nat} {s : ParseState} {ts : List Token} {e : Failure}

theorem initializer_located (h : initializer stop depth s ts = .error e) : Located stop ts e := by
  unfold initializer at h
  split at h
  · obtain h | ⟨_, -, h⟩ := bind_eq_error h
    · exact ((exprFails stop _).expression h).tail
    · cases h
  · cases h

theorem declarators_located {s : ParseState} {ts : List Token} {acc : List (String × Option Expr)}
    (h : declarators stop depth s ts acc = .error e) : Located stop ts e := by
  rw [declarators.eq_def] at h
  obtain h | ⟨⟨name, r1, hr1⟩, hname, h⟩ := bind_eq_error h
  · exact expectIdent_located h
  obtain ⟨q, hts⟩ := expectIdent_ok hname
  rw [hts]
  obtain h | ⟨⟨init, s1, r2, hr2⟩, hinit, h⟩ := bind_eq_error h
  · exact (initializer_located h).tail
  have read := initializer_reads hinit
  obtain ⟨_, g, -⟩ := read.phrase
  dsimp only at h g
  split at h
  · -- a comma: the next declarator failed
    rename_i pos r3 hlen
    have : r3.length < ts.length := by simp only [List.length_cons] at hlen; omega
    obtain h | ⟨_, -, h⟩ := bind_eq_error h
    · exact ((declarators_located h).tail.of_suffix g.suffix).tail
    · cases h
  · cases h
termination_by ts.length
decreasing_by omega

theorem declaration_located (h : declaration stop depth s ts = .error e) : Located stop ts e := by
  unfold declaration at h
  obtain h | ⟨⟨ty, r1, hr1⟩, hty, h⟩ := bind_eq_error h
  · exact type_located h
  have g1 := (type_ok hty).suffix
  obtain h | ⟨⟨items, s1, r2, hr2⟩, hitems, h⟩ := bind_eq_error h
  · exact (declarators_located h).of_suffix g1
  have read := declarators_reads hitems
  obtain ⟨_, g2, -⟩ := read.phrase
  obtain h | ⟨_, -, h⟩ := bind_eq_error h
  · exact ((expect_located h).of_suffix g2.suffix).of_suffix g1
  · split at h
    cases h

theorem formals_located {s : ParseState} {ts : List Token} (h : formals stop depth s ts = .error e) :
    Located stop ts e := by
  rw [formals.eq_def] at h
  obtain h | ⟨⟨ty, r1, hr1⟩, hty, h⟩ := bind_eq_error h
  · exact type_located h
  have g1 := (type_ok hty).suffix
  obtain h | ⟨⟨name, r2, hr2⟩, hname, h⟩ := bind_eq_error h
  · exact (expectIdent_located h).of_suffix g1
  obtain ⟨q, hr1eq⟩ := expectIdent_ok hname
  rw [hr1eq] at g1
  have g2 := (List.suffix_cons _ _).trans g1
  obtain h | ⟨⟨dflt, s1, r3, hr3⟩, hdflt, h⟩ := bind_eq_error h
  · exact (initializer_located h).of_suffix g2
  have read := initializer_reads hdflt
  obtain ⟨_, g3, -⟩ := read.phrase
  dsimp only at h g3
  split at h
  · -- a comma: the next parameter failed
    rename_i pos r4 hlen
    have : r4.length < ts.length := by simp only [List.length_cons] at hlen; omega
    obtain h | ⟨_, -, h⟩ := bind_eq_error h
    · exact (((formals_located h).tail.of_suffix g3.suffix).of_suffix g2)
    · cases h
  · cases h
termination_by ts.length
decreasing_by omega

theorem formalsOrNone_located (h : formalsOrNone stop depth s ts = .error e) :
    Located stop ts e := by
  unfold formalsOrNone at h
  split at h
  · cases h
  · obtain h | ⟨_, -, h⟩ := bind_eq_error h
    · exact formals_located h
    · cases h

theorem exprStatement_located (h : exprStatement stop depth s ts = .error e) :
    Located stop ts e := by
  unfold exprStatement at h
  obtain h | ⟨⟨e', s1, r1, hr1⟩, he, h⟩ := bind_eq_error h
  · exact (exprFails stop ts).expression h
  have read := (exprSound stop ts).expression he
  obtain ⟨_, g, -⟩ := read.phrase
  obtain h | ⟨_, -, h⟩ := bind_eq_error h
  · exact (expect_located h).of_suffix g.suffix
  · cases h

theorem assignment_located {entry : Entry} (h : assignment stop depth entry s ts = .error e) :
    Located stop ts e := by
  unfold assignment at h
  obtain h | ⟨⟨e', s1, r1, hr1⟩, he, h⟩ := bind_eq_error h
  · exact (exprFails stop ts).expression h
  have read := (exprSound stop ts).expression he
  obtain ⟨_, g, -⟩ := read.phrase
  obtain h | ⟨_, -, h⟩ := bind_eq_error h
  · exact (expect_located h).of_suffix g.suffix
  · cases h

theorem jump_located {k : Keyword} (h : jump stop depth k s ts = .error e) : Located stop ts e := by
  unfold jump at h
  split at h
  · obtain h | ⟨⟨e', s1, r1, hr1⟩, he, h⟩ := bind_eq_error h
    · exact (exprFails stop ts).expression h
    have read := (exprSound stop ts).expression he
    obtain ⟨_, g, -⟩ := read.phrase
    obtain h | ⟨_, -, h⟩ := bind_eq_error h
    · exact (expect_located h).of_suffix g.suffix
    · cases h
  all_goals
    obtain h | ⟨_, -, h⟩ := bind_eq_error h
    · exact expect_located h
    · cases h

end

-- Every failure of a statement parser on `ts` is located.
structure StmtFails (stop : Pos) (ts : List Token) : Prop where
  statement {depth : Nat} {s : ParseState} {e : Failure} :
    statement stop depth s ts = .error e → Located stop ts e
  block {depth : Nat} {s : ParseState} {e : Failure} :
    block stop depth s ts = .error e → Located stop ts e
  blockItems {depth : Nat} {s : ParseState} {e : Failure} :
    blockItems stop depth s ts = .error e → Located stop ts e

section

variable {stop : Pos} {depth : Nat} {s : ParseState} {ts : List Token} {e : Failure}
variable (ih : ∀ ts' : List Token, ts'.length < ts.length → StmtFails stop ts')
include ih

theorem block_located (h : block stop depth s ts = .error e) : Located stop ts e := by
  rw [block.eq_def] at h
  obtain h | ⟨⟨r1, hr1⟩, hopen, h⟩ := bind_eq_error h
  · exact expect_located h
  obtain ⟨q, hts⟩ := expect_ok hopen
  rw [hts]
  obtain h | ⟨⟨items, s1, r2, hr2⟩, hitems, h⟩ := bind_eq_error h
  · exact ((ih r1 hr1).blockItems h).tail
  obtain ⟨_, g, res⟩ := (stmtSound stop r1).blockItems hitems
  dsimp only at h g res
  obtain h | ⟨⟨r3, hr3⟩, -, h⟩ := bind_eq_error h
  · exact ((expect_located h).of_suffix g.suffix).tail
  obtain h | ⟨s2, -, h⟩ := bind_eq_error h
  · -- closing the block's scope cannot fail: its statements left the scope open
    have outer : s1.scopes.outer = s.scopes.top :: s.scopes.outer := by
      rw [resolvedItems_frame res]
      rfl
    obtain ⟨s2, hx, -⟩ := exit_of_outer r3 outer
    rw [hx] at h
    cases h
  · rcases hc : Stmt.chain items s2.nodes with ⟨inner, n⟩
    simp only [ParseState.chain, hc] at h
    cases inner <;> cases h

theorem funcDef_located (h : funcDef stop depth s ts = .error e) : Located stop ts e := by
  rw [funcDef.eq_def] at h
  obtain h | ⟨⟨ret, r1, hr1⟩, hret, h⟩ := bind_eq_error h
  · exact type_located h
  have g1 := (type_ok hret).suffix
  obtain h | ⟨⟨name, r2, hr2⟩, hname, h⟩ := bind_eq_error h
  · exact (expectIdent_located h).of_suffix g1
  obtain ⟨q1, hr1eq⟩ := expectIdent_ok hname
  rw [hr1eq] at g1
  have g2 := (List.suffix_cons _ _).trans g1
  obtain h | ⟨⟨r3, hr3⟩, hopen, h⟩ := bind_eq_error h
  · exact (expect_located h).of_suffix g2
  obtain ⟨q2, hr2eq⟩ := expect_ok hopen
  rw [hr2eq] at g2
  have g3 := (List.suffix_cons _ _).trans g2
  obtain h | ⟨⟨fs, s1, r4, hr4⟩, hfs, h⟩ := bind_eq_error h
  · exact (formalsOrNone_located h).of_suffix g3
  have read := formalsOrNone_reads hfs
  obtain ⟨_, gps, -⟩ := read.phrase
  have g4 := gps.suffix.trans g3
  dsimp only at h g4
  obtain h | ⟨⟨r5, hr5⟩, hclose, h⟩ := bind_eq_error h
  · exact (expect_located h).of_suffix g4
  obtain ⟨q3, hr4eq⟩ := expect_ok hclose
  rw [hr4eq] at g4
  obtain h | ⟨⟨body, s3, r6, hr6⟩, hbody, h⟩ := bind_eq_error h
  · exact ((ih r5 (by omega)).block h).of_suffix ((List.suffix_cons _ _).trans g4)
  -- closing the parameters' scope returns to the scope that binds the function's name, so
  -- neither the close nor the lookup after it fails
  obtain ⟨s4, hx, closed, -⟩ := exit_after_body r6 hbody
  dsimp only at h hx
  rw [hx] at h
  simp only [bind, Except.bind] at h
  rw [closed, declare_scopes, Scopes.lookup_install_self] at h
  cases h

theorem statement_located (h : statement stop depth s ts = .error e) : Located stop ts e := by
  rw [statement.eq_def] at h
  split at h
  · split at h
    · rename_i t rest
      obtain ⟨k, p⟩ := t
      dsimp only at h
      split at h
      case h_1 | h_2 | h_3 =>
        split at h
        · exact funcDef_located ih h
        · exact declaration_located h
      case h_4 => exact block_located ih h
      case h_5 | h_6 =>
        obtain h | ⟨⟨r1, hr1⟩, hopen, h⟩ := bind_eq_error h
        · exact (expect_located h).tail
        obtain ⟨q, hrest⟩ := expect_ok hopen
        rw [hrest]
        obtain h | ⟨⟨c, s1, r2, hr2⟩, hc, h⟩ := bind_eq_error h
        · exact ((exprFails stop r1).expression h).tail.tail
        have gc := ((exprSound stop r1).expression hc).phrase.choose_spec.1.suffix
        dsimp only at h gc
        obtain h | ⟨⟨r3, hr3⟩, hclose, h⟩ := bind_eq_error h
        · exact ((expect_located h).of_suffix gc).tail.tail
        obtain ⟨q', hr2eq⟩ := expect_ok hclose
        rw [hr2eq] at gc
        have g3 := (List.suffix_cons _ _).trans gc
        dsimp only at hr2 hr3
        obtain h | ⟨⟨b, s2, r4, hr4⟩, hb, h⟩ := bind_eq_error h
        · exact (((ih r3 (by simp only [List.length_cons] at hrest ⊢; omega)).statement h).of_suffix
            g3).tail.tail
        dsimp only at h
        first
        | cases h
        | split at h
          · -- the `else` branch failed
            rename_i pe r5 hlen
            obtain ⟨_, gb, -⟩ := (stmtSound stop r3).statement hb
            obtain h | ⟨_, -, h⟩ := bind_eq_error h
            · exact ((((ih r5 (by simp only [List.length_cons] at hrest hlen ⊢; omega)).statement
                h).tail.of_suffix gb.suffix).of_suffix g3).tail.tail
            · cases h
          · cases h
      case h_7 | h_8 | h_9 => exact (jump_located (map_eq_error h)).tail
      case h_10 => cases h
      case h_11 =>
        split at h
        · rename_i a r'
          split at h
          · obtain h | ⟨entry, -, h⟩ := bind_eq_error h
            · exact resolve_located h
            · exact (assignment_located (map_eq_error h)).tail.tail
          · exact exprStatement_located h
        · exact exprStatement_located h
      case h_12 => exact exprStatement_located h
    · exact exprStatement_located h
  · cases h
    exact failAt_located _

theorem blockItems_located (h : blockItems stop depth s ts = .error e) : Located stop ts e := by
  rw [blockItems.eq_def] at h
  split at h
  · cases h
  · split at h
    · cases h
    · obtain h | ⟨⟨x, s1, r1, hr1⟩, hx, h⟩ := bind_eq_error h
      · exact statement_located ih h
      obtain ⟨_, g, -⟩ := (stmtSound stop _).statement hx
      obtain h | ⟨_, -, h⟩ := bind_eq_error h
      · exact ((ih r1 hr1).blockItems h).of_suffix g.suffix
      · cases h

theorem stmtFails_of_shorter : StmtFails stop ts :=
  { statement := statement_located ih
    block := block_located ih
    blockItems := blockItems_located ih }

end

theorem stmtFails (stop : Pos) (ts : List Token) : StmtFails stop ts := by
  induction ts using tokens_induction with
  | shorter ts ih => exact stmtFails_of_shorter ih

theorem programItems_located {stop : Pos} {s : ParseState} {ts : List Token} {e : Failure}
    (h : programItems stop s ts = .error e) : Located stop ts e := by
  rw [programItems.eq_def] at h
  split at h
  · cases h
  · obtain h | ⟨⟨x, s1, r1, hr1⟩, hx, h⟩ := bind_eq_error h
    · exact (stmtFails stop _).statement h
    obtain ⟨_, g, -⟩ := (stmtSound stop _).statement hx
    obtain h | ⟨_, -, h⟩ := bind_eq_error h
    · exact (programItems_located h).of_suffix g.suffix
    · cases h
termination_by ts.length

-- A failed parse of a program stops at the tokens left after a prefix of its input.
theorem parseFrom_located {s : ParseState} {toks : List Token} {e : Failure}
    (h : Program.parseFrom s toks = .error e) :
    Located (Program.input toks).2 (Program.input toks).1 e := by
  unfold Program.parseFrom at h
  rcases hin : Program.input toks with ⟨ts, stop⟩
  rw [hin] at h
  obtain h | ⟨⟨items, s1, r1, hr1⟩, -, h⟩ := bind_eq_error h
  · exact programItems_located h
  · -- nothing was read: the program wanted a statement at the end of the input
    rcases hc : Stmt.chain items s1.nodes with ⟨root, n⟩
    simp only [ParseState.chain, hc] at h
    cases root with
    | some root => cases h
    | none =>
      cases h
      exact ⟨List.nil_suffix, .inl ⟨_, rfl⟩⟩

end ScopedC

import ScopedC.Proofs.Soundness.Expr
import ScopedC.Proofs.Prefix.Tails
namespace ScopedC

open Parse

section Completion

variable {α β : Type} {G G' : List Token → α → List Token → Prop}
  {H : List Token → β → List Token → Prop} {R : α → Prop} {Q : β → Prop}
  {ts r c p : List Token} {e : Failure}

-- The tokens `c` start a phrase of `G` that `R` accepts: some tokens `w` complete them to one,
-- which ends before any tail that does not start with `else`.
def Completable (G : List Token → α → List Token → Prop) (R : α → Prop) (c : List Token) : Prop :=
  ∃ w a, (∀ z, Gram.startsElse z = false → G (c ++ (w ++ z)) a z) ∧ R a

-- A failed parse of `ts` for `G` consumed tokens `c` that start a phrase of `G` that `R`
-- accepts; when it failed on a name that no scope binds, `c` and that name start a phrase of `G`.
def Resumes (G : List Token → α → List Token → Prop) (R : α → Prop) (ts : List Token)
    (e : Failure) : Prop :=
  ∃ c, ts = c ++ e.rest ∧ Completable G R c ∧
    ∀ x pos, e.error = .undefined x pos → Completable G (fun _ => True) (c ++ [⟨.ident x, pos⟩])

-- After the tokens `p`, a rule of `H` closes every completed phrase of `G` to a phrase of `H`,
-- which `Q` accepts when `R` accepts the phrase of `G`.
def Encloses (G : List Token → α → List Token → Prop) (H : List Token → β → List Token → Prop)
    (R : α → Prop) (Q : β → Prop) (p : List Token) : Prop :=
  ∀ c w a, (∀ z, Gram.startsElse z = false → G (c ++ (w ++ z)) a z) →
    ∃ w' b, (∀ z, Gram.startsElse z = false → H (p ++ (c ++ (w' ++ z))) b z) ∧ (R a → Q b)

-- A phrase of `G` read off `ts` up to `r`: its tokens `p` read alike before any other tail.
def Cut (G : List Token → α → List Token → Prop) (ts : List Token) (a : α) (r : List Token) :
    Prop :=
  ∃ p, ts = p ++ r ∧ ∀ z, G (p ++ z) a z

-- A syntax error at the start of `ts`, as a reader that consumed nothing reports it.
def StuckAt (ts : List Token) (e : Failure) : Prop :=
  e.rest = ts ∧ ∀ x pos, e.error ≠ .undefined x pos

theorem Completable.enclose {R' : α → Prop} {Q' : β → Prop} (hf : Encloses G H R Q p)
    (hR : ∀ a b, (R a → Q b) → R' a → Q' b) (h : Completable G R' c) :
    Completable H Q' (p ++ c) := by
  obtain ⟨w, a, g, ha⟩ := h
  obtain ⟨w', b, g', hb⟩ := hf c w a g
  exact ⟨w', b, fun z hz => by simpa using g' z hz, hR a b hb ha⟩

-- A failure inside a phrase that a rule calls for after `p` is a failure of the rule's phrase.
theorem Resumes.enclose (hf : Encloses G H R Q p) (hts : ts = p ++ r) (h : Resumes G R r e) :
    Resumes H Q ts e := by
  obtain ⟨c, hr, hc, hx⟩ := h
  refine ⟨p ++ c, by rw [hts, hr, List.append_assoc], hc.enclose hf fun _ _ h => h,
    fun x pos he => ?_⟩
  simpa using (hx x pos he).enclose hf fun _ _ _ _ => trivial

theorem Resumes.mono (hG : ∀ {ts a r}, G ts a r → G' ts a r) (h : Resumes G R ts e) :
    Resumes G' R ts e :=
  h.enclose (p := []) (fun _ w a g => ⟨w, a, fun z hz => hG (g z hz), id⟩) rfl

theorem StuckAt.resumes (h : StuckAt r e) (hts : ts = c ++ r) (hc : Completable G R c) :
    Resumes G R ts e :=
  ⟨c, by rw [h.1]; exact hts, hc, fun x pos he => absurd he (h.2 x pos)⟩

end Completion

section Stuck

variable {stop : Pos} {s : ParseState} {ts : List Token} {e : Failure}

theorem failAt_stuck (se : SyntaxError) : StuckAt ts (failAt stop s ts se) :=
  ⟨rfl, fun _ _ h => by cases h⟩

theorem expect_stuck {p : Punct} {site : Site} (h : expect stop s p site ts = .error e) :
    StuckAt ts e := by
  unfold expect at h
  split at h
  · split at h
    · cases h
    · cases h
      exact failAt_stuck _
  · cases h
    exact failAt_stuck _

theorem expectIdent_stuck (h : expectIdent stop s ts = .error e) : StuckAt ts e := by
  unfold expectIdent at h
  split at h
  · cases h
  · cases h
    exact failAt_stuck _

theorem type_stuck (h : type stop s ts = .error e) : StuckAt ts e := by
  unfold type at h
  split at h
  · cases h
  · cases h
    exact failAt_stuck _

theorem deeper_stuck {depth : Nat} (h : deeper stop depth s ts = .error e) : StuckAt ts e := by
  unfold deeper at h
  split at h
  · cases h
  · cases h
    exact failAt_stuck _

-- A name that no scope binds fails on its own token: the tokens before it start a phrase when
-- nothing does, and the name starts one when it does.
theorem resolve_resumes {α : Type} {G : List Token → α → List Token → Prop} {R : α → Prop}
    {name : String} {pos : Pos} {r : List Token}
    (h : s.resolve name pos (⟨.ident name, pos⟩ :: r) = .error e) (hc : Completable G R [])
    (hx : Completable G (fun _ => True) [⟨.ident name, pos⟩]) :
    Resumes G R (⟨.ident name, pos⟩ :: r) e := by
  unfold ParseState.resolve at h
  split at h
  · cases h
  · cases h
    exact ⟨[], rfl, hc, fun x pos' he => by cases he; exact hx⟩

end Stuck

namespace Gram

-- A punctuation mark that completes a phrase; where it stands does not matter.
def mark (p : Punct) : Token := ⟨.punct p, Pos.start⟩

-- Every level reads a prefix expression as an operand, and as a chain of that one operand.
theorem Operand.of_unary {ts rest : List Token} {e : Raw.Expr} (g : Unary ts e rest)
    (lvl : Level) : Operand lvl ts e rest := by
  have atMul : Operand .mul ts e rest := .unary rfl g
  have atAdd : Operand .add ts e rest := .tighter rfl (.mk atMul .nil)
  have atRel : Operand .rel ts e rest := .tighter rfl (.mk atAdd .nil)
  have atAnd : Operand .and ts e rest := .tighter rfl (.mk atRel .nil)
  cases lvl
  exacts [.tighter rfl (.mk atAnd .nil), atAnd, atRel, atAdd, atMul]

theorem Chain.of_unary {ts rest : List Token} {e : Raw.Expr} (g : Unary ts e rest)
    (lvl : Level) : Chain lvl ts e rest :=
  .mk (Operand.of_unary g lvl) .nil

section Cuts

variable {ts r : List Token}

theorem Chain.cut {lvl : Level} {a : Raw.Expr} (g : Chain lvl ts a r) : Cut (Chain lvl) ts a r := by
  obtain ⟨p, hp⟩ := g.suffix
  exact ⟨p, hp.symm, fun z => by simpa using g.retail (z := z) hp.symm (List.nil_append r).symm⟩

theorem Operand.cut {lvl : Level} {a : Raw.Expr} (g : Operand lvl ts a r) :
    Cut (Operand lvl) ts a r := by
  obtain ⟨p, hp⟩ := g.suffix
  exact ⟨p, hp.symm, fun z => by simpa using g.retail (z := z) hp.symm (List.nil_append r).symm⟩

theorem Args.cut {as : List Raw.Expr} (g : Args ts as r) : Cut Args ts as r := by
  obtain ⟨p, hp⟩ := g.suffix
  exact ⟨p, hp.symm, fun z => by simpa using g.retail (z := z) hp.symm (List.nil_append r).symm⟩

end Cuts

end Gram

open Gram

-- An expression that resolves in `env`, and arguments that do.
def Resolves (env : Scopes Entry) (a : Raw.Expr) : Prop := ∃ v, ResolvedExpr env a v

def ResolvesArgs (env : Scopes Entry) (as : List Raw.Expr) : Prop := ∃ vs, ResolvedArgs env as vs

section Resolves

variable {env : Scopes Entry} {a l r : Raw.Expr} {as : List Raw.Expr}

theorem Resolves.lit {v : Int} : Resolves env (.lit v) := ⟨.lit 0 v, .lit⟩

theorem Resolves.binary {op : BinOp} : Resolves env l → Resolves env r → Resolves env (.binary op l r)
  | ⟨_, hl⟩, ⟨_, hr⟩ => ⟨.binary 0 op _ _ 0, .binary hl hr⟩

theorem Resolves.unary {op : UnOp} : Resolves env a → Resolves env (.unary op a)
  | ⟨_, ha⟩ => ⟨.unary 0 op _ 0, .unary ha⟩

theorem Resolves.call {f : String} {entry : Entry} (hf : env.lookup f = some entry) :
    ResolvesArgs env as → Resolves env (.call f as)
  | ⟨_, hs⟩ => ⟨.call 0 entry _, .call hf hs⟩

theorem ResolvesArgs.nil : ResolvesArgs env [] := ⟨[], .nil⟩

theorem ResolvesArgs.cons : Resolves env a → ResolvesArgs env as → ResolvesArgs env (a :: as)
  | ⟨_, ha⟩, ⟨_, hs⟩ => ⟨_, .cons ha hs⟩

end Resolves

-- The literal `0` completes, from nothing, every phrase that reads it as an expression.
theorem completable_lit {α : Type} {G : List Token → α → List Token → Prop} {a : α}
    {env : Scopes Entry} {R : α → Prop} (hG : ∀ z, G (⟨.num 0, Pos.start⟩ :: z) a z)
    (hR : Resolves env (.lit 0) → R a) : Completable G R [] :=
  ⟨[_], a, fun z _ => hG z, hR .lit⟩

-- A failed parse of each expression reader on `ts` consumed a viable prefix of its phrase.
structure ExprResumes (stop : Pos) (ts : List Token) : Prop where
  expression {depth : Nat} {s : ParseState} {e : Failure} :
    expression stop depth s ts = .error e → Resumes (Chain .or) (Resolves s.scopes) ts e
  chain {depth : Nat} {lvl : Level} {s : ParseState} {e : Failure} :
    chain stop depth lvl s ts = .error e → Resumes (Chain lvl) (Resolves s.scopes) ts e
  operand {depth : Nat} {lvl : Level} {s : ParseState} {e : Failure} :
    operand stop depth lvl s ts = .error e → Resumes (Operand lvl) (Resolves s.scopes) ts e
  links {depth : Nat} {lvl : Level} {left : Expr} {s : ParseState} {e : Failure} {acc : Raw.Expr}
    {env : Scopes Entry} : links stop depth lvl left s ts = .error e → s.scopes = env →
      ResolvedExpr env acc left → Resumes (Links lvl acc) (Resolves env) ts e
  unary {depth : Nat} {s : ParseState} {e : Failure} :
    unary stop depth s ts = .error e → Resumes Unary (Resolves s.scopes) ts e
  primary {depth : Nat} {s : ParseState} {e : Failure} :
    primary stop depth s ts = .error e → Resumes Primary (Resolves s.scopes) ts e
  call {depth : Nat} {callee : Entry} {s : ParseState} {e : Failure} :
    call stop depth callee s ts = .error e → Resumes CallArgs (ResolvesArgs s.scopes) ts e
  arguments {depth : Nat} {s : ParseState} {e : Failure} :
    arguments stop depth s ts = .error e → Resumes Args (ResolvesArgs s.scopes) ts e

section

variable {stop : Pos} {depth : Nat} {s : ParseState} {ts : List Token} {e : Failure}
variable (ih : ∀ ts' : List Token, ts'.length < ts.length → ExprResumes stop ts')
include ih

theorem links_resumes {lvl : Level} {left : Expr} {acc : Raw.Expr} {env : Scopes Entry}
    (h : links stop depth lvl left s ts = .error e) (hs : s.scopes = env)
    (hacc : ResolvedExpr env acc left) : Resumes (Links lvl acc) (Resolves env) ts e := by
  subst hs
  rw [links.eq_def] at h
  split at h
  · rename_i t rest
    split at h
    · rename_i op hop
      obtain h | ⟨depth', -, h⟩ := bind_eq_error h
      · -- no level is left for the operand after the operator: the literal `0` completes it
        refine (deeper_stuck h).resumes (c := [t]) rfl
          ⟨[⟨.num 0, Pos.start⟩], .binary op acc (.lit 0), fun _ _ => ?_,
            .binary ⟨_, hacc⟩ .lit⟩
        exact .cons hop (.of_unary (.primary .lit) lvl) .nil
      obtain h | ⟨⟨right, s1, r1, hr1⟩, hright, h⟩ := bind_eq_error h
      · refine ((ih rest (by simp only [List.length_cons]; omega)).operand h).enclose (p := [t]) ?_ rfl
        exact fun _ w a g => ⟨w, .binary op acc a, fun z hz => .cons hop (g z hz) .nil,
          (.binary ⟨_, hacc⟩ ·)⟩
      obtain h | ⟨⟨e', s2, r2, hr2⟩, -, h⟩ := bind_eq_error h
      · -- the links after the operand failed: they go on from the operator and its operand
        have read := (exprSound stop rest).operand hright
        obtain ⟨a, g, res⟩ := read.phrase
        obtain ⟨p, hp, cut⟩ := g.cut
        have more := (ih r1 (by simp only [List.length_cons]; omega)).links h
          read.scopes (.binary hacc res)
        refine more.enclose (p := t :: p) ?_ (by rw [hp]; rfl)
        exact fun _ w b g => ⟨w, b, fun z hz => .cons hop (cut _) (g z hz), id⟩
      · cases h
    · cases h
  · cases h

theorem primary_resumes (h : primary stop depth s ts = .error e) :
    Resumes Primary (Resolves s.scopes) ts e := by
  rw [primary.eq_def] at h
  split at h
  · cases h
  · -- a call: its callee is resolved before its arguments are read
    obtain h | ⟨callee, hcallee, h⟩ := bind_eq_error h
    · exact resolve_resumes h (completable_lit (fun _ => .lit) id) ⟨[], _, fun _ _ => .name, trivial⟩
    obtain h | ⟨_, -, h⟩ := bind_eq_error h
    · refine ((ih _ (by simp only [List.length_cons]; omega)).call h).enclose (p := [_, _]) ?_ rfl
      exact fun _ w as g => ⟨w, .call _ as, fun z hz => .call (g z hz),
        .call (resolve_ok hcallee)⟩
    · cases h
  · obtain h | ⟨entry, -, h⟩ := bind_eq_error h
    · exact resolve_resumes h (completable_lit (fun _ => .lit) id) ⟨[], _, fun _ _ => .name, trivial⟩
    · cases h
  · rename_i pos rest
    obtain h | ⟨⟨e', s1, r1, hr1⟩, hexpr, h⟩ := bind_eq_error h
    · refine ((ih rest (by simp only [List.length_cons]; omega)).expression h).enclose (p := [_]) ?_
        rfl
      exact fun _ w a g => ⟨w ++ [mark .rparen], a,
        fun z _ => .paren (by rw [List.append_assoc]; exact g _ rfl), id⟩
    obtain h | ⟨_, -, h⟩ := bind_eq_error h
    · -- `)` is missing after the expression
      obtain ⟨a, g, res⟩ := ((exprSound stop rest).expression hexpr).phrase
      obtain ⟨p, hp, cut⟩ := g.cut
      exact (expect_stuck h).resumes (c := _ :: p) (by rw [hp]; rfl)
        ⟨[mark .rparen], a, fun _ _ => .paren (cut _), _, res⟩
    · cases h
  · cases h
    exact (failAt_stuck _).resumes (c := []) rfl (completable_lit (fun _ => .lit) id)

theorem unary_resumes (h : unary stop depth s ts = .error e) :
    Resumes Unary (Resolves s.scopes) ts e := by
  rw [unary.eq_def] at h
  split at h
  · rename_i t rest
    split at h
    · rename_i op hop
      obtain h | ⟨depth', -, h⟩ := bind_eq_error h
      · refine (deeper_stuck h).resumes (c := [t]) rfl
          ⟨[⟨.num 0, Pos.start⟩], .unary op (.lit 0), fun _ _ => ?_, .unary .lit⟩
        exact .prefixed hop (.primary .lit)
      obtain h | ⟨_, -, h⟩ := bind_eq_error h
      · refine ((ih rest (by simp only [List.length_cons]; omega)).unary h).enclose (p := [t]) ?_ rfl
        exact fun _ w a g => ⟨w, .unary op a, fun z hz => .prefixed hop (g z hz),
          .unary⟩
      · cases h
    · exact (primary_resumes ih h).mono .primary
  · exact (primary_resumes ih h).mono .primary

theorem operand_resumes_of_chain {lvl : Level}
    (hchain : ∀ {l : Level} {depth : Nat} {e : Failure}, lvl.tighter? = some l →
      chain stop depth l s ts = .error e → Resumes (Chain l) (Resolves s.scopes) ts e)
    (h : operand stop depth lvl s ts = .error e) :
    Resumes (Operand lvl) (Resolves s.scopes) ts e := by
  rw [operand.eq_def] at h
  split at h
  · rename_i l hl
    exact (hchain hl h).mono (.tighter hl)
  · rename_i hl
    exact (unary_resumes ih h).mono (.unary hl)

theorem chain_resumes {lvl : Level} (h : chain stop depth lvl s ts = .error e) :
    Resumes (Chain lvl) (Resolves s.scopes) ts e := by
  -- by induction from the tightest level out, as for soundness
  induction lvl using Level.tighter_induction generalizing depth e with
  | step lvl ihl =>
    rw [chain.eq_def] at h
    obtain h | ⟨⟨left, s1, r1, hr1⟩, hleft, h⟩ := bind_eq_error h
    · -- the first operand failed
      refine (operand_resumes_of_chain ih (fun hl h => ?_) h).mono (.mk · .nil)
      exact ihl _ hl h
    obtain h | ⟨_, -, h⟩ := bind_eq_error h
    · -- the links after the first operand failed
      have read := (exprSound stop ts).operand hleft
      obtain ⟨a, g, res⟩ := read.phrase
      obtain ⟨p, hp, cut⟩ := g.cut
      have more := (ih r1 hr1).links h read.scopes res
      exact more.enclose (fun _ w b g => ⟨w, b, fun z hz => .mk (cut _) (g z hz), id⟩) hp
    · cases h

theorem operand_resumes {lvl : Level} (h : operand stop depth lvl s ts = .error e) :
    Resumes (Operand lvl) (Resolves s.scopes) ts e :=
  operand_resumes_of_chain ih (fun _ h => chain_resumes ih h) h

theorem expression_resumes (h : expression stop depth s ts = .error e) :
    Resumes (Chain .or) (Resolves s.scopes) ts e := by
  rw [expression.eq_def] at h
  obtain h | ⟨depth', -, h⟩ := bind_eq_error h
  · exact (deeper_stuck h).resumes (c := []) rfl
      (completable_lit (fun _ => .of_unary (.primary .lit) .or) id)
  · exact chain_resumes ih h

theorem arguments_resumes (h : arguments stop depth s ts = .error e) :
    Resumes Args (ResolvesArgs s.scopes) ts e := by
  rw [arguments.eq_def] at h
  obtain h | ⟨⟨e', s1, r1, hr1⟩, hfirst, h⟩ := bind_eq_error h
  · refine (expression_resumes ih h).enclose (p := []) ?_ rfl
    exact fun _ w a g => ⟨w, [a], fun z hz => .one (g z hz), (.cons · .nil)⟩
  have read := (exprSound stop ts).expression hfirst
  obtain ⟨a, g, res⟩ := read.phrase
  dsimp only at h g
  split at h
  · -- a comma: the arguments after it failed
    rename_i pos r2 hlen
    obtain h | ⟨_, -, h⟩ := bind_eq_error h
    · obtain ⟨p, hp, cut⟩ := g.cut
      have more := (ih r2 (by simp only [List.length_cons] at hlen; omega)).arguments h
      rw [read.scopes] at more
      refine more.enclose (p := p ++ [⟨.punct .comma, pos⟩]) ?_ (by simp [hp])
      exact fun _ w as g' => ⟨w, a :: as, fun z hz => by simpa using .cons (cut _) (g' z hz),
        .cons ⟨_, res⟩⟩
    · cases h
  · cases h

theorem call_resumes {callee : Entry} (h : call stop depth callee s ts = .error e) :
    Resumes CallArgs (ResolvesArgs s.scopes) ts e := by
  rw [call.eq_def] at h
  split at h
  · cases h
  · obtain h | ⟨⟨args, s1, r1, hr1⟩, hargs, h⟩ := bind_eq_error h
    · refine (arguments_resumes ih h).enclose (p := []) ?_ rfl
      exact fun _ w as g => ⟨w ++ [mark .rparen], as,
        fun z _ => .some (by rw [List.append_assoc]; exact g _ rfl), id⟩
    obtain h | ⟨_, -, h⟩ := bind_eq_error h
    · -- `)` is missing after the arguments
      obtain ⟨as, g, res⟩ := ((exprSound stop ts).arguments hargs).phrase
      obtain ⟨p, hp, cut⟩ := g.cut
      exact (expect_stuck h).resumes hp ⟨[mark .rparen], as, fun _ _ => .some (cut _), _, res⟩
    · cases h

theorem exprResumes_of_shorter : ExprResumes stop ts :=
  { expression := expression_resumes ih
    chain := chain_resumes ih
    operand := operand_resumes ih
    links := links_resumes ih
    unary := unary_resumes ih
    primary := primary_resumes ih
    arguments := arguments_resumes ih
    call := call_resumes ih }

end

-- Every failed parse of an expression reader consumed a viable prefix of its phrase.
theorem exprResumes (stop : Pos) (ts : List Token) : ExprResumes stop ts := by
  induction ts using tokens_induction with
  | shorter ts ih => exact exprResumes_of_shorter ih

end ScopedC

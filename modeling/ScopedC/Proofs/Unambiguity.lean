import ScopedC.Proofs.Completeness.Stmt
-- Each phrase is determined by its tokens once what may follow it is fixed.
namespace ScopedC

open Parse

namespace Gram

mutual

theorem Chain.unique {lvl : Level} {ts rest rest' : List Token} {e e' : Raw.Expr}
    (g : Chain lvl ts e rest) (g' : Chain lvl ts e' rest') (hend : Ends (lvl.height + 1) rest)
    (hend' : Ends (lvl.height + 1) rest') : e = e' ∧ rest = rest' := by
  match g, g' with
  | .mk o l, .mk o' l' =>
    obtain ⟨rfl, rfl⟩ := o.unique o' (l.ends hend) (l'.ends hend')
    exact l.unique l' hend hend'
termination_by structural g

-- Links stop at the first token that is no operator of their level.
theorem Links.unique {lvl : Level} {acc e e' : Raw.Expr} {ts rest rest' : List Token}
    (g : Links lvl acc ts e rest) (g' : Links lvl acc ts e' rest')
    (hend : Ends (lvl.height + 1) rest) (hend' : Ends (lvl.height + 1) rest') :
    e = e' ∧ rest = rest' := by
  match g, g' with
  | .nil, .nil => exact ⟨rfl, rfl⟩
  | .nil, .cons hop _ _ =>
    rw [hend.1 lvl (by omega)] at hop
    cases hop
  | .cons hop _ _, .nil =>
    rw [hend'.1 lvl (by omega)] at hop
    cases hop
  | .cons hop o l, .cons hop' o' l' =>
    obtain rfl := Option.some.inj (hop.symm.trans hop')
    obtain ⟨rfl, rfl⟩ := o.unique o' (l.ends hend) (l'.ends hend')
    exact l.unique l' hend hend'
termination_by structural g

theorem Operand.unique {lvl : Level} {ts rest rest' : List Token} {e e' : Raw.Expr}
    (g : Operand lvl ts e rest) (g' : Operand lvl ts e' rest') (hend : Ends lvl.height rest)
    (hend' : Ends lvl.height rest') : e = e' ∧ rest = rest' := by
  match g, g' with
  | .tighter hl c, .tighter hl' c' =>
    obtain rfl := Option.some.inj (hl.symm.trans hl')
    have hh := Level.height_of_tighter? hl
    exact c.unique c' (hend.mono (by omega)) (hend'.mono (by omega))
  | .tighter hl _, .unary hl' _ =>
    rw [hl] at hl'
    cases hl'
  | .unary hl _, .tighter hl' _ =>
    rw [hl] at hl'
    cases hl'
  | .unary _ u, .unary _ u' => exact u.unique u' (hend.mono (Nat.zero_le _)) (hend'.mono (Nat.zero_le _))
termination_by structural g

theorem Unary.unique {ts rest rest' : List Token} {e e' : Raw.Expr} (g : Unary ts e rest)
    (g' : Unary ts e' rest') (hend : Ends 0 rest) (hend' : Ends 0 rest') : e = e' ∧ rest = rest' := by
  match g, g' with
  | .prefixed hop u, .prefixed hop' u' =>
    obtain rfl := Option.some.inj (hop.symm.trans hop')
    obtain ⟨rfl, rfl⟩ := u.unique u' hend hend'
    exact ⟨rfl, rfl⟩
  | .prefixed hop _, .primary p =>
    obtain ⟨t, r, h, -, hnone⟩ := p.head
    obtain ⟨rfl, -⟩ := List.cons.inj h
    rw [hnone] at hop
    cases hop
  | .primary p, .prefixed hop _ =>
    obtain ⟨t, r, h, -, hnone⟩ := p.head
    obtain ⟨rfl, -⟩ := List.cons.inj h
    rw [hnone] at hop
    cases hop
  | .primary p, .primary p' => exact p.unique p' rfl hend hend'
termination_by structural g

-- A name is a callee exactly when `(` follows it. The two derivations may start from token
-- lists known to be equal, so that the recursion stays on the first.
theorem Primary.unique {ts ts' rest rest' : List Token} {e e' : Raw.Expr} (g : Primary ts e rest)
    (g' : Primary ts' e' rest') (hts : ts = ts') (hend : Ends 0 rest) (hend' : Ends 0 rest') :
    e = e' ∧ rest = rest' := by
  match g, g' with
  | .lit, .lit =>
    cases hts
    exact ⟨rfl, rfl⟩
  | .name, .name =>
    cases hts
    exact ⟨rfl, rfl⟩
  | .name, .call _ =>
    cases hts
    exact absurd rfl hend.2
  | .call _, .name =>
    cases hts
    exact absurd rfl hend'.2
  | .call a, .call a' =>
    obtain ⟨hf, h⟩ := List.cons.inj hts
    obtain ⟨-, rfl⟩ := List.cons.inj h
    cases hf
    obtain ⟨rfl, rfl⟩ := a.unique a'
    exact ⟨rfl, rfl⟩
  | .paren c, .paren c' =>
    obtain ⟨-, rfl⟩ := List.cons.inj hts
    obtain ⟨rfl, h⟩ := c.unique c' (ends_of_rparen ⟨_, _, rfl⟩) (ends_of_rparen ⟨_, _, rfl⟩)
    obtain ⟨-, rfl⟩ := List.cons.inj h
    exact ⟨rfl, rfl⟩
  | .lit, .name | .lit, .call _ | .lit, .paren _ | .name, .lit | .name, .paren _ | .call _, .lit
  | .call _, .paren _ | .paren _, .lit | .paren _, .name | .paren _, .call _ => cases hts
termination_by structural g

theorem CallArgs.unique {ts rest rest' : List Token} {args args' : List Raw.Expr}
    (g : CallArgs ts args rest) (g' : CallArgs ts args' rest') : args = args' ∧ rest = rest' := by
  match g, g' with
  | .none, .none => exact ⟨rfl, rfl⟩
  | .none, .some a =>
    obtain ⟨t, r, h, hstart⟩ := a.head
    obtain ⟨rfl, -⟩ := List.cons.inj h
    cases hstart
  | .some a, .none =>
    obtain ⟨t, r, h, hstart⟩ := a.head
    obtain ⟨rfl, -⟩ := List.cons.inj h
    cases hstart
  | .some a, .some a' =>
    obtain ⟨rfl, h⟩ := a.unique a' ⟨_, _, rfl⟩ ⟨_, _, rfl⟩
    obtain ⟨-, rfl⟩ := List.cons.inj h
    exact ⟨rfl, rfl⟩
termination_by structural g

-- Arguments go on exactly while a `,` follows.
theorem Args.unique {ts rest rest' : List Token} {args args' : List Raw.Expr}
    (g : Args ts args rest) (g' : Args ts args' rest') (hr : ∃ q r, rest = ⟨.punct .rparen, q⟩ :: r)
    (hr' : ∃ q r, rest' = ⟨.punct .rparen, q⟩ :: r) : args = args' ∧ rest = rest' := by
  match g, g' with
  | .one c, .one c' =>
    obtain ⟨rfl, rfl⟩ := c.unique c' (ends_of_rparen hr) (ends_of_rparen hr')
    exact ⟨rfl, rfl⟩
  | .one c, .cons c' _ =>
    obtain ⟨-, rfl⟩ := c.unique c' (ends_of_rparen hr) (ends_of_closes rfl)
    obtain ⟨q, r, h⟩ := hr
    cases h
  | .cons c _, .one c' =>
    obtain ⟨-, h⟩ := c.unique c' (ends_of_closes rfl) (ends_of_rparen hr')
    obtain ⟨q, r, rfl⟩ := hr'
    cases h
  | .cons c a, .cons c' a' =>
    obtain ⟨rfl, h⟩ := c.unique c' (ends_of_closes rfl) (ends_of_closes rfl)
    obtain ⟨-, rfl⟩ := List.cons.inj h
    obtain ⟨rfl, rfl⟩ := a.unique a' hr hr'
    exact ⟨rfl, rfl⟩
termination_by structural g
end

theorem TypeName.unique {ts r r' : List Token} {ty ty' : Ty} {x x' : String} {p p' : Pos}
    (g : TypeName ts ty (⟨.ident x, p⟩ :: r)) (g' : TypeName ts ty' (⟨.ident x', p'⟩ :: r')) :
    ty = ty' ∧ (⟨.ident x, p⟩ :: r : List Token) = ⟨.ident x', p'⟩ :: r' := by
  obtain ⟨h, hread⟩ := g.readType?_eq
  obtain ⟨h', hread'⟩ := g'.readType?_eq
  rw [hread] at hread'
  simp only [Option.some.injEq, Prod.mk.injEq, Subtype.mk.injEq] at hread'
  exact hread'

theorem Init.unique {ts rest rest' : List Token} {i i' : Option Raw.Expr} (g : Init ts i rest)
    (g' : Init ts i' rest') (hrest : Closed rest) (hrest' : Closed rest') :
    i = i' ∧ rest = rest' := by
  cases g with
  | none =>
    cases g' with
    | none => exact ⟨rfl, rfl⟩
    | some =>
      obtain ⟨c, q, r, h, hc⟩ := hrest
      obtain ⟨h, -⟩ := List.cons.inj h
      cases h
      cases hc
  | some c =>
    cases g' with
    | none =>
      obtain ⟨c, q, r, h, hc⟩ := hrest'
      obtain ⟨h, -⟩ := List.cons.inj h
      cases h
      cases hc
    | some c' =>
      obtain ⟨rfl, rfl⟩ := c.unique c' hrest.ends hrest'.ends
      exact ⟨rfl, rfl⟩

theorem Declarators.unique {ts rest rest' : List Token} {ds ds' : List (String × Option Raw.Expr)}
    (g : Declarators ts ds rest) (g' : Declarators ts ds' rest')
    (hrest : ∃ q r, rest = ⟨.punct .semicolon, q⟩ :: r)
    (hrest' : ∃ q r, rest' = ⟨.punct .semicolon, q⟩ :: r) : ds = ds' ∧ rest = rest' := by
  match g, g' with
  | .one i, .one i' =>
    obtain ⟨q, r, rfl⟩ := hrest
    obtain ⟨q', r', rfl⟩ := hrest'
    obtain ⟨rfl, h⟩ := i.unique i' closed_semicolon closed_semicolon
    exact ⟨rfl, h⟩
  | .one i, .cons i' _ =>
    obtain ⟨q, r, rfl⟩ := hrest
    obtain ⟨-, h⟩ := i.unique i' closed_semicolon closed_comma
    cases h
  | .cons i _, .one i' =>
    obtain ⟨q, r, rfl⟩ := hrest'
    obtain ⟨-, h⟩ := i.unique i' closed_comma closed_semicolon
    cases h
  | .cons i more, .cons i' more' =>
    obtain ⟨rfl, h⟩ := i.unique i' closed_comma closed_comma
    obtain ⟨-, rfl⟩ := List.cons.inj h
    obtain ⟨rfl, rfl⟩ := more.unique more' hrest hrest'
    exact ⟨rfl, rfl⟩

theorem Params.unique {ts rest rest' : List Token} {ps ps' : List Raw.Param}
    (g : Params ts ps rest) (g' : Params ts ps' rest')
    (hrest : ∃ q r, rest = ⟨.punct .rparen, q⟩ :: r)
    (hrest' : ∃ q r, rest' = ⟨.punct .rparen, q⟩ :: r) : ps = ps' ∧ rest = rest' := by
  match g, g' with
  | .one ty i, .one ty' i' =>
    obtain ⟨rfl, h⟩ := ty.unique ty'
    obtain ⟨⟨⟩, rfl⟩ := List.cons.inj h
    obtain ⟨q, r, rfl⟩ := hrest
    obtain ⟨q', r', rfl⟩ := hrest'
    obtain ⟨rfl, h⟩ := i.unique i' closed_rparen closed_rparen
    exact ⟨rfl, h⟩
  | .one ty i, .cons ty' i' _ =>
    obtain ⟨-, h⟩ := ty.unique ty'
    obtain ⟨⟨⟩, rfl⟩ := List.cons.inj h
    obtain ⟨q, r, rfl⟩ := hrest
    obtain ⟨-, h⟩ := i.unique i' closed_rparen closed_comma
    cases h
  | .cons ty i _, .one ty' i' =>
    obtain ⟨-, h⟩ := ty.unique ty'
    obtain ⟨⟨⟩, rfl⟩ := List.cons.inj h
    obtain ⟨q, r, rfl⟩ := hrest'
    obtain ⟨-, h⟩ := i.unique i' closed_comma closed_rparen
    cases h
  | .cons ty i more, .cons ty' i' more' =>
    obtain ⟨rfl, h⟩ := ty.unique ty'
    obtain ⟨⟨⟩, rfl⟩ := List.cons.inj h
    obtain ⟨rfl, h⟩ := i.unique i' closed_comma closed_comma
    obtain ⟨-, rfl⟩ := List.cons.inj h
    obtain ⟨rfl, rfl⟩ := more.unique more' hrest hrest'
    exact ⟨rfl, rfl⟩

theorem ParamList.unique {ts rest rest' : List Token} {ps ps' : List Raw.Param}
    (g : ParamList ts ps rest) (g' : ParamList ts ps' rest')
    (hrest : ∃ q r, rest = ⟨.punct .rparen, q⟩ :: r)
    (hrest' : ∃ q r, rest' = ⟨.punct .rparen, q⟩ :: r) : ps = ps' ∧ rest = rest' := by
  cases g with
  | none =>
    cases g' with
    | none => exact ⟨rfl, rfl⟩
    | some params =>
      obtain ⟨t, r, h, ht⟩ := params.head
      obtain ⟨rfl, -⟩ := List.cons.inj h
      exact absurd rfl ht
  | some params =>
    cases g' with
    | none =>
      obtain ⟨t, r, h, ht⟩ := params.head
      obtain ⟨rfl, -⟩ := List.cons.inj h
      exact absurd rfl ht
    | some params' => exact params.unique params' hrest hrest'

-- The kind of statement a token starts: a type starts a declaration or a function definition,
-- an `if` either form of `if`, and anything else that starts a statement an assignment or an
-- expression statement.
def leadKind : TokenKind → Nat
  | .keyword .intKw | .keyword .voidKw | .keyword .constKw => 0
  | .punct .lbrace => 1
  | .keyword .ifKw => 2
  | .keyword .whileKw => 3
  | .keyword .returnKw => 4
  | .keyword .breakKw => 5
  | .keyword .continueKw => 6
  | .punct .semicolon => 8
  | _ => 7

def stmtKind : Raw.Stmt → Nat
  | .decl .. | .funcDef .. => 0
  | .block _ => 1
  | .ifThen .. | .ifElse .. => 2
  | .whileLoop .. => 3
  | .returnValue _ => 4
  | .breakLoop => 5
  | .continueLoop => 6
  | .assign .. | .exprStmt _ => 7
  | .empty => 8

-- An expression starts with a literal, a name, `(` or a prefix operator, none of which starts
-- another kind of statement.
theorem leadKind_of_startsExpr {k : TokenKind} (h : startsExpr k = true) : leadKind k = 7 := by
  rcases k with _ | _ | kw | p | _
  · rfl
  · rfl
  · cases kw <;> simp [startsExpr, prefixOp?] at h
  · cases p <;> simp_all [startsExpr, prefixOp?, leadKind]
  · simp [startsExpr, prefixOp?] at h

theorem Statement.kind_eq {ts rest : List Token} {raw : Raw.Stmt} (g : Statement ts raw rest) :
    ∃ t r, ts = t :: r ∧ stmtKind raw = leadKind t.kind := by
  cases g with
  | decl ty _ | funcDef ty _ _ => cases ty <;> exact ⟨_, _, rfl, rfl⟩
  | block b =>
    cases b
    exact ⟨_, _, rfl, rfl⟩
  | exprStmt c =>
    obtain ⟨t, r, rfl, hs⟩ := c.head
    exact ⟨t, r, rfl, (leadKind_of_startsExpr hs).symm⟩
  | ifThen | ifElse | whileLoop | returnValue | breakLoop | continueLoop | assign | empty =>
    exact ⟨_, _, rfl, rfl⟩

mutual

-- The two derivations start from token lists known to be equal, so that the recursion stays on
-- the first; statements of different kinds start with different tokens.
theorem Statement.unique {ts ts' rest rest' : List Token} {raw raw' : Raw.Stmt}
    (g : Statement ts raw rest) (g' : Statement ts' raw' rest') (hts : ts = ts') :
    raw = raw' ∧ rest = rest' := by
  have hkind : stmtKind raw = stmtKind raw' := by
    obtain ⟨t, r, rfl, h⟩ := g.kind_eq
    obtain ⟨t', r', h', h''⟩ := g'.kind_eq
    rw [← hts] at h'
    obtain ⟨rfl, -⟩ := List.cons.inj h'
    rw [h, h'']
  -- the second derivation is taken apart by cases: of its rules only those of the same kind
  -- as the first's remain
  match g with
  | .decl ty ds =>
    cases g' <;> simp [stmtKind] at hkind
    case decl =>
      rename_i ty' ds'
      subst hts
      obtain ⟨x, p, r, rfl, -⟩ := ds.head ⟨_, _, rfl⟩
      obtain ⟨x', p', r', rfl, -⟩ := ds'.head ⟨_, _, rfl⟩
      obtain ⟨rfl, h⟩ := ty.unique ty'
      cases h
      obtain ⟨rfl, h⟩ := ds.unique ds' ⟨_, _, rfl⟩ ⟨_, _, rfl⟩
      cases h
      exact ⟨rfl, rfl⟩
    case funcDef =>
      -- a declaration's first name is not followed by `(`
      rename_i _ ty' _
      subst hts
      obtain ⟨x, p, r, rfl, hnot⟩ := ds.head ⟨_, _, rfl⟩
      obtain ⟨-, h⟩ := ty.unique ty'
      obtain ⟨-, rfl⟩ := List.cons.inj h
      cases hnot
  | .funcDef ty ps b =>
    cases g' <;> simp [stmtKind] at hkind
    case decl =>
      rename_i ty' ds'
      subst hts
      obtain ⟨x, p, r, rfl, hnot⟩ := ds'.head ⟨_, _, rfl⟩
      obtain ⟨-, h⟩ := ty.unique ty'
      obtain ⟨-, h⟩ := List.cons.inj h
      rw [← h] at hnot
      cases hnot
    case funcDef =>
      rename_i ps' ty' b'
      subst hts
      obtain ⟨rfl, h⟩ := ty.unique ty'
      obtain ⟨hf, h⟩ := List.cons.inj h
      obtain ⟨-, rfl⟩ := List.cons.inj h
      cases hf
      obtain ⟨rfl, h⟩ := ps.unique ps' ⟨_, _, rfl⟩ ⟨_, _, rfl⟩
      obtain ⟨-, rfl⟩ := List.cons.inj h
      obtain ⟨rfl, rfl⟩ := b.unique b' rfl
      exact ⟨rfl, rfl⟩
  | .block b =>
    cases g' <;> simp [stmtKind] at hkind
    rename_i b'
    obtain ⟨rfl, rfl⟩ := b.unique b' hts
    exact ⟨rfl, rfl⟩
  | .ifThen c t noElse =>
    cases g' <;> simp [stmtKind] at hkind
    all_goals
      rename_i c' t' _
      obtain ⟨-, h⟩ := List.cons.inj hts
      obtain ⟨-, rfl⟩ := List.cons.inj h
      obtain ⟨rfl, h⟩ := c.unique c' closed_rparen.ends closed_rparen.ends
      obtain ⟨-, rfl⟩ := List.cons.inj h
    case ifThen =>
      obtain ⟨rfl, rfl⟩ := t.unique t' rfl
      exact ⟨rfl, rfl⟩
    case ifElse =>
      -- the branch would end before an `else`
      obtain ⟨-, rfl⟩ := t.unique t' rfl
      cases noElse
  | .ifElse c t e =>
    cases g' <;> simp [stmtKind] at hkind
    all_goals
      rename_i c' t' e'
      obtain ⟨-, h⟩ := List.cons.inj hts
      obtain ⟨-, rfl⟩ := List.cons.inj h
      obtain ⟨rfl, h⟩ := c.unique c' closed_rparen.ends closed_rparen.ends
      obtain ⟨-, rfl⟩ := List.cons.inj h
    case ifThen =>
      obtain ⟨-, rfl⟩ := t.unique t' rfl
      cases e'
    case ifElse =>
      obtain ⟨rfl, h⟩ := t.unique t' rfl
      obtain ⟨-, rfl⟩ := List.cons.inj h
      obtain ⟨rfl, rfl⟩ := e.unique e' rfl
      exact ⟨rfl, rfl⟩
  | .whileLoop c b =>
    cases g' <;> simp [stmtKind] at hkind
    rename_i c' b'
    obtain ⟨-, h⟩ := List.cons.inj hts
    obtain ⟨-, rfl⟩ := List.cons.inj h
    obtain ⟨rfl, h⟩ := c.unique c' closed_rparen.ends closed_rparen.ends
    obtain ⟨-, rfl⟩ := List.cons.inj h
    obtain ⟨rfl, rfl⟩ := b.unique b' rfl
    exact ⟨rfl, rfl⟩
  | .returnValue c =>
    cases g' <;> simp [stmtKind] at hkind
    rename_i c'
    obtain ⟨-, rfl⟩ := List.cons.inj hts
    obtain ⟨rfl, h⟩ := c.unique c' closed_semicolon.ends closed_semicolon.ends
    obtain ⟨-, rfl⟩ := List.cons.inj h
    exact ⟨rfl, rfl⟩
  | .breakLoop | .continueLoop =>
    cases g' <;> simp [stmtKind] at hkind
    obtain ⟨-, h⟩ := List.cons.inj hts
    obtain ⟨-, rfl⟩ := List.cons.inj h
    exact ⟨rfl, rfl⟩
  | .empty =>
    cases g' <;> simp [stmtKind] at hkind
    obtain ⟨-, rfl⟩ := List.cons.inj hts
    exact ⟨rfl, rfl⟩
  | .assign c =>
    cases g' <;> simp [stmtKind] at hkind
    case assign =>
      rename_i c'
      obtain ⟨hx, h⟩ := List.cons.inj hts
      obtain ⟨-, rfl⟩ := List.cons.inj h
      cases hx
      obtain ⟨rfl, h⟩ := c.unique c' closed_semicolon.ends closed_semicolon.ends
      obtain ⟨-, rfl⟩ := List.cons.inj h
      exact ⟨rfl, rfl⟩
    case exprStmt =>
      -- after `name =` an expression ends at the `=`
      rename_i c'
      subst hts
      cases c'.rest_of_assign rfl
  | .exprStmt c =>
    cases g' <;> simp [stmtKind] at hkind
    case assign =>
      rename_i c'
      subst hts
      cases c.rest_of_assign rfl
    case exprStmt =>
      rename_i c'
      subst hts
      obtain ⟨rfl, h⟩ := c.unique c' closed_semicolon.ends closed_semicolon.ends
      obtain ⟨-, rfl⟩ := List.cons.inj h
      exact ⟨rfl, rfl⟩

theorem Block.unique {ts ts' rest rest' : List Token} {items items' : List Raw.Stmt}
    (g : Block ts items rest) (g' : Block ts' items' rest') (hts : ts = ts') :
    items = items' ∧ rest = rest' := by
  cases g with
  | mk gi =>
    cases g' with
    | mk gi' =>
      obtain ⟨-, h⟩ := List.cons.inj hts
      obtain ⟨rfl, h⟩ := gi.unique gi' h (.inr ⟨_, _, rfl⟩) (.inr ⟨_, _, rfl⟩)
      obtain ⟨-, rfl⟩ := List.cons.inj h
      exact ⟨rfl, rfl⟩

-- Statements go on up to the `}` or the end of the input, where none starts.
theorem Items.unique {ts ts' rest rest' : List Token} {items items' : List Raw.Stmt}
    (g : Items ts items rest) (g' : Items ts' items' rest') (hts : ts = ts')
    (hrest : EndsItems rest) (hrest' : EndsItems rest') : items = items' ∧ rest = rest' := by
  cases g with
  | nil =>
    cases g' with
    | nil => exact ⟨rfl, hts⟩
    | cons st' _ =>
      obtain ⟨t, r, rfl, ht⟩ := st'.head
      subst hts
      rcases hrest with h | ⟨q, r', h⟩ <;> cases h
      exact absurd rfl ht
  | cons st more =>
    cases g' with
    | nil =>
      obtain ⟨t, r, rfl, ht⟩ := st.head
      rcases hrest' with h | ⟨q, r', h⟩ <;> rw [← hts] at h <;> cases h
      exact absurd rfl ht
    | cons st' more' =>
      obtain ⟨rfl, rfl⟩ := st.unique st' hts
      obtain ⟨rfl, rfl⟩ := more.unique more' rfl hrest hrest'
      exact ⟨rfl, rfl⟩

end

-- A token list is a sentence in one way only.
theorem Sentence.unique {ts : List Token} {items items' : List Raw.Stmt} (g : Sentence ts items)
    (g' : Sentence ts items') : items = items' :=
  (g.1.unique g'.1 rfl (.inl rfl) (.inl rfl)).1

end Gram

end ScopedC

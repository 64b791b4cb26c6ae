import ScopedC.Proofs.Completeness.Expr
import ScopedC.Proofs.Soundness.Stmt
import ScopedC.Program
namespace ScopedC

open Parse

theorem Completes.ok_bind {α β : Type} {P : Prop} {B : Nat} {g : β → Prop} {a : α}
    {f : α → Except Failure β} (h : Completes P B g (f a)) :
    Completes P B g (Except.ok a >>= f) :=
  h

-- A parse that read exactly up to `rest` and gave a value that `R` accepts together with the
-- scopes and the declaration number it ended with.
def Settles {β : Type} (rest : List Token) (R : β → Scopes Entry → Nat → Prop) (v : β)
    (s' : ParseState) (rest' : List Token) : Prop :=
  rest' = rest ∧ R v s'.scopes s'.decls

-- The parameters of a definition that resolves can be read as formals.
theorem readFormals_of_defaults {env : Scopes Entry} :
    ∀ {ps : List Raw.Param} {dflts : List (Option Expr)},
      List.Forall₂ (fun p dflt => Option.Rel (ResolvedExpr env) p.default dflt) ps dflts →
      ∃ fs, List.Forall₂ (ReadFormal env) ps fs
  | [], [], .nil => ⟨[], .nil⟩
  | p :: _, dflt :: _, .cons hp more => by
    obtain ⟨fs, hfs⟩ := readFormals_of_defaults more
    exact ⟨⟨p.name, p.ty, dflt⟩ :: fs, .cons ⟨rfl, rfl, hp⟩ hfs⟩

namespace Gram

variable {stop : Pos} {B : Nat}

-- Before a name, the type reader reads exactly the type of the grammar: `const` takes the
-- `int` after it only when one follows.
theorem TypeName.readType?_eq {ts r : List Token} {ty : Ty} {x : String} {p : Pos}
    (g : TypeName ts ty (⟨.ident x, p⟩ :: r)) :
    ∃ h, readType? ts = some (ty, ⟨⟨.ident x, p⟩ :: r, h⟩) := by
  cases g <;> exact ⟨_, rfl⟩

theorem TypeName.type_eq {ts r : List Token} {ty : Ty} {x : String} {p : Pos}
    (g : TypeName ts ty (⟨.ident x, p⟩ :: r)) (stop : Pos) (s : ParseState) :
    ∃ h, type stop s ts = .ok (ty, ⟨⟨.ident x, p⟩ :: r, h⟩) := by
  obtain ⟨h, hr⟩ := g.readType?_eq
  exact ⟨h, by rw [type, hr]⟩

-- After a type and a name, a function definition is told from a declaration by the `(`.
theorem TypeName.startsFunction_eq {ts r : List Token} {ty : Ty} {x : String} {p : Pos}
    (g : TypeName ts ty (⟨.ident x, p⟩ :: r)) : startsFunction ts = atPunct .lparen r := by
  obtain ⟨h, hr⟩ := g.readType?_eq
  unfold startsFunction
  rw [hr]
  dsimp only
  split
  · rename_i heq
    simp only [List.cons.injEq] at heq
    obtain ⟨-, rfl⟩ := heq
    rfl
  · rename_i hne
    cases r with
    | nil => rfl
    | cons t r =>
      simp only [atPunct]
      refine (decide_eq_false fun hk => ?_).symm
      obtain ⟨k, q⟩ := t
      cases hk
      exact hne _ _ _ _ rfl

theorem TypeName.head {ts rest : List Token} {ty : Ty} (g : TypeName ts ty rest) :
    ∃ k p r, ts = ⟨.keyword k, p⟩ :: r := by
  cases g <;> exact ⟨_, _, _, rfl⟩

theorem Params.head {ts rest : List Token} {ps : List Raw.Param} (g : Params ts ps rest) :
    ∃ t r, ts = t :: r ∧ t.kind ≠ .punct .rparen := by
  have ⟨k, p, r, hts⟩ : ∃ k p r, ts = ⟨.keyword k, p⟩ :: r := by
    cases g with
    | one ty _ | cons ty _ _ => exact ty.head
  exact ⟨_, _, hts, nofun⟩

-- What may follow an initializer: a mark that closes it.
def Closed (rest : List Token) : Prop :=
  ∃ c q r, rest = ⟨.punct c, q⟩ :: r ∧ c.closes = true

theorem Closed.ends {h : Nat} {rest : List Token} (hc : Closed rest) : Ends h rest := by
  obtain ⟨c, q, r, rfl, hc⟩ := hc
  exact ends_of_closes hc

theorem Init.completes {ts rest : List Token} {i : Option Raw.Expr} (g : Init ts i rest)
    (hrest : Closed rest) (depth : Nat) (hB : depth + 1 + ts.length ≤ B) (s : ParseState)
    {env : Scopes Entry} {d : Nat} (hs : s.scopes = env) (hd : s.decls = d) :
    Completes (∃ v, Option.Rel (ResolvedExpr env) i v) B
      (fun r : Steps ts (Option Expr) =>
        Lands env d rest (Option.Rel (ResolvedExpr env) i) r.value r.state r.rest)
      (initializer stop depth s ts) := by
  cases g with
  | none =>
    obtain ⟨c, q, r, rfl, hc⟩ := hrest
    -- a closing mark is no `=`, so nothing is read
    rw [initializer.eq_2 _ _ _ _ fun pos r' h => by cases h; cases hc]
    exact .pure ⟨rfl, hs, hd, .none⟩
  | some c =>
    rw [initializer.eq_1]
    simp only [List.length_cons] at hB
    refine (c.expression_completes hrest.ends depth (by omega) s hs hd).bind (fun hq => ?_) ?_
    · obtain ⟨v, hv⟩ := hq
      cases hv with
      | some hv => exact ⟨_, hv⟩
    rintro ⟨e, s1, r1, hr1⟩ ⟨rfl, hs1, hd1, hres⟩
    exact .pure ⟨rfl, hs1, hd1, .some hres⟩

theorem closed_comma {q : Pos} {r : List Token} : Closed (⟨.punct .comma, q⟩ :: r) :=
  ⟨_, _, _, rfl, rfl⟩

theorem closed_semicolon {q : Pos} {r : List Token} : Closed (⟨.punct .semicolon, q⟩ :: r) :=
  ⟨_, _, _, rfl, rfl⟩

theorem closed_rparen {q : Pos} {r : List Token} : Closed (⟨.punct .rparen, q⟩ :: r) :=
  ⟨_, _, _, rfl, rfl⟩

-- Declarators are inserted by name into `acc` as they are read, and end at the `;`.
theorem Declarators.completes {ts rest : List Token} {ds : List (String × Option Raw.Expr)}
    (g : Declarators ts ds rest) (hrest : ∃ q r, rest = ⟨.punct .semicolon, q⟩ :: r)
    (depth : Nat) (hB : depth + 1 + ts.length ≤ B) (s : ParseState)
    (acc : List (String × Option Expr)) {env : Scopes Entry} {d : Nat} (hs : s.scopes = env)
    (hd : s.decls = d) :
    Completes (∃ ds', List.Forall₂ (ResolvedDeclarator env) ds ds') B
      (fun r : Step ts (List (String × Option Expr)) => Lands env d rest
        (fun v => ∃ ds', List.Forall₂ (ResolvedDeclarator env) ds ds' ∧
          v = ds'.foldl (fun acc x => insertByName x.1 x.2 acc) acc) r.value r.state r.rest)
      (declarators stop depth s ts acc) := by
  match g with
  | .one i =>
    obtain ⟨q, r, rfl⟩ := hrest
    rw [declarators.eq_def, expectIdent_cons]
    simp only [List.length_cons] at hB
    refine (i.completes closed_semicolon depth (by omega) s hs hd).bind (fun hq => ?_) ?_
    · obtain ⟨ds', hds'⟩ := hq
      cases hds' with
      | cons hx _ => exact ⟨_, hx.2⟩
    rintro ⟨i', s1, r1, hr1⟩ ⟨rfl, hs1, hd1, hres⟩
    -- `;` follows: this was the last declarator
    exact .pure ⟨rfl, hs1, hd1, [(_, i')], .cons ⟨rfl, hres⟩ .nil, rfl⟩
  | .cons i more =>
    simp only [List.length_cons] at hB
    have later := more.completes hrest depth
      (by have := i.suffix.length_le; simp only [List.length_cons] at this; omega)
    rw [declarators.eq_def, expectIdent_cons]
    refine (i.completes closed_comma depth (by omega) s hs hd).bind (fun hq => ?_) ?_
    · obtain ⟨ds', hds'⟩ := hq
      cases hds' with
      | cons hx _ => exact ⟨_, hx.2⟩
    rintro ⟨i', s1, r1, hr1⟩ ⟨rfl, hs1, hd1, hres⟩
    dsimp only
    refine (later s1 _ hs1 hd1).bind (fun hq => ?_) ?_
    · obtain ⟨ds', hds'⟩ := hq
      cases hds' with
      | cons _ hmore => exact ⟨_, hmore⟩
    rintro ⟨acc', s2, r2, hr2⟩ ⟨rfl, hs2, hd2, ds', hrel, rfl⟩
    exact .pure ⟨rfl, hs2, hd2, (_, i') :: ds', .cons ⟨rfl, hres⟩ hrel, rfl⟩

theorem Params.completes {ts rest : List Token} {ps : List Raw.Param} (g : Params ts ps rest)
    (hrest : ∃ q r, rest = ⟨.punct .rparen, q⟩ :: r) (depth : Nat)
    (hB : depth + 1 + ts.length ≤ B) (s : ParseState) {env : Scopes Entry} {d : Nat}
    (hs : s.scopes = env) (hd : s.decls = d) :
    Completes (∃ fs, List.Forall₂ (ReadFormal env) ps fs) B
      (fun r : Step ts (List Formal) =>
        Lands env d rest (List.Forall₂ (ReadFormal env) ps) r.value r.state r.rest)
      (formals stop depth s ts) := by
  match g with
  | .one ty i =>
    obtain ⟨q, r, rfl⟩ := hrest
    obtain ⟨h, hty⟩ := ty.type_eq stop s
    rw [formals.eq_def, hty]
    refine Completes.ok_bind ?_
    dsimp only
    rw [expectIdent_cons]
    have hlen := ty.suffix.length_le
    simp only [List.length_cons] at hlen
    refine (i.completes closed_rparen depth (by omega) s hs hd).bind (fun hq => ?_) ?_
    · obtain ⟨fs, hfs⟩ := hq
      cases hfs with
      | cons hx _ => exact ⟨_, hx.2.2⟩
    rintro ⟨i', s1, r1, hr1⟩ ⟨rfl, hs1, hd1, hres⟩
    exact .pure ⟨rfl, hs1, hd1, .cons ⟨rfl, rfl, hres⟩ .nil⟩
  | .cons ty i more =>
    have hty := ty.suffix.length_le
    have hi := i.suffix.length_le
    simp only [List.length_cons] at hty hi
    have later := more.completes hrest depth (by omega)
    obtain ⟨h, htype⟩ := ty.type_eq stop s
    rw [formals.eq_def, htype]
    refine Completes.ok_bind ?_
    dsimp only
    rw [expectIdent_cons]
    refine (i.completes closed_comma depth (by omega) s hs hd).bind (fun hq => ?_) ?_
    · obtain ⟨fs, hfs⟩ := hq
      cases hfs with
      | cons hx _ => exact ⟨_, hx.2.2⟩
    rintro ⟨i', s1, r1, hr1⟩ ⟨rfl, hs1, hd1, hres⟩
    dsimp only
    refine (later s1 hs1 hd1).bind (fun hq => ?_) ?_
    · obtain ⟨fs, hfs⟩ := hq
      cases hfs with
      | cons _ hmore => exact ⟨_, hmore⟩
    rintro ⟨fs, s2, r2, hr2⟩ ⟨rfl, hs2, hd2, hrel⟩
    exact .pure ⟨rfl, hs2, hd2, .cons ⟨rfl, rfl, hres⟩ hrel⟩

theorem ParamList.completes {ts rest : List Token} {ps : List Raw.Param}
    (g : ParamList ts ps rest) (hrest : ∃ q r, rest = ⟨.punct .rparen, q⟩ :: r) (depth : Nat)
    (hB : depth + 1 + ts.length ≤ B) (s : ParseState) {env : Scopes Entry} {d : Nat}
    (hs : s.scopes = env) (hd : s.decls = d) :
    Completes (∃ fs, List.Forall₂ (ReadFormal env) ps fs) B
      (fun r : Steps ts (List Formal) =>
        Lands env d rest (List.Forall₂ (ReadFormal env) ps) r.value r.state r.rest)
      (formalsOrNone stop depth s ts) := by
  cases g with
  | none =>
    rw [formalsOrNone, if_pos (by simp [atPunct])]
    exact .pure ⟨rfl, hs, hd, .nil⟩
  | some params =>
    -- parameters start with a type, not with `)`
    obtain ⟨t, r, rfl, ht⟩ := params.head
    rw [formalsOrNone, if_neg (by simp [atPunct, ht])]
    refine (params.completes hrest depth hB s hs hd).bind id ?_
    rintro ⟨fs, s1, r1, hr1⟩ ⟨rfl, hs1, hd1, hrel⟩
    exact .pure ⟨rfl, hs1, hd1, hrel⟩

theorem Init.not_lparen {ts rest : List Token} {i : Option Raw.Expr} (g : Init ts i rest)
    (hrest : Closed rest) : atPunct .lparen ts = false := by
  cases g with
  | none =>
    obtain ⟨c, q, r, rfl, hc⟩ := hrest
    simp only [atPunct, decide_eq_false_iff_not, TokenKind.punct.injEq]
    rintro rfl
    cases hc
  | some => rfl

-- A declaration's first name is followed by `=`, `,` or `;`, never by `(`.
theorem Declarators.head {ts rest : List Token} {ds : List (String × Option Raw.Expr)}
    (g : Declarators ts ds rest) (hrest : ∃ q r, rest = ⟨.punct .semicolon, q⟩ :: r) :
    ∃ x p r, ts = ⟨.ident x, p⟩ :: r ∧ atPunct .lparen r = false := by
  cases g with
  | one i =>
    obtain ⟨q, r, rfl⟩ := hrest
    exact ⟨_, _, _, rfl, i.not_lparen closed_semicolon⟩
  | cons i _ => exact ⟨_, _, _, rfl, i.not_lparen closed_comma⟩

mutual

-- A chain that starts with `name =` is the name alone: `=` is no operator.
theorem Chain.rest_of_assign {lvl : Level} {ts rest r : List Token} {e : Raw.Expr} {x : String}
    {p q : Pos} (g : Chain lvl ts e rest) (hts : ts = ⟨.ident x, p⟩ :: ⟨.punct .assign, q⟩ :: r) :
    rest = ⟨.punct .assign, q⟩ :: r := by
  match g with
  | .mk o l =>
    have hmid := o.rest_of_assign hts
    cases l with
    | nil => exact hmid
    | cons hop _ _ =>
      cases hmid
      cases lvl <;> cases hop

theorem Operand.rest_of_assign {lvl : Level} {ts rest r : List Token} {e : Raw.Expr} {x : String}
    {p q : Pos} (g : Operand lvl ts e rest) (hts : ts = ⟨.ident x, p⟩ :: ⟨.punct .assign, q⟩ :: r) :
    rest = ⟨.punct .assign, q⟩ :: r := by
  match g with
  | .tighter _ c => exact c.rest_of_assign hts
  | .unary _ (.prefixed hop _) =>
    cases hts
    cases hop
  | .unary _ (.primary pr) =>
    cases pr <;> cases hts
    rfl

end

-- Every statement starts with a token, and none with `}`.
theorem Statement.head {ts rest : List Token} {raw : Raw.Stmt} (g : Statement ts raw rest) :
    ∃ t r, ts = t :: r ∧ t.kind ≠ .punct .rbrace := by
  cases g with
  | decl ty _ | funcDef ty _ _ =>
    obtain ⟨k, p, r, rfl⟩ := ty.head
    exact ⟨_, _, rfl, nofun⟩
  | block b =>
    cases b
    exact ⟨_, _, rfl, nofun⟩
  | exprStmt c =>
    obtain ⟨t, r, rfl, ht⟩ := c.head
    refine ⟨t, r, rfl, fun hk => ?_⟩
    rw [hk] at ht
    cases ht
  | ifThen | ifElse | whileLoop | returnValue | breakLoop | continueLoop | assign | empty =>
    exact ⟨_, _, rfl, nofun⟩

end Gram

section

variable {stop : Pos} {depth : Nat} {s : ParseState} {ts : List Token}

theorem statement_tooDeep {P : Prop} {B : Nat} {g : Step ts Stmt → Prop}
    (h : ¬ depth < nestingLimit) (hB : depth + ts.length ≤ B) :
    Completes P B g (statement stop depth s ts) := by
  rw [statement.eq_def, if_neg h]
  exact .inr ⟨_, rfl, .inl ⟨⟨_, rfl⟩, by dsimp only [failAt]; omega⟩⟩

theorem statement_of_typeName {ty : Ty} {r : List Token} (hdepth : depth < nestingLimit)
    (g : Gram.TypeName ts ty r) :
    statement stop depth s ts = if startsFunction ts then funcDef stop (depth + 1) s ts
      else declaration stop (depth + 1) s ts := by
  cases g <;> rw [statement.eq_def, if_pos hdepth]

-- A statement that starts as an expression does, other than with `name =`, is an expression
-- statement.
theorem statement_of_startsExpr {t : Token} {r : List Token} (hdepth : depth < nestingLimit)
    (hstart : Gram.startsExpr t.kind = true)
    (hassign : ∀ x, t.kind = .ident x → atPunct .assign r = false) :
    statement stop depth s (t :: r) = exprStatement stop (depth + 1) s (t :: r) := by
  rw [statement.eq_def, if_pos hdepth]
  obtain ⟨k, p⟩ := t
  cases k with
  | ident x =>
    have hr := hassign x rfl
    cases r with
    | nil => rfl
    | cons a r' =>
      simp only [atPunct, decide_eq_false_iff_not] at hr
      exact if_neg hr
  | num v => rfl
  | punct c =>
    -- `(` and the prefix operators fall through to the expression statement; no other mark
    -- starts an expression
    cases c <;> simp [Gram.startsExpr, prefixOp?] at hstart <;> rfl
  | keyword k => cases k <;> cases hstart
  | eof => cases hstart

end

-- Closing the parameters' scope goes back to the scopes the parameters were declared inside.
theorem exit_after_params {sc envP : Scopes Entry} {d dP : Nat} {ps : List Raw.Param}
    {dflts : List (Option Expr)} {ps' : List Param} {s : ParseState}
    (declared : DeclaredParams sc.enter d ps dflts ps' envP dP) (hs : s.scopes = envP)
    (ts : List Token) : ∃ s', s.exit ts = .ok s' ∧ s'.scopes = sc ∧ s'.decls = s.decls := by
  have outer : s.scopes.outer = sc.top :: sc.outer := by
    rw [hs, declaredParams_frame declared]
    rfl
  exact exit_of_outer ts outer

-- The statement parser at depth `depth` completes on `ts` for the statement `raw` of the
-- grammar, which ends before `rest`, from every state, within the bound `B`.
def StmtCompletes (stop : Pos) (B depth : Nat) (ts : List Token) (raw : Raw.Stmt)
    (rest : List Token) : Prop :=
  depth + 2 + ts.length ≤ B → ∀ (s : ParseState) {env : Scopes Entry} {d : Nat},
    s.scopes = env → s.decls = d →
    Completes (∃ v env' d', ResolvedStmt env d raw v env' d') B
      (fun r : Step ts Stmt => Settles rest (ResolvedStmt env d raw) r.value r.state r.rest)
      (statement stop depth s ts)

-- The same for the block parser and the block `items`.
def BlockCompletes (stop : Pos) (B depth : Nat) (ts : List Token) (items : List Raw.Stmt)
    (rest : List Token) : Prop :=
  depth + 1 + ts.length ≤ B → ∀ (s : ParseState) {env : Scopes Entry} {d : Nat},
    s.scopes = env → s.decls = d →
    Completes (∃ v env' d', ResolvedBlock env d items v env' d') B
      (fun r : Step ts Stmt => Settles rest (ResolvedBlock env d items) r.value r.state r.rest)
      (block stop depth s ts)

section

variable {stop : Pos} {B depth : Nat} {ts rest : List Token}

theorem decl_completes {ty : Ty} {ds : List (String × Option Raw.Expr)} {p : Pos} {r : List Token}
    (hdepth : depth < nestingLimit) (gty : Gram.TypeName ts ty r)
    (gds : Gram.Declarators r ds (⟨.punct .semicolon, p⟩ :: rest)) :
    StmtCompletes stop B depth ts (.decl ty ds) rest := by
  intro hB s env d hs hd
  -- no `(` after the first name: a declaration
  obtain ⟨x, q, r', rfl, hnot⟩ := gds.head ⟨_, _, rfl⟩
  rw [statement_of_typeName hdepth gty, gty.startsFunction_eq, hnot, if_neg Bool.false_ne_true,
    declaration]
  obtain ⟨h, hty⟩ := gty.type_eq stop s
  rw [hty]
  refine Completes.ok_bind ?_
  dsimp only
  have hlen := gty.suffix.length_le
  refine (gds.completes ⟨_, _, rfl⟩ (depth + 1) (by omega) s [] hs hd).bind (fun hq => ?_) ?_
  · obtain ⟨v, env', d', hv⟩ := hq
    cases hv with
    | decl hrel _ => exact ⟨_, hrel⟩
  rintro ⟨items, s1, r1, hr1⟩ ⟨rfl, hs1, hd1, ds', hrel, rfl⟩
  dsimp only
  rw [expect_cons]
  refine Completes.ok_bind ?_
  -- the names are declared after every initializer is read
  have declared :=
    declareAll_declared ty (ds'.foldl (fun acc x => insertByName x.1 x.2 acc) []) s1
  rw [hs1, hd1] at declared
  exact .pure ⟨rfl, .decl hrel declared⟩

theorem funcDef_completes {ret : Ty} {f : String} {ps : List Raw.Param} {body : List Raw.Stmt}
    {p q q' : Pos} {r r' : List Token} (hdepth : depth < nestingLimit)
    (gty : Gram.TypeName ts ret (⟨.ident f, p⟩ :: ⟨.punct .lparen, q⟩ :: r))
    (gps : Gram.ParamList r ps (⟨.punct .rparen, q'⟩ :: r'))
    (hbody : BlockCompletes stop B (depth + 1) r' body rest) :
    StmtCompletes stop B depth ts (.funcDef ret f ps body) rest := by
  intro hB s env d hs hd
  have hlparen : atPunct .lparen (⟨.punct .lparen, q⟩ :: r) = true := by simp [atPunct]
  rw [statement_of_typeName hdepth gty, gty.startsFunction_eq, if_pos hlparen, funcDef.eq_def]
  obtain ⟨h, hty⟩ := gty.type_eq stop s
  rw [hty]
  refine Completes.ok_bind ?_
  dsimp only
  rw [expectIdent_cons]
  refine Completes.ok_bind ?_
  dsimp only
  rw [expect_cons]
  refine Completes.ok_bind ?_
  dsimp only
  have hlen := gty.suffix.length_le
  have hps := gps.suffix.length_le
  simp only [List.length_cons] at hlen hps
  refine (gps.completes ⟨_, _, rfl⟩ (depth + 1) (by omega) s hs hd).bind (fun hq => ?_) ?_
  · obtain ⟨v, env', d', hv⟩ := hq
    cases hv with
    | funcDef hdflts _ _ => exact readFormals_of_defaults hdflts
  rintro ⟨fs, s1, r1, hr1⟩ ⟨rfl, hs1, hd1, rels⟩
  dsimp only
  -- the parameters are declared in a scope of their own, inside the one that now binds the
  -- function's name
  have declared := declareParams_declared rels (s1.declare f (ret.func (fs.map (·.ty)))).2.enter
  generalize declareParams fs (s1.declare f (ret.func (fs.map (·.ty)))).2.enter = P at declared ⊢
  simp only [enter_scopes, enter_decls, declare_scopes, declare_decls] at declared
  rw [hs1, hd1, ← ReadFormal.map_ty rels] at declared
  rw [expect_cons]
  refine Completes.ok_bind ?_
  dsimp only
  refine (hbody (by omega) P.2 rfl rfl).bind (fun hq => ?_) ?_
  · -- the body of a definition that resolves resolves from where the parameters leave it
    obtain ⟨v, env', d', hv⟩ := hq
    cases hv with
    | funcDef _ declared' resBody =>
      obtain ⟨henv, hdecls⟩ := declared'.determined declared
      rw [henv, hdecls] at resBody
      exact ⟨_, _, _, resBody⟩
  rintro ⟨b, s3, r3, hr3⟩ ⟨rfl, resBody⟩
  dsimp only at resBody ⊢
  obtain ⟨s4, hexit, hs4, hd4⟩ := exit_after_params declared (resolvedBlock_frame resBody) r3
  rw [hexit]
  refine Completes.ok_bind ?_
  rw [hs4, Scopes.lookup_install_self]
  refine Completes.ok_bind ?_
  refine .pure ⟨rfl, ?_⟩
  dsimp only
  rw [freshNode_scopes, freshNode_decls, hs4, hd4]
  exact .funcDef (ReadFormal.defaults rels) declared resBody

theorem block_completes {items : List Raw.Stmt} (hdepth : depth < nestingLimit)
    (hblock : BlockCompletes stop B (depth + 1) ts items rest)
    (hts : ∃ p r, ts = ⟨.punct .lbrace, p⟩ :: r) :
    StmtCompletes stop B depth ts (.block items) rest := by
  intro hB s env d hs hd
  obtain ⟨p, r, rfl⟩ := hts
  rw [statement.eq_def, if_pos hdepth]
  refine (hblock (by omega) s hs hd).mono (fun hq => ?_) (fun _ ⟨hrest, hres⟩ => ⟨hrest, .block hres⟩)
  obtain ⟨v, env', d', hv⟩ := hq
  cases hv with
  | block hb => exact ⟨_, _, _, hb⟩

theorem ifThen_completes {c : Raw.Expr} {t : Raw.Stmt} {p q q' : Pos} {r : List Token}
    (hdepth : depth < nestingLimit) (gc : Gram.Chain .or ts c (⟨.punct .rparen, q'⟩ :: r))
    (hthen : StmtCompletes stop B (depth + 1) r t rest) (hnoElse : Gram.startsElse rest = false) :
    StmtCompletes stop B depth (⟨.keyword .ifKw, p⟩ :: ⟨.punct .lparen, q⟩ :: ts) (.ifThen c t)
      rest := by
  intro hB s env d hs hd
  rw [statement.eq_def, if_pos hdepth]
  dsimp only
  rw [expect_cons]
  refine Completes.ok_bind ?_
  have hlen := gc.suffix.length_le
  simp only [List.length_cons] at hB hlen
  refine (gc.expression_completes Gram.closed_rparen.ends (depth + 1) (by omega) s hs hd).bind
    (fun hq => ?_) ?_
  · obtain ⟨v, env', d', hv⟩ := hq
    cases hv with
    | ifThen hc _ => exact ⟨_, hc⟩
  rintro ⟨c', s1, r1, hr1⟩ ⟨rfl, hs1, hd1, hresc⟩
  dsimp only
  rw [expect_cons]
  refine Completes.ok_bind ?_
  refine (hthen (by omega) s1 hs1 hd1).bind (fun hq => ?_) ?_
  · obtain ⟨v, env', d', hv⟩ := hq
    cases hv with
    | ifThen _ ht => exact ⟨_, _, _, ht⟩
  rintro ⟨t', s2, r2, hr2⟩ ⟨rfl, hrest⟩
  dsimp only
  split
  · -- no `else` follows the branch
    simp [Gram.startsElse] at hnoElse
  · exact .pure ⟨rfl, .ifThen hresc hrest⟩

theorem ifElse_completes {c : Raw.Expr} {t e : Raw.Stmt} {p q q' p' : Pos} {r r' : List Token}
    (hdepth : depth < nestingLimit) (gc : Gram.Chain .or ts c (⟨.punct .rparen, q'⟩ :: r))
    (hthen : StmtCompletes stop B (depth + 1) r t (⟨.keyword .elseKw, p'⟩ :: r'))
    (helse : StmtCompletes stop B (depth + 1) r' e rest) :
    StmtCompletes stop B depth (⟨.keyword .ifKw, p⟩ :: ⟨.punct .lparen, q⟩ :: ts) (.ifElse c t e)
      rest := by
  intro hB s env d hs hd
  rw [statement.eq_def, if_pos hdepth]
  dsimp only
  rw [expect_cons]
  refine Completes.ok_bind ?_
  have hlen := gc.suffix.length_le
  simp only [List.length_cons] at hB hlen
  refine (gc.expression_completes Gram.closed_rparen.ends (depth + 1) (by omega) s hs hd).bind
    (fun hq => ?_) ?_
  · obtain ⟨v, env', d', hv⟩ := hq
    cases hv with
    | ifElse hc _ _ => exact ⟨_, hc⟩
  rintro ⟨c', s1, r1, hr1⟩ ⟨rfl, hs1, hd1, hresc⟩
  dsimp only
  rw [expect_cons]
  refine Completes.ok_bind ?_
  refine (hthen (by omega) s1 hs1 hd1).bind (fun hq => ?_) ?_
  · obtain ⟨v, env', d', hv⟩ := hq
    cases hv with
    | ifElse _ ht _ => exact ⟨_, _, _, ht⟩
  rintro ⟨t', s2, r2, hr2⟩ ⟨rfl, hthen'⟩
  dsimp only
  refine (helse (by simp only [List.length_cons] at hr2; omega) s2 rfl rfl).bind (fun hq => ?_) ?_
  · -- the `else` branch starts where the `then` branch ends, whichever way that was resolved
    obtain ⟨v, env', d', hv⟩ := hq
    cases hv with
    | ifElse _ ht he =>
      obtain ⟨henv, hdecls⟩ := ht.determined hthen' rfl rfl
      rw [henv, hdecls] at he
      exact ⟨_, _, _, he⟩
  rintro ⟨e', s3, r3, hr3⟩ ⟨rfl, hrest⟩
  exact .pure ⟨rfl, .ifElse hresc hthen' hrest⟩

theorem whileLoop_completes {c : Raw.Expr} {b : Raw.Stmt} {p q q' : Pos} {r : List Token}
    (hdepth : depth < nestingLimit) (gc : Gram.Chain .or ts c (⟨.punct .rparen, q'⟩ :: r))
    (hbody : StmtCompletes stop B (depth + 1) r b rest) :
    StmtCompletes stop B depth (⟨.keyword .whileKw, p⟩ :: ⟨.punct .lparen, q⟩ :: ts)
      (.whileLoop c b) rest := by
  intro hB s env d hs hd
  rw [statement.eq_def, if_pos hdepth]
  dsimp only
  rw [expect_cons]
  refine Completes.ok_bind ?_
  have hlen := gc.suffix.length_le
  simp only [List.length_cons] at hB hlen
  refine (gc.expression_completes Gram.closed_rparen.ends (depth + 1) (by omega) s hs hd).bind
    (fun hq => ?_) ?_
  · obtain ⟨v, env', d', hv⟩ := hq
    cases hv with
    | whileLoop hc _ => exact ⟨_, hc⟩
  rintro ⟨c', s1, r1, hr1⟩ ⟨rfl, hs1, hd1, hresc⟩
  dsimp only
  rw [expect_cons]
  refine Completes.ok_bind ?_
  refine (hbody (by omega) s1 hs1 hd1).bind (fun hq => ?_) ?_
  · obtain ⟨v, env', d', hv⟩ := hq
    cases hv with
    | whileLoop _ hb => exact ⟨_, _, _, hb⟩
  rintro ⟨b', s2, r2, hr2⟩ ⟨rfl, hrest⟩
  exact .pure ⟨rfl, .whileLoop hresc hrest⟩

theorem returnValue_completes {e : Raw.Expr} {p q : Pos} (hdepth : depth < nestingLimit)
    (gc : Gram.Chain .or ts e (⟨.punct .semicolon, q⟩ :: rest)) :
    StmtCompletes stop B depth (⟨.keyword .returnKw, p⟩ :: ts) (.returnValue e) rest := by
  intro hB s env d hs hd
  rw [statement.eq_def, if_pos hdepth]
  dsimp only
  refine Completes.map ?_ (fun _ h => h)
  rw [jump]
  simp only [List.length_cons] at hB
  refine (gc.expression_completes Gram.closed_semicolon.ends (depth + 1) (by omega) s hs hd).bind
    (fun hq => ?_) ?_
  · obtain ⟨v, env', d', hv⟩ := hq
    cases hv with
    | returnValue he => exact ⟨_, he⟩
  rintro ⟨e', s1, r1, hr1⟩ ⟨rfl, hs1, hd1, hres⟩
  dsimp only
  rw [expect_cons]
  refine Completes.ok_bind ?_
  refine .pure ⟨rfl, ?_⟩
  dsimp only [Steps.afterToken]
  rw [freshNode_scopes, freshNode_decls, hs1, hd1]
  exact .returnValue hres

theorem breakLoop_completes {p q : Pos} (hdepth : depth < nestingLimit) :
    StmtCompletes stop B depth (⟨.keyword .breakKw, p⟩ :: ⟨.punct .semicolon, q⟩ :: rest) .breakLoop
      rest := by
  intro hB s env d hs hd
  rw [statement.eq_def, if_pos hdepth]
  dsimp only
  refine Completes.map ?_ (fun _ h => h)
  rw [jump, expect_cons]
  refine .pure ⟨rfl, ?_⟩
  dsimp only [Steps.afterToken]
  rw [hs, hd]
  exact .breakLoop

theorem continueLoop_completes {p q : Pos} (hdepth : depth < nestingLimit) :
    StmtCompletes stop B depth (⟨.keyword .continueKw, p⟩ :: ⟨.punct .semicolon, q⟩ :: rest)
      .continueLoop rest := by
  intro hB s env d hs hd
  rw [statement.eq_def, if_pos hdepth]
  dsimp only
  refine Completes.map ?_ (fun _ h => h)
  rw [jump.eq_def]
  dsimp only
  rw [expect_cons]
  refine .pure ⟨rfl, ?_⟩
  dsimp only [Steps.afterToken]
  rw [freshNode_scopes, freshNode_decls, hs, hd]
  exact .continueLoop

-- `name =` reads an assignment, whose target is resolved before its value is read.
theorem assign_completes {x : String} {e : Raw.Expr} {p q q' : Pos} (hdepth : depth < nestingLimit)
    (gc : Gram.Chain .or ts e (⟨.punct .semicolon, q'⟩ :: rest)) :
    StmtCompletes stop B depth (⟨.ident x, p⟩ :: ⟨.punct .assign, q⟩ :: ts) (.assign x e) rest := by
  intro hB s env d hs hd
  rw [statement.eq_def, if_pos hdepth]
  dsimp only
  rw [if_pos rfl]
  refine (resolve_completes fun hq => ?_).bind id ?_
  · obtain ⟨v, env', d', hv⟩ := hq
    cases hv with
    | assign hx _ => exact ⟨_, hs ▸ hx⟩
  intro entry hentry
  refine Completes.map ?_ (fun _ h => h)
  rw [assignment]
  dsimp only [ParseState.identNode]
  simp only [List.length_cons] at hB
  refine (gc.expression_completes Gram.closed_semicolon.ends (depth + 1) (by omega) s.freshNode.2
    hs hd).bind
    (fun hq => ?_) ?_
  · obtain ⟨v, env', d', hv⟩ := hq
    cases hv with
    | assign _ he => exact ⟨_, he⟩
  rintro ⟨e', s1, r1, hr1⟩ ⟨rfl, hs1, hd1, hres⟩
  dsimp only
  rw [expect_cons]
  refine Completes.ok_bind ?_
  refine .pure ⟨rfl, ?_⟩
  dsimp only [Step.afterToken]
  rw [freshNode_scopes, freshNode_decls, hs1, hd1]
  exact .assign (hs ▸ hentry) hres

theorem exprStmt_completes {e : Raw.Expr} {q : Pos} (hdepth : depth < nestingLimit)
    (gc : Gram.Chain .or ts e (⟨.punct .semicolon, q⟩ :: rest)) :
    StmtCompletes stop B depth ts (.exprStmt e) rest := by
  intro hB s env d hs hd
  obtain ⟨t, r, rfl, hstart⟩ := gc.head
  rw [statement_of_startsExpr hdepth hstart fun x hx => ?_, exprStatement]
  · refine (gc.expression_completes Gram.closed_semicolon.ends (depth + 1) (by omega) s hs hd).bind
      (fun hq => ?_) ?_
    · obtain ⟨v, env', d', hv⟩ := hq
      cases hv with
      | exprStmt he => exact ⟨_, he⟩
    rintro ⟨e', s1, r1, hr1⟩ ⟨rfl, hs1, hd1, hres⟩
    dsimp only
    rw [expect_cons]
    refine Completes.ok_bind ?_
    refine .pure ⟨rfl, ?_⟩
    dsimp only
    rw [freshNode_scopes, freshNode_decls, hs1, hd1]
    exact .exprStmt hres
  · -- after `name =` the chain would end at the `=`, not at a `;`
    cases r with
    | nil => rfl
    | cons a r' =>
      simp only [atPunct, decide_eq_false_iff_not]
      intro ha
      obtain ⟨k, pa⟩ := a
      obtain ⟨k', pt⟩ := t
      cases ha
      cases hx
      cases gc.rest_of_assign rfl

theorem empty_completes {p : Pos} (hdepth : depth < nestingLimit) :
    StmtCompletes stop B depth (⟨.punct .semicolon, p⟩ :: rest) .empty rest := by
  intro hB s env d hs hd
  rw [statement.eq_def, if_pos hdepth]
  refine .pure ⟨rfl, ?_⟩
  rw [hs, hd]
  exact .empty

end

namespace Gram

variable {stop : Pos} {B : Nat}

theorem Block.head {ts rest : List Token} {items : List Raw.Stmt} (g : Block ts items rest) :
    ∃ p r, ts = ⟨.punct .lbrace, p⟩ :: r := by
  cases g
  exact ⟨_, _, rfl⟩

-- What may follow the statements of a block: its `}`, or the end of the input, where the
-- block parser reports the missing `}`.
def EndsItems (rest : List Token) : Prop :=
  rest = [] ∨ ∃ q r, rest = ⟨.punct .rbrace, q⟩ :: r

mutual

theorem Statement.completes {ts rest : List Token} {raw : Raw.Stmt} (g : Statement ts raw rest)
    (depth : Nat) : StmtCompletes stop B depth ts raw rest := by
  by_cases hdepth : depth < nestingLimit
  case neg => exact fun hB _ _ _ _ _ => statement_tooDeep hdepth (by omega)
  match g with
  | .decl ty ds => exact decl_completes hdepth ty ds
  | .funcDef ty ps b => exact funcDef_completes hdepth ty ps (b.completes (depth + 1))
  | .block b => exact block_completes hdepth (b.completes (depth + 1)) b.head
  | .ifThen c t noElse => exact ifThen_completes hdepth c (t.completes (depth + 1)) noElse
  | .ifElse c t e =>
    exact ifElse_completes hdepth c (t.completes (depth + 1)) (e.completes (depth + 1))
  | .whileLoop c b => exact whileLoop_completes hdepth c (b.completes (depth + 1))
  | .returnValue c => exact returnValue_completes hdepth c
  | .breakLoop => exact breakLoop_completes hdepth
  | .continueLoop => exact continueLoop_completes hdepth
  | .assign c => exact assign_completes hdepth c
  | .exprStmt c => exact exprStmt_completes hdepth c
  | .empty => exact empty_completes hdepth

-- A block reads its statements in a scope of its own, which it closes at its `}`.
theorem Block.completes {ts rest : List Token} {items : List Raw.Stmt} (g : Block ts items rest)
    (depth : Nat) : BlockCompletes stop B depth ts items rest := by
  intro hB s env d hs hd
  match g with
  | .mk gi =>
    simp only [List.length_cons] at hB
    have inner := gi.completes (.inr ⟨_, _, rfl⟩) depth (by omega) s.enter
      (by rw [enter_scopes, hs]) (by rw [enter_decls, hd])
    rw [block.eq_def, expect_cons]
    refine Completes.ok_bind ?_
    refine inner.bind (fun hq => ?_) ?_
    · obtain ⟨v, env', d', hv⟩ := hq
      cases hv with
      | empty => exact ⟨[], _, _, .nil⟩
      | items hi _ => exact ⟨_, _, _, hi⟩
    rintro ⟨vs, s1, r1, hr1⟩ ⟨rfl, hres⟩
    dsimp only at hres ⊢
    rw [expect_cons]
    refine Completes.ok_bind ?_
    -- the statements add only to the frame the block opened, which closing it drops again
    have outer : s1.scopes.outer = env.top :: env.outer := by
      rw [resolvedItems_frame hres]
      rfl
    obtain ⟨s2, hexit, hs2, hd2⟩ := exit_of_outer rest outer
    rw [hexit]
    refine Completes.ok_bind ?_
    rcases hc : Stmt.chain vs s2.nodes with ⟨inner, n⟩
    simp only [ParseState.chain, hc]
    cases inner with
    | some inner =>
      refine .pure ⟨rfl, ?_⟩
      dsimp only
      rw [freshNode_scopes, freshNode_decls, hs2, hd2]
      exact .items hres (chains_of_chain (by rw [hc]))
    | none =>
      obtain rfl := nil_of_chain (by rw [hc])
      obtain ⟨rfl, -, hd'⟩ := hres.nil_right
      refine .pure ⟨rfl, ?_⟩
      dsimp only
      rw [freshNode_scopes, freshNode_decls, hs2, hd2, hd']
      exact .empty

theorem Items.completes {ts rest : List Token} {items : List Raw.Stmt} (g : Items ts items rest)
    (hrest : EndsItems rest) (depth : Nat) (hB : depth + 2 + ts.length ≤ B) (s : ParseState)
    {env : Scopes Entry} {d : Nat} (hs : s.scopes = env) (hd : s.decls = d) :
    Completes (∃ vs env' d', ResolvedItems env d items vs env' d') B
      (fun r : Steps ts (List Stmt) =>
        Settles rest (ResolvedItems env d items) r.value r.state r.rest)
      (blockItems stop depth s ts) := by
  match g with
  | .nil =>
    rw [blockItems.eq_def]
    rcases hrest with rfl | ⟨q, r, rfl⟩
    · refine .pure ⟨rfl, ?_⟩
      rw [hs, hd]
      exact .nil
    · dsimp only
      rw [if_pos rfl]
      refine .pure ⟨rfl, ?_⟩
      rw [hs, hd]
      exact .nil
  | .cons st more =>
    have first := st.completes depth hB
    have later := more.completes hrest depth (by have := st.suffix.length_le; omega)
    obtain ⟨t, r, rfl, ht⟩ := st.head
    rw [blockItems.eq_def]
    dsimp only
    rw [if_neg ht]
    refine (first s hs hd).bind (fun hq => ?_) ?_
    · obtain ⟨vs, env', d', hv⟩ := hq
      cases hv with
      | cons h _ => exact ⟨_, _, _, h⟩
    rintro ⟨v, s1, r1, hr1⟩ ⟨rfl, hres⟩
    dsimp only at hres ⊢
    refine (later s1 rfl rfl).bind (fun hq => ?_) ?_
    · -- the later statements start where the first ends, whichever way that was resolved
      obtain ⟨vs, env', d', hv⟩ := hq
      cases hv with
      | cons h hmore =>
        obtain ⟨henv, hdecls⟩ := h.determined hres rfl rfl
        rw [henv, hdecls] at hmore
        exact ⟨_, _, _, hmore⟩
    rintro ⟨vs, s2, r2, hr2⟩ ⟨rfl, hress⟩
    exact .pure ⟨rfl, .cons hres hress⟩

end

-- The statements of a program, each read from nesting depth 0, up to the end of the input.
theorem Items.programItems_completes {ts rest : List Token} {items : List Raw.Stmt}
    (g : Items ts items rest) (hrest : rest = []) (hB : 2 + ts.length ≤ B) (s : ParseState)
    {env : Scopes Entry} {d : Nat} (hs : s.scopes = env) (hd : s.decls = d) :
    Completes (∃ vs env' d', ResolvedItems env d items vs env' d') B
      (fun r : Steps ts (List Stmt) => Settles [] (ResolvedItems env d items) r.value r.state r.rest)
      (programItems stop s ts) := by
  -- one round of the loop for each statement
  induction items generalizing ts s env d with
  | nil =>
    cases g
    subst hrest
    rw [programItems.eq_1]
    refine .pure ⟨rfl, ?_⟩
    rw [hs, hd]
    exact .nil
  | cons item items later =>
    cases g with
    | cons st more =>
    have hlen := st.suffix.length_le
    obtain ⟨t, r, rfl, -⟩ := st.head
    rw [programItems.eq_2]
    refine (st.completes 0 (by omega) s hs hd).bind (fun hq => ?_) ?_
    · obtain ⟨vs, env', d', hv⟩ := hq
      cases hv with
      | cons h _ => exact ⟨_, _, _, h⟩
    rintro ⟨v, s1, r1, hr1⟩ ⟨rfl, hres⟩
    dsimp only at hres ⊢
    refine (later more (by omega) s1 rfl rfl).bind (fun hq => ?_) ?_
    · obtain ⟨vs, env', d', hv⟩ := hq
      cases hv with
      | cons h hmore =>
        obtain ⟨henv, hdecls⟩ := h.determined hres rfl rfl
        rw [henv, hdecls] at hmore
        exact ⟨_, _, _, hmore⟩
    rintro ⟨vs, s2, r2, hr2⟩ ⟨rfl, hress⟩
    exact .pure ⟨rfl, .cons hres hress⟩

end Gram

-- A sentence of the grammar is read whole and resolved, unless the parse reaches the nesting
-- limit or meets a name that no scope binds, which it meets only when the program does not
-- resolve.
theorem parseFrom_completes (s : ParseState) (toks : List Token) {items : List Raw.Stmt}
    (g : Gram.Sentence (Program.input toks).1 items) :
    Completes (∃ root env' d', ResolvedProgram s.scopes s.decls items root env' d')
      (2 + (Program.input toks).1.length) (fun p : Program => ResolvedProgram s.scopes s.decls items p.root p.state.scopes
        p.state.decls)
      (Program.parseFrom s toks) := by
  obtain ⟨gi, hne⟩ := g
  unfold Program.parseFrom
  refine (gi.programItems_completes rfl (Nat.le_refl _) s rfl rfl).bind (fun hq => ?_) ?_
  · obtain ⟨root, env', d', vs, hres, -⟩ := hq
    exact ⟨_, _, _, hres⟩
  rintro ⟨vs, s1, r1, hr1⟩ ⟨rfl, hres⟩
  dsimp only at hres ⊢
  rcases hc : Stmt.chain vs s1.nodes with ⟨root, n⟩
  simp only [ParseState.chain, hc]
  cases root with
  | some root => exact .pure ⟨vs, hres, chains_of_chain (by rw [hc])⟩
  | none =>
    -- a program of at least one statement resolves to at least one
    obtain rfl := nil_of_chain (by rw [hc])
    obtain ⟨rfl, -, -⟩ := hres.nil_right
    exact absurd rfl hne

end ScopedC

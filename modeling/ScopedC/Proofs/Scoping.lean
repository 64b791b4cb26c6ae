import Mathlib.Data.List.Forall2
import ScopedC.Parse.Stmt
import ScopedC.Proofs.Grammar
namespace ScopedC

open Parse

mutual

inductive ResolvedExpr (env : Scopes Entry) : Raw.Expr → Expr → Prop
  | binary {op : BinOp} {l r : Raw.Expr} {l' r' : Expr} {n label : Nat} :
      ResolvedExpr env l l' → ResolvedExpr env r r' →
      ResolvedExpr env (.binary op l r) (.binary n op l' r' label)
  | unary {op : UnOp} {a : Raw.Expr} {a' : Expr} {n label : Nat} :
      ResolvedExpr env a a' → ResolvedExpr env (.unary op a) (.unary n op a' label)
  | name {x : String} {e : Entry} {n : Nat} :
      env.lookup x = some e → ResolvedExpr env (.name x) (.ident ⟨n, e, none⟩)
  | call {f : String} {e : Entry} {args : List Raw.Expr} {args' : List Expr} {n : Nat} :
      env.lookup f = some e → ResolvedArgs env args args' →
      ResolvedExpr env (.call f args) (.call n e args')
  | lit {v : Int} {n : Nat} : ResolvedExpr env (.lit v) (.lit n v)

inductive ResolvedArgs (env : Scopes Entry) : List Raw.Expr → List Expr → Prop
  | nil : ResolvedArgs env [] []
  | cons {a : Raw.Expr} {a' : Expr} {as : List Raw.Expr} {as' : List Expr} :
      ResolvedExpr env a a' → ResolvedArgs env as as' → ResolvedArgs env (a :: as) (a' :: as')

end

-- A declarator with its initializer resolved in `env`.
def ResolvedDeclarator (env : Scopes Entry) (d : String × Option Raw.Expr)
    (d' : String × Option Expr) : Prop :=
  d.1 = d'.1 ∧ Option.Rel (ResolvedExpr env) d.2 d'.2

-- Binding the names of `items` one after another, each to a fresh entry numbered from `d`.
inductive Declared : Scopes Entry → Nat → Ty → List (String × Option Expr) →
    List (Ident × Option Expr) → Scopes Entry → Nat → Prop
  | nil {env : Scopes Entry} {d : Nat} {ty : Ty} : Declared env d ty [] [] env d
  | cons {env env' : Scopes Entry} {d d' n : Nat} {ty : Ty} {x : String} {init : Option Expr}
      {ds : List (String × Option Expr)} {items : List (Ident × Option Expr)} :
      Declared (env.install x (.ident d x ty env.level)) (d + 1) ty ds items env' d' →
      Declared env d ty ((x, init) :: ds) ((⟨n, .ident d x ty env.level, none⟩, init) :: items) env' d'

-- Binding parameters one after another; a parameter records its literal default.
inductive DeclaredParams : Scopes Entry → Nat → List Raw.Param → List (Option Expr) →
    List Param → Scopes Entry → Nat → Prop
  | nil {env : Scopes Entry} {d : Nat} : DeclaredParams env d [] [] [] env d
  | cons {env env' : Scopes Entry} {d d' n : Nat} {p : Raw.Param} {ps : List Raw.Param}
      {dflt : Option Expr} {dflts : List (Option Expr)} {ps' : List Param} :
      DeclaredParams (env.install p.name (.ident d p.name p.ty env.level)) (d + 1) ps dflts ps'
        env' d' →
      DeclaredParams env d (p :: ps) (dflt :: dflts)
        (⟨⟨n, .ident d p.name p.ty env.level, p.literal⟩, dflt⟩ :: ps') env' d'

-- A list of statements as the right-nested chain of links that holds them, whatever the
-- links' numbers.
inductive Chains : List Stmt → Stmt → Prop
  | one {s : Stmt} : Chains [s] s
  | cons {s s' c : Stmt} {ss : List Stmt} {n : Nat} :
      Chains (s' :: ss) c → Chains (s :: s' :: ss) (.seq n s c)

-- The entry a function definition binds its name to.
def functionEntry (env : Scopes Entry) (d : Nat) (ret : Ty) (f : String)
    (ps : List Raw.Param) : Entry :=
  .ident d f (.func ret (ps.map (·.ty))) env.level

mutual

inductive ResolvedStmt : Scopes Entry → Nat → Raw.Stmt → Stmt → Scopes Entry → Nat → Prop
  | decl {env env' : Scopes Entry} {d d' n : Nat} {ty : Ty}
      {ds : List (String × Option Raw.Expr)} {ds' : List (String × Option Expr)}
      {items : List (Ident × Option Expr)} :
      List.Forall₂ (ResolvedDeclarator env) ds ds' →
      Declared env d ty (ds'.foldl (fun acc x => insertByName x.1 x.2 acc) []) items env' d' →
      ResolvedStmt env d (.decl ty ds) (.decl n items) env' d'
  | funcDef {env envP envB : Scopes Entry} {d dP dB n : Nat} {ret : Ty} {f : String}
      {ps : List Raw.Param} {dflts : List (Option Expr)} {ps' : List Param}
      {body : List Raw.Stmt} {body' : Stmt} :
      List.Forall₂ (fun p dflt => Option.Rel (ResolvedExpr env) p.default dflt) ps dflts →
      DeclaredParams (env.install f (functionEntry env d ret f ps)).enter (d + 1) ps dflts ps'
        envP dP →
      ResolvedBlock envP dP body body' envB dB →
      ResolvedStmt env d (.funcDef ret f ps body) (.funcDef n (functionEntry env d ret f ps) ps' body')
        (env.install f (functionEntry env d ret f ps)) dB
  | block {env env' : Scopes Entry} {d d' : Nat} {items : List Raw.Stmt} {b : Stmt} :
      ResolvedBlock env d items b env' d' → ResolvedStmt env d (.block items) b env' d'
  | ifThen {env env' : Scopes Entry} {d d' n : Nat} {c : Raw.Expr} {c' : Expr} {t : Raw.Stmt}
      {t' : Stmt} :
      ResolvedExpr env c c' → ResolvedStmt env d t t' env' d' →
      ResolvedStmt env d (.ifThen c t) (.ifThen n c' t') env' d'
  | ifElse {env env1 env2 : Scopes Entry} {d d1 d2 n : Nat} {c : Raw.Expr} {c' : Expr}
      {t e : Raw.Stmt} {t' e' : Stmt} :
      ResolvedExpr env c c' → ResolvedStmt env d t t' env1 d1 → ResolvedStmt env1 d1 e e' env2 d2 →
      ResolvedStmt env d (.ifElse c t e) (.ifElse n c' t' e') env2 d2
  | whileLoop {env env' : Scopes Entry} {d d' n : Nat} {c : Raw.Expr} {c' : Expr} {b : Raw.Stmt}
      {b' : Stmt} :
      ResolvedExpr env c c' → ResolvedStmt env d b b' env' d' →
      ResolvedStmt env d (.whileLoop c b) (.whileLoop n c' b') env' d'
  | returnValue {env : Scopes Entry} {d n : Nat} {e : Raw.Expr} {e' : Expr} :
      ResolvedExpr env e e' → ResolvedStmt env d (.returnValue e) (.returnValue n e') env d
  | breakLoop {env : Scopes Entry} {d n : Nat} : ResolvedStmt env d .breakLoop (.breakLoop n) env d
  | continueLoop {env : Scopes Entry} {d n : Nat} :
      ResolvedStmt env d .continueLoop (.continueLoop n) env d
  | assign {env : Scopes Entry} {d n m : Nat} {x : String} {target : Entry} {e : Raw.Expr}
      {e' : Expr} :
      env.lookup x = some target → ResolvedExpr env e e' →
      ResolvedStmt env d (.assign x e) (.assign n ⟨m, target, none⟩ e') env d
  | exprStmt {env : Scopes Entry} {d n : Nat} {e : Raw.Expr} {e' : Expr} :
      ResolvedExpr env e e' → ResolvedStmt env d (.exprStmt e) (.exprStmt n e') env d
  | empty {env : Scopes Entry} {d n : Nat} : ResolvedStmt env d .empty (.empty n) env d

-- A block reads its statements in a frame of its own and closes it again.
inductive ResolvedBlock : Scopes Entry → Nat → List Raw.Stmt → Stmt → Scopes Entry → Nat → Prop
  | empty {env : Scopes Entry} {d n : Nat} : ResolvedBlock env d [] (.emptyBlock n) env d
  | items {env env' : Scopes Entry} {d d' n : Nat} {items : List Raw.Stmt} {items' : List Stmt}
      {inner : Stmt} :
      ResolvedItems env.enter d items items' env' d' → Chains items' inner →
      ResolvedBlock env d items (.block n inner) env d'

inductive ResolvedItems : Scopes Entry → Nat → List Raw.Stmt → List Stmt → Scopes Entry → Nat →
    Prop
  | nil {env : Scopes Entry} {d : Nat} : ResolvedItems env d [] [] env d
  | cons {env env1 env2 : Scopes Entry} {d d1 d2 : Nat} {s : Raw.Stmt} {ss : List Raw.Stmt}
      {s' : Stmt} {ss' : List Stmt} :
      ResolvedStmt env d s s' env1 d1 → ResolvedItems env1 d1 ss ss' env2 d2 →
      ResolvedItems env d (s :: ss) (s' :: ss') env2 d2

end

-- A whole program: its statements resolved in turn, chained into one root.
def ResolvedProgram (env : Scopes Entry) (d : Nat) (items : List Raw.Stmt) (root : Stmt)
    (env' : Scopes Entry) (d' : Nat) : Prop :=
  ∃ items', ResolvedItems env d items items' env' d' ∧ Chains items' root

-- What a statement binds in the frame it stands in: a declaration its names, a function
-- definition its own name, an `if` or `while` whatever its branches bind there.
def Stmt.bindings : Stmt → List (String × Entry)
  | .decl _ items => items.map fun item => (item.1.entry.toText, item.1.entry)
  | .funcDef _ e _ _ => [(e.toText, e)]
  | .ifThen _ _ t => t.bindings
  | .ifElse _ _ t e => t.bindings ++ e.bindings
  | .whileLoop _ _ b => b.bindings
  | .seq _ a b => a.bindings ++ b.bindings
  | _ => []

theorem declared_frame {env env' : Scopes Entry} {d d' : Nat} {ty : Ty}
    {ds : List (String × Option Expr)} {items : List (Ident × Option Expr)}
    (h : Declared env d ty ds items env' d') :
    env' = ⟨(items.map fun item => (item.1.entry.toText, item.1.entry)).reverse ++ env.top,
      env.outer⟩ := by
  induction h with
  | nil => rfl
  | cons _ ih =>
    rw [ih]
    simp [Scopes.install, Entry.toText]

theorem declaredParams_frame {env env' : Scopes Entry} {d d' : Nat} {ps : List Raw.Param}
    {dflts : List (Option Expr)} {ps' : List Param} (h : DeclaredParams env d ps dflts ps' env' d') :
    env' = ⟨(ps'.map fun p => (p.ident.entry.toText, p.ident.entry)).reverse ++ env.top,
      env.outer⟩ := by
  induction h with
  | nil => rfl
  | cons _ ih =>
    rw [ih]
    simp [Scopes.install, Entry.toText]

-- A name just bound in the current frame stands for what it was bound to.
@[simp] theorem Scopes.lookup_install_self {α : Type} (sc : Scopes α) (x : String) (v : α) :
    (sc.install x v).lookup x = some v := by
  simp [Scopes.lookup, Scopes.install]

mutual

-- A statement adds its bindings to the frame it stands in, in order, and touches no other
-- frame.
theorem resolvedStmt_frame {env env' : Scopes Entry} {d d' : Nat} {s : Raw.Stmt} {s' : Stmt} :
    ResolvedStmt env d s s' env' d' → env' = ⟨s'.bindings.reverse ++ env.top, env.outer⟩
  | .decl _ declared => by rw [declared_frame declared]; rfl
  | .funcDef _ _ _ => by simp [Stmt.bindings, functionEntry, Entry.toText, Scopes.install]
  | .block b => by rw [resolvedBlock_frame b]; cases b <;> rfl
  | .ifThen _ t => by rw [resolvedStmt_frame t]; rfl
  | .ifElse _ t e => by
    rw [resolvedStmt_frame e, resolvedStmt_frame t]
    simp [Stmt.bindings]
  | .whileLoop _ b => by rw [resolvedStmt_frame b]; rfl
  | .returnValue _ | .breakLoop | .continueLoop | .assign _ _ | .exprStmt _ | .empty => rfl

theorem resolvedBlock_frame {env env' : Scopes Entry} {d d' : Nat} {items : List Raw.Stmt}
    {b : Stmt} : ResolvedBlock env d items b env' d' → env' = env
  | .empty => rfl
  | .items _ _ => rfl

end

theorem resolvedItems_frame {env env' : Scopes Entry} {d d' : Nat} {ss : List Raw.Stmt}
    {ss' : List Stmt} :
    ResolvedItems env d ss ss' env' d' →
      env' = ⟨(ss'.flatMap Stmt.bindings).reverse ++ env.top, env.outer⟩
  | .nil => rfl
  | .cons first rest => by
    rw [resolvedItems_frame rest, resolvedStmt_frame first]
    simp

-- The scopes and declaration number a statement ends with depend only on the written statement and
-- where it starts, not on its node numbers.

section Determined

-- Where a declaration's names end up depends on the names only, not on their initializers.
theorem insertByName_names (x : String) (i i' : Option Expr) :
    ∀ {acc acc' : List (String × Option Expr)}, acc.map Prod.fst = acc'.map Prod.fst →
      (insertByName x i acc).map Prod.fst = (insertByName x i' acc').map Prod.fst
  | [], [], _ => rfl
  | (n, j) :: more, (n', j') :: more', h => by
    simp only [List.map_cons, List.cons.injEq] at h
    obtain ⟨rfl, h⟩ := h
    simp only [insertByName]
    split_ifs <;> simp [h, insertByName_names x i i' h]

theorem foldl_insertByName_names :
    ∀ {ds ds' acc acc' : List (String × Option Expr)}, ds.map Prod.fst = ds'.map Prod.fst →
      acc.map Prod.fst = acc'.map Prod.fst →
      (ds.foldl (fun acc x => insertByName x.1 x.2 acc) acc).map Prod.fst =
        (ds'.foldl (fun acc x => insertByName x.1 x.2 acc) acc').map Prod.fst
  | [], [], _, _, _, hacc => hacc
  | (x, i) :: ds, (x', i') :: ds', _, _, h, hacc => by
    simp only [List.map_cons, List.cons.injEq] at h
    obtain ⟨rfl, h⟩ := h
    rw [List.foldl_cons, List.foldl_cons]
    exact foldl_insertByName_names h (insertByName_names x i i' hacc)

theorem Declared.determined {env env₁ env₂ : Scopes Entry} {d d₁ d₂ : Nat} {ty : Ty}
    {ds ds' : List (String × Option Expr)} {items items' : List (Ident × Option Expr)} :
    Declared env d ty ds items env₁ d₁ → Declared env d ty ds' items' env₂ d₂ →
      ds.map Prod.fst = ds'.map Prod.fst → env₁ = env₂ ∧ d₁ = d₂
  | .nil, .nil, _ => ⟨rfl, rfl⟩
  | .cons h₁, .cons h₂, hnames => by
    simp only [List.map_cons, List.cons.injEq] at hnames
    obtain ⟨rfl, hnames⟩ := hnames
    exact h₁.determined h₂ hnames

theorem DeclaredParams.determined {env env₁ env₂ : Scopes Entry} {d d₁ d₂ : Nat}
    {ps : List Raw.Param} {dflts dflts' : List (Option Expr)} {ps₁ ps₂ : List Param} :
    DeclaredParams env d ps dflts ps₁ env₁ d₁ → DeclaredParams env d ps dflts' ps₂ env₂ d₂ →
      env₁ = env₂ ∧ d₁ = d₂
  | .nil, .nil => ⟨rfl, rfl⟩
  | .cons h₁, .cons h₂ => h₁.determined h₂

theorem resolvedDeclarators_names {env : Scopes Entry} {ds : List (String × Option Raw.Expr)}
    {ds' : List (String × Option Expr)} (h : List.Forall₂ (ResolvedDeclarator env) ds ds') :
    ds'.map Prod.fst = ds.map Prod.fst := by
  induction h with
  | nil => rfl
  | cons hd _ ih => simp [ih, hd.1]

mutual

-- Both resolutions start alike; the equations keep the recursion on the first one structural.
theorem ResolvedStmt.determined {env env' env₁ env₂ : Scopes Entry} {d d' d₁ d₂ : Nat}
    {s : Raw.Stmt} {s₁ s₂ : Stmt} :
    ResolvedStmt env d s s₁ env₁ d₁ → ResolvedStmt env' d' s s₂ env₂ d₂ → env = env' →
      d = d' → env₁ = env₂ ∧ d₁ = d₂
  | .decl h₁ dec₁, .decl h₂ dec₂, rfl, rfl => by
    refine dec₁.determined dec₂ (foldl_insertByName_names ?_ rfl)
    rw [resolvedDeclarators_names h₁, resolvedDeclarators_names h₂]
  | .funcDef _ p₁ b₁, .funcDef _ p₂ b₂, rfl, rfl => by
    obtain ⟨henv, hd⟩ := p₁.determined p₂
    exact ⟨rfl, (b₁.determined b₂ henv hd).2⟩
  | .block b₁, .block b₂, henv, hd => b₁.determined b₂ henv hd
  | .ifThen _ t₁, .ifThen _ t₂, henv, hd => t₁.determined t₂ henv hd
  | .ifElse _ t₁ e₁, .ifElse _ t₂ e₂, henv, hd => by
    obtain ⟨henv₁, hd₁⟩ := t₁.determined t₂ henv hd
    exact e₁.determined e₂ henv₁ hd₁
  | .whileLoop _ b₁, .whileLoop _ b₂, henv, hd => b₁.determined b₂ henv hd
  | .returnValue _, .returnValue _, henv, hd
  | .breakLoop, .breakLoop, henv, hd
  | .continueLoop, .continueLoop, henv, hd
  | .assign _ _, .assign _ _, henv, hd
  | .exprStmt _, .exprStmt _, henv, hd
  | .empty, .empty, henv, hd => ⟨henv, hd⟩

theorem ResolvedBlock.determined {env env' env₁ env₂ : Scopes Entry} {d d' d₁ d₂ : Nat}
    {items : List Raw.Stmt} {b₁ b₂ : Stmt} :
    ResolvedBlock env d items b₁ env₁ d₁ → ResolvedBlock env' d' items b₂ env₂ d₂ → env = env' →
      d = d' → env₁ = env₂ ∧ d₁ = d₂
  | .empty, .empty, henv, hd => ⟨henv, hd⟩
  | .empty, .items i _, henv, hd => by cases i; exact ⟨henv, hd⟩
  | .items i _, .empty, henv, hd => by cases i; exact ⟨henv, hd⟩
  | .items i₁ _, .items i₂ _, henv, hd => ⟨henv, (i₁.determined i₂ (by rw [henv]) hd).2⟩

theorem ResolvedItems.determined {env env' env₁ env₂ : Scopes Entry} {d d' d₁ d₂ : Nat}
    {ss : List Raw.Stmt} {ss₁ ss₂ : List Stmt} :
    ResolvedItems env d ss ss₁ env₁ d₁ → ResolvedItems env' d' ss ss₂ env₂ d₂ → env = env' →
      d = d' → env₁ = env₂ ∧ d₁ = d₂
  | .nil, .nil, henv, hd => ⟨henv, hd⟩
  | .cons first₁ more₁, .cons first₂ more₂, henv, hd => by
    obtain ⟨henv₁, hd₁⟩ := first₁.determined first₂ henv hd
    exact more₁.determined more₂ henv₁ hd₁

end

end Determined

end ScopedC

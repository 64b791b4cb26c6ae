import ScopedC.Proofs.Numbering.Span
namespace ScopedC

open Parse

def ParseState.move (k j : Nat) (μ : Array Note → Array Note) (s : ParseState) : ParseState :=
  { s with nodes := s.nodes + k, labels := s.labels + j, notes := μ s.notes }

-- mu rewrites a log one note at a time, moving the label a note records by j.
def Relabels (j : Nat) (μ : Array Note → Array Note) : Prop :=
  ∀ a x, μ (a.push x) = (μ a).push (x.shift j)

def Failure.move (k j : Nat) (μ : Array Note → Array Note) (f : Failure) : Failure :=
  { f with state := f.state.move k j μ }

def Failure.shift (k j : Nat) (f : Failure) : Failure := { f with state := f.state.shift k j }

def Step.move {ts : List Token} {α β : Type} (k j : Nat) (μ : Array Note → Array Note)
    (g : α → β) (x : Step ts α) : Step ts β :=
  ⟨g x.value, x.state.move k j μ, x.rest, x.shorter⟩

def Steps.move {ts : List Token} {α β : Type} (k j : Nat) (μ : Array Note → Array Note)
    (g : α → β) (x : Steps ts α) : Steps ts β :=
  ⟨g x.value, x.state.move k j μ, x.rest, x.le⟩

def moved {α β : Type} (k j : Nat) (μ : Array Note → Array Note) (g : α → β) :
    Except Failure α → Except Failure β
  | .ok a => .ok (g a)
  | .error e => .error (e.move k j μ)

def shifted {α β : Type} (k j : Nat) (g : α → β) : Except Failure α → Except Failure β
  | .ok a => .ok (g a)
  | .error e => .error (e.shift k j)

def Program.move (k j : Nat) (μ : Array Note → Array Note) (p : Program) : Program :=
  ⟨p.root.shift k j, p.state.move k j μ⟩

def shiftDeclarator (k j : Nat) (d : String × Option Expr) : String × Option Expr :=
  (d.1, d.2.map (Expr.shift k j))

def Formal.shift (k j : Nat) (f : Formal) : Formal := { f with default := f.default.map (Expr.shift k j) }

section

variable {α α' β β' : Type} {k j : Nat} {μ : Array Note → Array Note}

theorem bind_moved {x : Except Failure α} {x' : Except Failure α'} {f : α → Except Failure β}
    {f' : α' → Except Failure β'} {g : α → α'} {g' : β → β'} (hx : x' = moved k j μ g x)
    (hf : ∀ a, f' (g a) = moved k j μ g' (f a)) : x' >>= f' = moved k j μ g' (x >>= f) := by
  subst hx
  cases x with
  | error e => rfl
  | ok a => exact hf a

theorem map_moved {x : Except Failure α} {f : α → β} {f' : α' → β'} {g : α → α'} {g' : β → β'}
    (hf : ∀ a, f' (g a) = g' (f a)) : (moved k j μ g x).map f' = moved k j μ g' (x.map f) := by
  cases x with
  | error e => rfl
  | ok a => exact congrArg Except.ok (hf a)

end

namespace ParseState

variable {k j : Nat} {μ : Array Note → Array Note} (s : ParseState)

@[simp] theorem move_scopes : (s.move k j μ).scopes = s.scopes := rfl

@[simp] theorem move_nodes : (s.move k j μ).nodes = s.nodes + k := rfl

@[simp] theorem move_labels : (s.move k j μ).labels = s.labels + j := rfl

@[simp] theorem move_decls : (s.move k j μ).decls = s.decls := rfl

theorem freshNode_move : (s.move k j μ).freshNode = (s.freshNode.1 + k, s.freshNode.2.move k j μ) := by
  cases s
  simp only [freshNode, move, Prod.mk.injEq, ParseState.mk.injEq, true_and, and_true]
  omega

theorem identNode_move (e : Entry) (literal : Option Int) :
    (s.move k j μ).identNode e literal =
      ({ (s.identNode e literal).1 with node := (s.identNode e literal).1.node + k },
        (s.identNode e literal).2.move k j μ) := by
  simp only [identNode, freshNode_move]

theorem resolve_move (name : String) (pos : Pos) (ts : List Token) :
    (s.move k j μ).resolve name pos ts = moved k j μ id (s.resolve name pos ts) := by
  unfold resolve
  rw [move_scopes]
  split <;> rfl

-- The steps that log a note: each logs the moved note after the rewritten log.
variable (hμ : Relabels j μ)
include hμ

theorem freshLabel_move :
    (s.move k j μ).freshLabel = (s.freshLabel.1 + j, s.freshLabel.2.move k j μ) := by
  cases s
  simp only [freshLabel, move, hμ _ _, Note.shift, Prod.mk.injEq, ParseState.mk.injEq,
    true_and, and_true]
  omega

theorem declare_move (name : String) (ty : Ty) :
    (s.move k j μ).declare name ty = ((s.declare name ty).1, (s.declare name ty).2.move k j μ) := by
  -- the note of a binding records no label
  by_cases h : s.scopes.bindsHere name <;> simp [declare, bind, move, hμ _ _, Note.shift, h]

theorem enter_move : (s.move k j μ).enter = s.enter.move k j μ := by
  simp only [enter, move, hμ _ _]
  rfl

theorem exit_move (ts : List Token) : (s.move k j μ).exit ts = moved k j μ (move k j μ) (s.exit ts) := by
  unfold exit
  rw [move_scopes]
  split
  · simp only [moved, move, hμ _ _]
    rfl
  · rfl

end ParseState

section

variable {k j : Nat} {μ : Array Note → Array Note} {stop : Pos} {depth : Nat} {s : ParseState}
  {ts : List Token}

theorem expect_move {p : Punct} {site : Site} :
    expect stop (s.move k j μ) p site ts = moved k j μ id (expect stop s p site ts) := by
  unfold expect
  split
  · split <;> rfl
  · rfl

theorem expectIdent_move : expectIdent stop (s.move k j μ) ts = moved k j μ id (expectIdent stop s ts) := by
  unfold expectIdent
  split <;> rfl

theorem type_move : type stop (s.move k j μ) ts = moved k j μ id (type stop s ts) := by
  unfold type
  split <;> rfl

theorem deeper_move : deeper stop depth (s.move k j μ) ts = moved k j μ id (deeper stop depth s ts) := by
  unfold deeper
  split <;> rfl

end

structure ExprMoved (stop : Pos) (k j : Nat) (μ : Array Note → Array Note) (ts : List Token) :
    Prop where
  expression {depth : Nat} {s : ParseState} :
    expression stop depth (s.move k j μ) ts =
      moved k j μ (Step.move k j μ (Expr.shift k j)) (expression stop depth s ts)
  chain {depth : Nat} {lvl : Level} {s : ParseState} :
    chain stop depth lvl (s.move k j μ) ts =
      moved k j μ (Step.move k j μ (Expr.shift k j)) (chain stop depth lvl s ts)
  operand {depth : Nat} {lvl : Level} {s : ParseState} :
    operand stop depth lvl (s.move k j μ) ts =
      moved k j μ (Step.move k j μ (Expr.shift k j)) (operand stop depth lvl s ts)
  links {depth : Nat} {lvl : Level} (left : Expr) (s : ParseState) :
    links stop depth lvl (left.shift k j) (s.move k j μ) ts =
      moved k j μ (Steps.move k j μ (Expr.shift k j)) (links stop depth lvl left s ts)
  unary {depth : Nat} {s : ParseState} :
    unary stop depth (s.move k j μ) ts =
      moved k j μ (Step.move k j μ (Expr.shift k j)) (unary stop depth s ts)
  primary {depth : Nat} {s : ParseState} :
    primary stop depth (s.move k j μ) ts =
      moved k j μ (Step.move k j μ (Expr.shift k j)) (primary stop depth s ts)
  call {depth : Nat} {callee : Entry} {s : ParseState} :
    call stop depth callee (s.move k j μ) ts =
      moved k j μ (Step.move k j μ (Expr.shift k j)) (call stop depth callee s ts)
  arguments {depth : Nat} {s : ParseState} :
    arguments stop depth (s.move k j μ) ts =
      moved k j μ (Step.move k j μ (List.map (Expr.shift k j))) (arguments stop depth s ts)

section

variable {k j : Nat} {μ : Array Note → Array Note} {stop : Pos} {depth : Nat} {s : ParseState}
  {ts : List Token}
variable (hμ : Relabels j μ) (ih : ∀ ts' : List Token, ts'.length < ts.length → ExprMoved stop k j μ ts')
include hμ ih

theorem links_moved {lvl : Level} (left : Expr) (s : ParseState) :
    links stop depth lvl (left.shift k j) (s.move k j μ) ts =
      moved k j μ (Steps.move k j μ (Expr.shift k j)) (links stop depth lvl left s ts) := by
  conv_lhs => rw [links.eq_def]
  conv_rhs => rw [links.eq_def]
  rcases ts with _ | ⟨t, r⟩
  · rfl
  dsimp only
  cases lvl.binOp? t.kind with
  | none => rfl
  | some op =>
    dsimp only
    refine bind_moved deeper_move fun depth' => ?_
    refine bind_moved (ih r (by simp)).operand fun x => ?_
    obtain ⟨right, s1, r1, h1⟩ := x
    simp only [Step.move, ParseState.freshLabel_move _ hμ, ParseState.freshNode_move]
    refine bind_moved ((ih r1 (by simp only [List.length_cons]; omega)).links
      (.binary s1.freshLabel.2.freshNode.1 op left right s1.freshLabel.1)
      s1.freshLabel.2.freshNode.2) fun y => ?_
    rfl

omit hμ in
theorem primary_moved :
    primary stop depth (s.move k j μ) ts =
      moved k j μ (Step.move k j μ (Expr.shift k j)) (primary stop depth s ts) := by
  conv_lhs => rw [primary.eq_def]
  split
  · rw [primary.eq_1]
    simp only [ParseState.freshNode_move]
    rfl
  · rw [primary.eq_2]
    refine bind_moved (ParseState.resolve_move _ _ _ _) fun callee => ?_
    refine bind_moved (ih _ (by simp only [List.length_cons]; omega)).call fun x => ?_
    rfl
  · rename_i hr
    rw [primary.eq_3 _ _ _ _ _ _ hr]
    refine bind_moved (ParseState.resolve_move _ _ _ _) fun entry => ?_
    simp only [ParseState.identNode_move]
    rfl
  · rw [primary.eq_4]
    refine bind_moved (ih _ (by simp)).expression fun x => ?_
    exact bind_moved expect_move fun y => rfl
  · rename_i h1 h2 h3 h4
    rw [primary.eq_5 _ _ _ _ h1 h2 h3 h4]
    rfl

theorem unary_moved :
    unary stop depth (s.move k j μ) ts =
      moved k j μ (Step.move k j μ (Expr.shift k j)) (unary stop depth s ts) := by
  conv_lhs => rw [unary.eq_def]
  conv_rhs => rw [unary.eq_def]
  rcases ts with _ | ⟨t, r⟩
  · exact primary_moved ih
  dsimp only
  cases prefixOp? t.kind with
  | none => exact primary_moved ih
  | some op =>
    dsimp only
    refine bind_moved deeper_move fun depth' => ?_
    refine bind_moved (ih r (by simp)).unary fun x => ?_
    obtain ⟨arg, s1, r1, h1⟩ := x
    simp only [Step.move, ParseState.freshLabel_move _ hμ, ParseState.freshNode_move]
    rfl

theorem chain_moved {lvl : Level} :
    chain stop depth lvl (s.move k j μ) ts =
      moved k j μ (Step.move k j μ (Expr.shift k j)) (chain stop depth lvl s ts) := by
  -- by induction from the tightest level out: an operand is a chain one level tighter
  induction lvl using Level.tighter_induction generalizing depth s with
  | step lvl ihl =>
    conv_lhs => rw [chain.eq_def]
    conv_rhs => rw [chain.eq_def]
    have first : operand stop depth lvl (s.move k j μ) ts =
        moved k j μ (Step.move k j μ (Expr.shift k j)) (operand stop depth lvl s ts) := by
      conv_lhs => rw [operand.eq_def]
      conv_rhs => rw [operand.eq_def]
      split
      · rename_i l hl
        exact ihl _ hl
      · exact unary_moved hμ ih
    refine bind_moved first fun x => ?_
    obtain ⟨left, s1, r1, h1⟩ := x
    exact bind_moved ((ih r1 h1).links left s1) fun y => rfl

theorem expression_moved :
    expression stop depth (s.move k j μ) ts =
      moved k j μ (Step.move k j μ (Expr.shift k j)) (expression stop depth s ts) := by
  conv_lhs => rw [expression.eq_def]
  conv_rhs => rw [expression.eq_def]
  exact bind_moved deeper_move fun depth' => chain_moved hμ ih

theorem arguments_moved :
    arguments stop depth (s.move k j μ) ts =
      moved k j μ (Step.move k j μ (List.map (Expr.shift k j))) (arguments stop depth s ts) := by
  conv_lhs => rw [arguments.eq_def]
  conv_rhs => rw [arguments.eq_def]
  refine bind_moved (expression_moved hμ ih) fun x => ?_
  obtain ⟨e, s1, r1, h1⟩ := x
  -- one more argument exactly when a comma follows
  rcases r1 with _ | ⟨⟨kind, q⟩, r2⟩
  · rfl
  cases kind
  case punct p =>
    cases p
    case comma =>
      exact bind_moved (ih r2 (by simp only [List.length_cons] at h1; omega)).arguments
        fun y => rfl
    all_goals rfl
  all_goals rfl

theorem call_moved {callee : Entry} :
    call stop depth callee (s.move k j μ) ts =
      moved k j μ (Step.move k j μ (Expr.shift k j)) (call stop depth callee s ts) := by
  conv_lhs => rw [call.eq_def]
  split
  · rw [call.eq_1]
    simp only [ParseState.freshNode_move]
    rfl
  · rename_i hne
    rw [call.eq_2 _ _ _ _ _ hne]
    refine bind_moved (arguments_moved hμ ih) fun x => ?_
    obtain ⟨args, s1, r1, h1⟩ := x
    refine bind_moved expect_move fun y => ?_
    simp only [ParseState.freshNode_move]
    rw [← Expr.shiftList_eq]
    rfl

theorem exprMoved_of_shorter : ExprMoved stop k j μ ts :=
  { expression := expression_moved hμ ih
    chain := chain_moved hμ ih
    operand := fun {_ lvl _} => by
      conv_lhs => rw [operand.eq_def]
      conv_rhs => rw [operand.eq_def]
      split
      · exact chain_moved hμ ih
      · exact unary_moved hμ ih
    links := links_moved hμ ih
    unary := unary_moved hμ ih
    primary := primary_moved ih
    call := call_moved hμ ih
    arguments := arguments_moved hμ ih }

end

theorem exprMoved {k j : Nat} {μ : Array Note → Array Note} (hμ : Relabels j μ) (stop : Pos)
    (ts : List Token) : ExprMoved stop k j μ ts := by
  induction ts using tokens_induction with
  | shorter ts ih => exact exprMoved_of_shorter hμ ih

section Declarations

variable {k j : Nat} {μ : Array Note → Array Note}

@[simp] theorem shiftDeclarator_mk (name : String) (init : Option Expr) :
    shiftDeclarator k j (name, init) = (name, init.map (Expr.shift k j)) := rfl

theorem insertByName_shift (name : String) (init : Option Expr) (acc : List (String × Option Expr)) :
    insertByName name (init.map (Expr.shift k j)) (acc.map (shiftDeclarator k j)) =
      (insertByName name init acc).map (shiftDeclarator k j) := by
  induction acc with
  | nil => rfl
  | cons d more ih =>
    obtain ⟨n, i⟩ := d
    simp only [List.map_cons, shiftDeclarator_mk, insertByName]
    split_ifs <;> simp [ih]

theorem declareAll_move (hμ : Relabels j μ) (ty : Ty) (items : List (String × Option Expr)) (s : ParseState) :
    declareAll ty (items.map (shiftDeclarator k j)) (s.move k j μ) =
      ((declareAll ty items s).1.map fun item =>
          ({ item.1 with node := item.1.node + k }, item.2.map (Expr.shift k j)),
        (declareAll ty items s).2.move k j μ) := by
  induction items generalizing s with
  | nil => rfl
  | cons d more ih =>
    obtain ⟨name, init⟩ := d
    simp only [List.map_cons, shiftDeclarator_mk, declareAll, ParseState.declare_move _ hμ,
      ParseState.identNode_move, ih]

theorem declareParams_move (hμ : Relabels j μ) (fs : List Formal) (s : ParseState) :
    declareParams (fs.map (Formal.shift k j)) (s.move k j μ) =
      ((declareParams fs s).1.map fun p =>
          ⟨{ p.ident with node := p.ident.node + k }, p.default.map (Expr.shift k j)⟩,
        (declareParams fs s).2.move k j μ) := by
  induction fs generalizing s with
  | nil => rfl
  | cons f more ih =>
    -- a moved default is a literal exactly when the default is, with the same value
    rcases f with ⟨name, ty, _ | e⟩
    · simp only [List.map_cons, Formal.shift, Option.map_none, declareParams,
        ParseState.declare_move _ hμ, ParseState.identNode_move, ih]
    · cases e <;> simp only [List.map_cons, Formal.shift, Option.map_some, Expr.shift,
        declareParams, ParseState.declare_move _ hμ, ParseState.identNode_move, ih]

end Declarations

namespace Stmt

theorem chainOnto_shift (k j : Nat) (last : Stmt) (earlier : List Stmt) (n : Nat) :
    chainOnto (last.shift k j) (earlier.map (shift k j)) (n + k) =
      ((chainOnto last earlier n).1.shift k j, (chainOnto last earlier n).2 + k) := by
  induction earlier generalizing last n with
  | nil => rfl
  | cons x more ih =>
    rw [List.map_cons, chainOnto_cons, chainOnto_cons, show n + k + 1 = n + 1 + k by omega]
    exact ih (seq n x last) (n + 1)

theorem chain_shift (k j : Nat) (items : List Stmt) (n : Nat) :
    chain (items.map (shift k j)) (n + k) =
      ((chain items n).1.map (shift k j), (chain items n).2 + k) := by
  unfold chain
  rw [← List.map_reverse]
  generalize items.reverse = r
  cases r with
  | nil => rfl
  | cons last earlier =>
    simp only [List.map_cons, chainOnto_shift]
    rfl

end Stmt

theorem ParseState.chain_move (k j : Nat) (μ : Array Note → Array Note) (s : ParseState) (items : List Stmt) :
    (s.move k j μ).chain (items.map (Stmt.shift k j)) =
      ((s.chain items).1.map (Stmt.shift k j), (s.chain items).2.move k j μ) := by
  simp only [ParseState.chain, move_nodes, Stmt.chain_shift]
  rfl

@[simp] theorem Formal.map_ty_shift (k j : Nat) (fs : List Formal) :
    (fs.map (Formal.shift k j)).map (·.ty) = fs.map (·.ty) := by
  simp [Function.comp_def, Formal.shift]

section

variable {k j : Nat} {μ : Array Note → Array Note} {stop : Pos} {depth : Nat} {s : ParseState}
  {ts : List Token}
variable (hμ : Relabels j μ)
include hμ

theorem initializer_moved :
    initializer stop depth (s.move k j μ) ts =
      moved k j μ (Steps.move k j μ (Option.map (Expr.shift k j))) (initializer stop depth s ts) := by
  conv_lhs => rw [initializer.eq_def]
  split
  · rw [initializer.eq_1]
    exact bind_moved (exprMoved hμ stop _).expression fun x => rfl
  · rename_i hne
    rw [initializer.eq_2 _ _ _ _ hne]
    rfl

theorem declarators_moved {s : ParseState} {ts : List Token} (acc : List (String × Option Expr)) :
    declarators stop depth (s.move k j μ) ts (acc.map (shiftDeclarator k j)) =
      moved k j μ (Step.move k j μ (List.map (shiftDeclarator k j)))
        (declarators stop depth s ts acc) := by
  conv_lhs => rw [declarators.eq_def]
  conv_rhs => rw [declarators.eq_def]
  refine bind_moved expectIdent_move fun x => ?_
  obtain ⟨name, r1, hr1⟩ := x
  refine bind_moved (initializer_moved hμ) fun y => ?_
  obtain ⟨init, s1, r2, hr2⟩ := y
  dsimp only [Steps.move, id]
  rw [insertByName_shift]
  -- one more declarator exactly when a comma follows
  rcases r2 with _ | ⟨⟨kind, q⟩, r3⟩
  · rfl
  cases kind
  case punct p =>
    cases p
    case comma =>
      have : r3.length < ts.length := by simp only [List.length_cons] at hr2; omega
      exact bind_moved (declarators_moved _) fun z => rfl
    all_goals rfl
  all_goals rfl
termination_by ts.length

theorem declaration_moved :
    declaration stop depth (s.move k j μ) ts =
      moved k j μ (Step.move k j μ (Stmt.shift k j)) (declaration stop depth s ts) := by
  unfold declaration
  refine bind_moved type_move fun x => ?_
  obtain ⟨ty, r1, hr1⟩ := x
  refine bind_moved (declarators_moved hμ []) fun y => ?_
  obtain ⟨items, s1, r2, hr2⟩ := y
  refine bind_moved expect_move fun z => ?_
  simp only [declareAll_move hμ, ParseState.freshNode_move]
  rfl

theorem formals_moved {s : ParseState} {ts : List Token} :
    formals stop depth (s.move k j μ) ts =
      moved k j μ (Step.move k j μ (List.map (Formal.shift k j))) (formals stop depth s ts) := by
  conv_lhs => rw [formals.eq_def]
  conv_rhs => rw [formals.eq_def]
  refine bind_moved type_move fun x => ?_
  obtain ⟨ty, r1, hr1⟩ := x
  refine bind_moved expectIdent_move fun y => ?_
  obtain ⟨name, r2, hr2⟩ := y
  refine bind_moved (initializer_moved hμ) fun z => ?_
  obtain ⟨dflt, s1, r3, hr3⟩ := z
  rcases r3 with _ | ⟨⟨kind, q⟩, r4⟩
  · rfl
  cases kind
  case punct p =>
    cases p
    case comma =>
      have : r4.length < ts.length := by simp only [List.length_cons] at hr3; omega
      exact bind_moved formals_moved fun w => rfl
    all_goals rfl
  all_goals rfl
termination_by ts.length

theorem formalsOrNone_moved :
    formalsOrNone stop depth (s.move k j μ) ts =
      moved k j μ (Steps.move k j μ (List.map (Formal.shift k j))) (formalsOrNone stop depth s ts) := by
  unfold formalsOrNone
  split
  · rfl
  · exact bind_moved (formals_moved hμ) fun x => rfl

theorem exprStatement_moved :
    exprStatement stop depth (s.move k j μ) ts =
      moved k j μ (Step.move k j μ (Stmt.shift k j)) (exprStatement stop depth s ts) := by
  unfold exprStatement
  refine bind_moved (exprMoved hμ stop ts).expression fun x => ?_
  refine bind_moved expect_move fun y => ?_
  simp only [ParseState.freshNode_move]
  rfl

theorem assignment_moved {entry : Entry} :
    assignment stop depth entry (s.move k j μ) ts =
      moved k j μ (Step.move k j μ (Stmt.shift k j)) (assignment stop depth entry s ts) := by
  unfold assignment
  simp only [ParseState.identNode_move]
  refine bind_moved (exprMoved hμ stop ts).expression fun x => ?_
  refine bind_moved expect_move fun y => ?_
  simp only [Step.move, ParseState.freshNode_move]
  rfl

theorem jump_moved {kw : Keyword} :
    jump stop depth kw (s.move k j μ) ts =
      moved k j μ (Steps.move k j μ (Stmt.shift k j)) (jump stop depth kw s ts) := by
  conv_lhs => rw [jump.eq_def]
  split
  · rw [jump.eq_1]
    refine bind_moved (exprMoved hμ stop ts).expression fun x => ?_
    refine bind_moved expect_move fun y => ?_
    simp only [ParseState.freshNode_move]
    rfl
  · rw [jump.eq_2]
    refine bind_moved expect_move fun y => ?_
    simp only [ParseState.freshNode_move]
    rfl
  · rename_i h1 h2
    rw [jump.eq_3 _ _ _ _ _ h1 h2]
    refine bind_moved expect_move fun y => ?_
    simp only [ParseState.freshNode_move]
    rfl

end

structure StmtMoved (stop : Pos) (k j : Nat) (μ : Array Note → Array Note) (ts : List Token) :
    Prop where
  statement {depth : Nat} {s : ParseState} :
    statement stop depth (s.move k j μ) ts =
      moved k j μ (Step.move k j μ (Stmt.shift k j)) (statement stop depth s ts)
  block {depth : Nat} {s : ParseState} :
    block stop depth (s.move k j μ) ts =
      moved k j μ (Step.move k j μ (Stmt.shift k j)) (block stop depth s ts)
  blockItems {depth : Nat} {s : ParseState} :
    blockItems stop depth (s.move k j μ) ts =
      moved k j μ (Steps.move k j μ (List.map (Stmt.shift k j))) (blockItems stop depth s ts)

section

variable {k j : Nat} {μ : Array Note → Array Note} {stop : Pos} {depth : Nat} {s : ParseState}
  {ts : List Token}
variable (hμ : Relabels j μ) (ih : ∀ ts' : List Token, ts'.length < ts.length → StmtMoved stop k j μ ts')
include hμ ih

theorem block_moved :
    block stop depth (s.move k j μ) ts =
      moved k j μ (Step.move k j μ (Stmt.shift k j)) (block stop depth s ts) := by
  conv_lhs => rw [block.eq_def]
  conv_rhs => rw [block.eq_def]
  refine bind_moved expect_move fun x => ?_
  obtain ⟨r1, hr1⟩ := x
  dsimp only [id]
  rw [ParseState.enter_move _ hμ]
  refine bind_moved (ih r1 hr1).blockItems fun y => ?_
  obtain ⟨items, s1, r2, hr2⟩ := y
  refine bind_moved expect_move fun z => ?_
  refine bind_moved (ParseState.exit_move _ hμ _) fun s2 => ?_
  simp only [Steps.move, ParseState.chain_move]
  rcases s2.chain items with ⟨_ | inner, s3⟩
  · simp only [Option.map_none, ParseState.freshNode_move]
    rfl
  · simp only [Option.map_some, ParseState.freshNode_move]
    rfl

theorem funcDef_moved :
    funcDef stop depth (s.move k j μ) ts =
      moved k j μ (Step.move k j μ (Stmt.shift k j)) (funcDef stop depth s ts) := by
  conv_lhs => rw [funcDef.eq_def]
  conv_rhs => rw [funcDef.eq_def]
  refine bind_moved type_move fun x => ?_
  obtain ⟨ret, r1, hr1⟩ := x
  refine bind_moved expectIdent_move fun y => ?_
  obtain ⟨name, r2, hr2⟩ := y
  refine bind_moved expect_move fun z => ?_
  obtain ⟨r3, hr3⟩ := z
  refine bind_moved (formalsOrNone_moved hμ) fun w => ?_
  obtain ⟨fs, s1, r4, hr4⟩ := w
  -- the function's type reads only the parameters' types, which moving leaves alone
  simp only [Steps.move, Formal.map_ty_shift, ParseState.declare_move _ hμ, ParseState.enter_move _ hμ,
    declareParams_move hμ]
  refine bind_moved expect_move fun v => ?_
  obtain ⟨r5, hr5⟩ := v
  refine bind_moved (ih r5 (by omega)).block fun u => ?_
  obtain ⟨body, s3, r6, hr6⟩ := u
  refine bind_moved (ParseState.exit_move _ hμ _) fun s4 => ?_
  -- the name is found in the scopes, which moving leaves alone
  rw [ParseState.move_scopes]
  split
  · simp only [ParseState.freshNode_move]
    rfl
  · rfl

theorem statement_moved :
    statement stop depth (s.move k j μ) ts =
      moved k j μ (Step.move k j μ (Stmt.shift k j)) (statement stop depth s ts) := by
  conv_lhs => rw [statement.eq_def]
  conv_rhs => rw [statement.eq_def]
  split
  · rcases ts with _ | ⟨⟨kind, p⟩, r⟩
    · exact exprStatement_moved hμ
    dsimp only
    cases kind with
    | num v => exact exprStatement_moved hμ
    | eof => exact exprStatement_moved hμ
    | ident name =>
      rcases r with _ | ⟨a, r'⟩
      · exact exprStatement_moved hμ
      dsimp only
      split
      · refine bind_moved (ParseState.resolve_move _ _ _ _) fun entry => ?_
        rw [assignment_moved hμ]
        exact map_moved fun x => rfl
      · exact exprStatement_moved hμ
    | keyword kw =>
      cases kw with
      | intKw | voidKw | constKw =>
        dsimp only
        split
        · exact funcDef_moved hμ ih
        · exact declaration_moved hμ
      | ifKw =>
        dsimp only
        refine bind_moved expect_move fun x => ?_
        obtain ⟨r1, h1⟩ := x
        refine bind_moved (exprMoved hμ stop r1).expression fun y => ?_
        obtain ⟨c, s1, r2, h2⟩ := y
        refine bind_moved expect_move fun z => ?_
        obtain ⟨r3, h3⟩ := z
        refine bind_moved (ih r3 (by dsimp only at h2 h3; simp only [List.length_cons]; omega)).statement
          fun w => ?_
        obtain ⟨th, s2, r4, h4⟩ := w
        -- an `else` after the first branch
        rcases r4 with _ | ⟨⟨kind, q⟩, r5⟩
        · simp only [Step.move, ParseState.freshNode_move]
          rfl
        cases kind
        case keyword kw =>
          cases kw
          case elseKw =>
            refine bind_moved (ih r5 ?_).statement fun v => ?_
            · dsimp only at h2 h3 h4
              simp only [List.length_cons] at h4 ⊢
              omega
            simp only [Step.move, ParseState.freshNode_move]
            rfl
          all_goals simp only [Step.move, ParseState.freshNode_move]; rfl
        all_goals simp only [Step.move, ParseState.freshNode_move]; rfl
      | whileKw =>
        dsimp only
        refine bind_moved expect_move fun x => ?_
        obtain ⟨r1, h1⟩ := x
        refine bind_moved (exprMoved hμ stop r1).expression fun y => ?_
        obtain ⟨c, s1, r2, h2⟩ := y
        refine bind_moved expect_move fun z => ?_
        obtain ⟨r3, h3⟩ := z
        refine bind_moved (ih r3 (by dsimp only at h2 h3; simp only [List.length_cons]; omega)).statement
          fun w => ?_
        simp only [Step.move, ParseState.freshNode_move]
        rfl
      | returnKw | breakKw | continueKw =>
        dsimp only
        rw [jump_moved hμ]
        exact map_moved fun x => rfl
      | elseKw => exact exprStatement_moved hμ
    | punct q =>
      cases q
      case lbrace => exact block_moved hμ ih
      case semicolon =>
        simp only [ParseState.freshNode_move]
        rfl
      all_goals exact exprStatement_moved hμ
  · rfl

theorem blockItems_moved :
    blockItems stop depth (s.move k j μ) ts =
      moved k j μ (Steps.move k j μ (List.map (Stmt.shift k j))) (blockItems stop depth s ts) := by
  conv_lhs => rw [blockItems.eq_def]
  conv_rhs => rw [blockItems.eq_def]
  rcases ts with _ | ⟨t, r⟩
  · rfl
  dsimp only
  split
  · rfl
  · refine bind_moved (statement_moved hμ ih) fun x => ?_
    obtain ⟨st, s1, r1, h1⟩ := x
    exact bind_moved (ih r1 h1).blockItems fun y => rfl

theorem stmtMoved_of_shorter : StmtMoved stop k j μ ts :=
  { statement := statement_moved hμ ih
    block := block_moved hμ ih
    blockItems := blockItems_moved hμ ih }

end

theorem stmtMoved {k j : Nat} {μ : Array Note → Array Note} (hμ : Relabels j μ) (stop : Pos)
    (ts : List Token) : StmtMoved stop k j μ ts := by
  induction ts using tokens_induction with
  | shorter ts ih => exact stmtMoved_of_shorter hμ ih

theorem programItems_moved {k j : Nat} {μ : Array Note → Array Note} (hμ : Relabels j μ) {stop : Pos}
    {s : ParseState} {ts : List Token} :
    programItems stop (s.move k j μ) ts =
      moved k j μ (Steps.move k j μ (List.map (Stmt.shift k j))) (programItems stop s ts) := by
  conv_lhs => rw [programItems.eq_def]
  conv_rhs => rw [programItems.eq_def]
  rcases ts with _ | ⟨t, r⟩
  · rfl
  refine bind_moved (stmtMoved hμ stop _).statement fun x => ?_
  obtain ⟨st, s1, r1, h1⟩ := x
  exact bind_moved (programItems_moved hμ) fun y => rfl
termination_by ts.length
decreasing_by
  simp only [List.length_cons] at *
  omega

theorem parseFrom_move {k j : Nat} {μ : Array Note → Array Note} (hμ : Relabels j μ)
    (s : ParseState) (toks : List Token) :
    Program.parseFrom (s.move k j μ) toks =
      moved k j μ (Program.move k j μ) (Program.parseFrom s toks) := by
  unfold Program.parseFrom
  rcases Program.input toks with ⟨ts, stop⟩
  refine bind_moved (programItems_moved hμ) fun x => ?_
  obtain ⟨items, s1, r1, h1⟩ := x
  simp only [Steps.move, ParseState.chain_move]
  rcases s1.chain items with ⟨_ | root, s2⟩
  · rfl
  · rfl

theorem relabels_shift (j : Nat) : Relabels j (Array.map (Note.shift j)) :=
  fun _ _ => Array.map_push

theorem shifted_eq_moved {α β : Type} (k j : Nat) (g : α → β) (x : Except Failure α) :
    shifted k j g x = moved k j (Array.map (Note.shift j)) g x := by
  cases x <;> rfl

theorem parseFrom_shift (k j : Nat) (s : ParseState) (toks : List Token) :
    Program.parseFrom (s.shift k j) toks =
      shifted k j (Program.shift k j) (Program.parseFrom s toks) := by
  rw [shifted_eq_moved]
  exact parseFrom_move (relabels_shift j) s toks

end ScopedC

import ScopedC.Proofs.Numbering.Tree
import ScopedC.Proofs.Chain
namespace ScopedC

open Parse

-- A parsed value's numbers are among those the parse from s to s' handed out, each taken once,
-- and ordered.
structure Span (P : Prop) (s s' : ParseState) (ids : List Nat) (ops : List (Nat × Nat)) : Prop where
  nodes_le : s.nodes ≤ s'.nodes
  labels_le : s.labels ≤ s'.labels
  ids_mem : ∀ i ∈ ids, s.nodes ≤ i ∧ i < s'.nodes
  ids_nodup : ids.Nodup
  ops_mem : ∀ o ∈ ops, (s.nodes ≤ o.1 ∧ o.1 < s'.nodes) ∧ s.labels ≤ o.2 ∧ o.2 < s'.labels
  labels_nodup : (ops.map (·.2)).Nodup
  ops_mono : ∀ o ∈ ops, ∀ o' ∈ ops, o.1 < o'.1 ↔ o.2 < o'.2
  exact : P → ids.length + s.nodes = s'.nodes ∧ ops.length + s.labels = s'.labels

namespace Span

variable {P Q : Prop} {s s₁ s₂ t t' : ParseState} {I I₁ I₂ : List Nat} {O O₁ O₂ : List (Nat × Nat)}

theorem nil (P : Prop) (s : ParseState) : Span P s s [] [] :=
  ⟨le_rfl, le_rfl, by simp, .nil, by simp, .nil, by simp, fun _ => by simp⟩

theorem fresh (P : Prop) (s : ParseState) : Span P s s.freshNode.2 [s.nodes] [] :=
  ⟨by simp [ParseState.freshNode], le_rfl, by simp [ParseState.freshNode], by simp, by simp,
    .nil, by simp, fun _ => by simp [ParseState.freshNode]; omega⟩

theorem operator (P : Prop) (s : ParseState) :
    Span P s s.freshLabel.2.freshNode.2 [s.nodes] [(s.nodes, s.labels)] :=
  ⟨by simp [ParseState.freshNode, ParseState.freshLabel],
    by simp [ParseState.freshNode, ParseState.freshLabel],
    by simp [ParseState.freshNode, ParseState.freshLabel], by simp,
    by simp [ParseState.freshNode, ParseState.freshLabel], by simp, by simp,
    fun _ => by simp [ParseState.freshNode, ParseState.freshLabel]; omega⟩

theorem range (P : Prop) {m : Nat} (hn : s'.nodes = s.nodes + m) (hl : s'.labels = s.labels) :
    Span P s s' (List.range' s.nodes m) [] :=
  ⟨by omega, by omega, by simp [List.mem_range']; omega, List.nodup_range', by simp, .nil, by simp,
    fun _ => by simp; omega⟩

theorem append (h₁ : Span P s s₁ I₁ O₁) (h₂ : Span P s₁ s₂ I₂ O₂) :
    Span P s s₂ (I₁ ++ I₂) (O₁ ++ O₂) where
  nodes_le := h₁.nodes_le.trans h₂.nodes_le
  labels_le := h₁.labels_le.trans h₂.labels_le
  ids_mem i hi := by
    rcases List.mem_append.1 hi with hi | hi
    · have := h₁.ids_mem i hi; have := h₂.nodes_le; omega
    · have := h₂.ids_mem i hi; have := h₁.nodes_le; omega
  ids_nodup := List.nodup_append.2 ⟨h₁.ids_nodup, h₂.ids_nodup, fun i hi i' hi' => by
    have := h₁.ids_mem i hi; have := h₂.ids_mem i' hi'; omega⟩
  ops_mem o ho := by
    rcases List.mem_append.1 ho with ho | ho
    · have := h₁.ops_mem o ho; have := h₂.nodes_le; have := h₂.labels_le; omega
    · have := h₂.ops_mem o ho; have := h₁.nodes_le; have := h₁.labels_le; omega
  labels_nodup := by
    rw [List.map_append]
    refine List.nodup_append.2 ⟨h₁.labels_nodup, h₂.labels_nodup, fun l hl l' hl' => ?_⟩
    obtain ⟨o, ho, rfl⟩ := List.mem_map.1 hl
    obtain ⟨o', ho', rfl⟩ := List.mem_map.1 hl'
    have := h₁.ops_mem o ho; have := h₂.ops_mem o' ho'; omega
  ops_mono o ho o' ho' := by
    rcases List.mem_append.1 ho with ho | ho <;> rcases List.mem_append.1 ho' with ho' | ho'
    · exact h₁.ops_mono o ho o' ho'
    · have := h₁.ops_mem o ho; have := h₂.ops_mem o' ho'; omega
    · have := h₂.ops_mem o ho; have := h₁.ops_mem o' ho'; omega
    · exact h₂.ops_mono o ho o' ho'
  exact hp := by
    have e₁ := h₁.exact hp
    have e₂ := h₂.exact hp
    simp only [List.length_append]
    omega

-- A parse that ends by numbering the node it built.
theorem node (h : Span P s s' I O) : Span P s s'.freshNode.2 (I ++ [s'.nodes]) O := by
  simpa using h.append (fresh P s')

theorem mono (h : Span P s s' I O) (hQP : Q → P) : Span Q s s' I O :=
  { h with exact := fun hq => h.exact (hQP hq) }

theorem perm {I' : List Nat} {O' : List (Nat × Nat)} (h : Span P s s' I O) (hI : I.Perm I')
    (hO : O.Perm O') : Span P s s' I' O' where
  nodes_le := h.nodes_le
  labels_le := h.labels_le
  ids_mem i hi := h.ids_mem i (hI.mem_iff.2 hi)
  ids_nodup := hI.nodup_iff.1 h.ids_nodup
  ops_mem o ho := h.ops_mem o (hO.mem_iff.2 ho)
  labels_nodup := (hO.map _).nodup_iff.1 h.labels_nodup
  ops_mono o ho o' ho' := h.ops_mono o (hO.mem_iff.2 ho) o' (hO.mem_iff.2 ho')
  exact hp := by rw [← hI.length_eq, ← hO.length_eq]; exact h.exact hp

theorem subperm {I' : List Nat} {O' : List (Nat × Nat)} (h : Span P s s' I O)
    (hI : I'.Subperm I) (hO : O'.Subperm O) : Span False s s' I' O' where
  nodes_le := h.nodes_le
  labels_le := h.labels_le
  ids_mem i hi := h.ids_mem i (hI.subset hi)
  ids_nodup := by
    obtain ⟨l, hp, hs⟩ := hI
    exact hp.nodup_iff.1 (hs.nodup h.ids_nodup)
  ops_mem o ho := h.ops_mem o (hO.subset ho)
  labels_nodup := by
    obtain ⟨l, hp, hs⟩ := hO
    exact (hp.map _).nodup_iff.1 ((hs.map _).nodup h.labels_nodup)
  ops_mono o ho o' ho' := h.ops_mono o (hO.subset ho) o' (hO.subset ho')
  exact := False.elim

theorem congr (h : Span P s s' I O) (h₀ : t.nodes = s.nodes) (h₀' : t.labels = s.labels)
    (h₁ : t'.nodes = s'.nodes) (h₁' : t'.labels = s'.labels) : Span P t t' I O := by
  obtain ⟨a, b, c, d, e, f, g, x⟩ := h
  rw [← h₀, ← h₀', ← h₁, ← h₁'] at *
  exact ⟨a, b, c, d, e, f, g, x⟩

theorem below_nodes (h : Span P s s' I O) : Below s'.nodes I := fun i hi => (h.ids_mem i hi).2

theorem below_labels (h : Span P s s' I O) : Below s'.labels (O.map (·.2)) := by
  intro l hl
  obtain ⟨o, ho, rfl⟩ := List.mem_map.1 hl
  exact (h.ops_mem o ho).2.2

-- Exact numbers, taken once each from a counter, are all the counter passed over.
theorem ids_perm_range (h : Span P s s' I O) (hp : P) : I.Perm (List.range' s.nodes I.length) := by
  have hsub : I.Subperm (List.range' s.nodes I.length) :=
    List.subperm_of_subset h.ids_nodup fun i hi => by
      have := h.ids_mem i hi
      have := (h.exact hp).1
      rw [List.mem_range'_1]
      omega
  exact hsub.perm_of_length_le (by simp)

theorem labels_perm_range (h : Span P s s' I O) (hp : P) :
    (O.map (·.2)).Perm (List.range' s.labels O.length) := by
  have hsub : (O.map (·.2)).Subperm (List.range' s.labels O.length) :=
    List.subperm_of_subset h.labels_nodup fun l hl => by
      obtain ⟨o, ho, rfl⟩ := List.mem_map.1 hl
      have := h.ops_mem o ho
      have := (h.exact hp).2
      rw [List.mem_range'_1]
      omega
  exact hsub.perm_of_length_le (by simp)

end Span

section Declarations

variable {x : String} {i : Option Expr}

-- Inserting a declarator keeps at most the others and itself: it replaces one of the same name.
theorem insertByName_subperm (x : String) (i : Option Expr) (acc : List (String × Option Expr)) :
    (insertByName x i acc).Subperm ((x, i) :: acc) := by
  induction acc with
  | nil => exact List.Subperm.refl _
  | cons y more ih =>
    obtain ⟨n, j⟩ := y
    simp only [insertByName]
    split_ifs
    · exact List.Subperm.refl _
    · exact (List.subperm_cons _).2 (List.sublist_cons_self _ _).subperm
    · exact ((List.subperm_cons _).2 ih).trans (List.Perm.swap _ _ _).subperm

theorem insertByName_perm {acc : List (String × Option Expr)} (h : x ∉ acc.map Prod.fst) :
    (insertByName x i acc).Perm ((x, i) :: acc) := by
  induction acc with
  | nil => exact List.Perm.refl _
  | cons y more ih =>
    obtain ⟨n, j⟩ := y
    simp only [List.map_cons, List.mem_cons, not_or] at h
    simp only [insertByName]
    split_ifs with hlt heq
    · exact List.Perm.refl _
    · exact absurd heq h.1
    · exact ((ih h.2).cons _).trans (List.Perm.swap _ _ _)

theorem foldl_insertByName_subperm (read acc : List (String × Option Expr)) :
    (read.foldl (fun acc x => insertByName x.1 x.2 acc) acc).Subperm (acc ++ read) := by
  induction read generalizing acc with
  | nil => simpa using List.Subperm.refl acc
  | cons y read ih =>
    rw [List.foldl_cons]
    refine (ih _).trans ?_
    have step := (insertByName_subperm y.1 y.2 acc).append (List.Subperm.refl read)
    exact step.trans (List.perm_middle.symm.subperm)

theorem foldl_insertByName_perm {read acc : List (String × Option Expr)}
    (h : (acc.map Prod.fst ++ read.map Prod.fst).Nodup) :
    (read.foldl (fun acc x => insertByName x.1 x.2 acc) acc).Perm (acc ++ read) := by
  induction read generalizing acc with
  | nil => simp
  | cons y read ih =>
    rw [List.foldl_cons]
    have hy : y.1 ∉ acc.map Prod.fst := by
      intro hm
      exact (List.nodup_append.1 h).2.2 _ hm _ (by simp) rfl
    have hins := insertByName_perm (i := y.2) hy
    refine (ih ?_).trans ?_
    · have : ((insertByName y.1 y.2 acc).map Prod.fst ++ read.map Prod.fst).Perm
          (acc.map Prod.fst ++ (y :: read).map Prod.fst) := by
        rw [List.map_cons]
        exact ((hins.map _).append_right _).trans (by simpa using List.perm_middle.symm)
      exact this.nodup_iff.2 h
    · exact (hins.append_right _).trans List.perm_middle.symm

-- The counters under the state updates of a parse.
@[simp] theorem freshNode_nodes (s : ParseState) : s.freshNode.2.nodes = s.nodes + 1 := rfl
@[simp] theorem freshNode_labels (s : ParseState) : s.freshNode.2.labels = s.labels := rfl
@[simp] theorem identNode_nodes (s : ParseState) (e : Entry) (l : Option Int) :
    (s.identNode e l).2.nodes = s.nodes + 1 := rfl
@[simp] theorem identNode_labels (s : ParseState) (e : Entry) (l : Option Int) :
    (s.identNode e l).2.labels = s.labels := rfl
@[simp] theorem declare_nodes (s : ParseState) (name : String) (ty : Ty) :
    (s.declare name ty).2.nodes = s.nodes := rfl
@[simp] theorem declare_labels (s : ParseState) (name : String) (ty : Ty) :
    (s.declare name ty).2.labels = s.labels := rfl
@[simp] theorem enter_nodes (s : ParseState) : s.enter.nodes = s.nodes := rfl
@[simp] theorem enter_labels (s : ParseState) : s.enter.labels = s.labels := rfl

theorem exit_counters {s s' : ParseState} {ts : List Token} (h : s.exit ts = .ok s') :
    s'.nodes = s.nodes ∧ s'.labels = s.labels := by
  unfold ParseState.exit at h
  split at h
  · cases h
    exact ⟨rfl, rfl⟩
  · cases h

-- Declaring a declaration's names numbers them in order, after all its initializers.
theorem declareAll_numbers (ty : Ty) (items : List (String × Option Expr)) (s : ParseState) :
    (declareAll ty items s).1.map (·.2) = items.map (·.2) ∧
      (declareAll ty items s).1.map (·.1.node) = List.range' s.nodes items.length ∧
      (declareAll ty items s).2.nodes = s.nodes + items.length ∧
      (declareAll ty items s).2.labels = s.labels := by
  induction items generalizing s with
  | nil => simp [declareAll]
  | cons item more ih =>
    simp only [declareAll, List.map_cons, List.length_cons, List.range'_succ, ih, identNode_fst,
      identNode_nodes, declare_nodes, identNode_labels, declare_labels, true_and, and_true]
    omega

-- Declaring the parameters numbers them in order, after all their defaults.
theorem declareParams_numbers (fs : List Formal) (s : ParseState) :
    (declareParams fs s).1.map (·.default) = fs.map (·.default) ∧
      (declareParams fs s).1.map (·.ident.node) = List.range' s.nodes fs.length ∧
      (declareParams fs s).2.nodes = s.nodes + fs.length ∧
      (declareParams fs s).2.labels = s.labels := by
  induction fs generalizing s with
  | nil => simp [declareParams]
  | cons f more ih =>
    simp only [declareParams, List.map_cons, List.length_cons, List.range'_succ, ih,
      identNode_fst, identNode_nodes, declare_nodes, identNode_labels, declare_labels, true_and,
      and_true]
    omega

theorem Subperm.flatMap_right {α β : Type} {l₁ l₂ : List α} (h : l₁.Subperm l₂) (f : α → List β) :
    (l₁.flatMap f).Subperm (l₂.flatMap f) := by
  obtain ⟨l, hp, hs⟩ := h
  exact ⟨l.flatMap f, hp.flatMap_right f, hs.flatMap f⟩

-- The numbers of a declaration's items: their initializers' and their names'.
theorem declIds_perm (items : List (Ident × Option Expr)) :
    (Stmt.declIds items).Perm ((items.map (·.2)).flatMap Expr.optIds ++ items.map (·.1.node)) := by
  induction items with
  | nil => simp [Stmt.declIds]
  | cons item more ih =>
    rw [List.perm_iff_count] at ih ⊢
    intro a
    have := ih a
    simp only [Stmt.declIds, List.flatMap_cons, List.map_cons, List.count_append,
      List.count_cons, List.count_nil] at this ⊢
    omega

-- The numbers of a list of parameters: their defaults' and their names'.
theorem paramIds_perm (params : List Param) :
    (params.flatMap Param.ids).Perm
      ((params.map (·.default)).flatMap Expr.optIds ++ params.map (·.ident.node)) := by
  induction params with
  | nil => simp
  | cons p more ih =>
    rw [List.perm_iff_count] at ih ⊢
    intro a
    have := ih a
    simp only [Param.ids, List.flatMap_cons, List.map_cons, List.count_append, List.count_cons,
      List.count_nil] at this ⊢
    omega

end Declarations

namespace Stmt

-- The links of a chain are numbered after the statements they link, one number each.
theorem chainOnto_ids (last : Stmt) (earlier : List Stmt) (n : Nat) :
    (chainOnto last earlier n).1.ids.Perm
      (last.ids ++ earlier.flatMap ids ++ List.range' n earlier.length) := by
  induction earlier generalizing last n with
  | nil => simp
  | cons x more ih =>
    refine (ih _ _).trans (List.perm_iff_count.2 fun a => ?_)
    simp only [ids, List.flatMap_cons, List.length_cons, List.range'_succ, List.count_append,
      List.count_cons, List.count_nil]
    omega

theorem chainOnto_ops (last : Stmt) (earlier : List Stmt) (n : Nat) :
    (chainOnto last earlier n).1.ops.Perm (last.ops ++ earlier.flatMap ops) := by
  induction earlier generalizing last n with
  | nil => simp
  | cons x more ih =>
    refine (ih _ _).trans (List.perm_iff_count.2 fun a => ?_)
    simp only [ops, List.flatMap_cons, List.count_append]
    omega

theorem chainOnto_ordered {last : Stmt} {earlier : List Stmt} {n : Nat} (hlast : last.Ordered)
    (hearlier : ∀ x ∈ earlier, x.Ordered) (hbelow : Below n (last.ids ++ earlier.flatMap ids)) :
    (chainOnto last earlier n).1.Ordered := by
  induction earlier generalizing last n with
  | nil => exact hlast
  | cons x more ih =>
    simp only [chainOnto_cons]
    have hb : Below n (x.ids ++ last.ids ++ more.flatMap ids) := fun i hi => hbelow i (by
      simp only [List.mem_append, List.flatMap_cons] at hi ⊢
      tauto)
    -- the new link is numbered above the statement and the chain it joins
    have link : (seq n x last).Ordered :=
      ⟨hearlier x (by simp), hlast, fun i hi => hb i (List.mem_append_left _ hi)⟩
    refine ih link (fun y hy => hearlier y (by simp [hy])) fun i hi => ?_
    simp only [ids, List.mem_append, List.mem_singleton] at hi
    rcases hi with ((hi | hi) | rfl) | hi
    · have := hb i (by simp [hi]); omega
    · have := hb i (by simp [hi]); omega
    · omega
    · have := hb i (by simp [hi]); omega

end Stmt

def Stmt.Numbered (P : Prop) (s s' : ParseState) (st : Stmt) : Prop :=
  Span P s s' st.ids st.ops ∧ st.Ordered

theorem chain_numbered {P : Prop} {s₀ s s' : ParseState} {items : List Stmt} {root : Stmt}
    (h : s.chain items = (some root, s'))
    (hspan : Span P s₀ s (items.flatMap Stmt.ids) (items.flatMap Stmt.ops))
    (hord : ∀ x ∈ items, x.Ordered) : root.Numbered P s₀ s' := by
  unfold ParseState.chain at h
  rcases hc : Stmt.chain items s.nodes with ⟨chained, n⟩
  rw [hc] at h
  cases h
  rcases List.eq_nil_or_concat items with rfl | ⟨earlier, last, rfl⟩
  · cases hc
  rw [List.concat_eq_append] at hspan hord hc
  rw [Stmt.chain_append_singleton, Prod.mk.injEq, Option.some.injEq] at hc
  obtain ⟨rfl, rfl⟩ := hc
  have hn := Stmt.chainOnto_next last earlier.reverse s.nodes
  -- the statements, then the links numbered after them
  have links : Span P s { s with nodes := (Stmt.chainOnto last earlier.reverse s.nodes).2 }
      (List.range' s.nodes earlier.reverse.length) [] := Span.range P hn rfl
  have joined := hspan.append links
  rw [List.append_nil] at joined
  have hperm : ((earlier ++ [last]).flatMap Stmt.ids ++ List.range' s.nodes earlier.reverse.length).Perm
      (last.ids ++ earlier.reverse.flatMap Stmt.ids ++ List.range' s.nodes earlier.reverse.length) := by
    refine List.Perm.append_right _ ?_
    rw [List.flatMap_append, List.flatMap_singleton]
    exact List.perm_append_comm.trans
      (List.Perm.append_left _ ((List.reverse_perm earlier).flatMap_right _).symm)
  have hops : ((earlier ++ [last]).flatMap Stmt.ops).Perm
      (last.ops ++ earlier.reverse.flatMap Stmt.ops) := by
    rw [List.flatMap_append, List.flatMap_singleton]
    exact List.perm_append_comm.trans
      (List.Perm.append_left _ ((List.reverse_perm earlier).flatMap_right _).symm)
  refine ⟨joined.perm (hperm.trans (Stmt.chainOnto_ids _ _ _).symm)
    (hops.trans (Stmt.chainOnto_ops _ _ _).symm), ?_⟩
  refine Stmt.chainOnto_ordered (hord last (by simp)) (fun x hx => hord x (by simp_all))
    fun i hi => hspan.below_nodes i ?_
  simp only [List.mem_append, List.mem_flatMap, List.mem_reverse, List.mem_singleton] at hi ⊢
  rcases hi with hi | ⟨a, ha, hi⟩
  · exact ⟨last, .inr rfl, hi⟩
  · exact ⟨a, .inl ha, hi⟩

end ScopedC

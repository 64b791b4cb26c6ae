import ScopedC.Proofs.Numbering.Parse
namespace ScopedC

open Parse

def lastInit (ds : List (String × Option Expr)) (x : String) : Option (Option Expr) :=
  ((ds.filter (·.1 == x)).getLast?).map Prod.snd

-- One declarator per name of read, in increasing order of the names, each with the initializer of
-- the last declarator of read of that name.
structure KeepsLast (read kept : List (String × Option Expr)) : Prop where
  sorted : (kept.map Prod.fst).Pairwise (· < ·)
  names : ∀ x, x ∈ kept.map Prod.fst ↔ x ∈ read.map Prod.fst
  last : ∀ p ∈ kept, lastInit read p.1 = some p.2

-- Inserting by name

theorem lastInit_concat_self (ds : List (String × Option Expr)) (x : String) (i : Option Expr) :
    lastInit (ds ++ [(x, i)]) x = some i := by
  simp [lastInit, List.filter_append]

theorem lastInit_concat_of_ne {ds : List (String × Option Expr)} {x y : String} (i : Option Expr)
    (h : y ≠ x) : lastInit (ds ++ [(x, i)]) y = lastInit ds y := by
  simp [lastInit, List.filter_append, Ne.symm h]

theorem mem_insertByName_names {x y : String} {i : Option Expr} :
    ∀ {acc : List (String × Option Expr)},
      y ∈ (insertByName x i acc).map Prod.fst ↔ y = x ∨ y ∈ acc.map Prod.fst
  | [] => by simp [insertByName]
  | (n, j) :: more => by
    unfold insertByName
    split_ifs with hlt heq
    · simp
    · subst heq
      simp
    · simp only [List.map_cons, List.mem_cons, mem_insertByName_names]
      tauto

theorem insertByName_sorted {x : String} {i : Option Expr} :
    ∀ {acc : List (String × Option Expr)}, (acc.map Prod.fst).Pairwise (· < ·) →
      ((insertByName x i acc).map Prod.fst).Pairwise (· < ·)
  | [], _ => by simp [insertByName]
  | (n, j) :: more, h => by
    rw [List.map_cons, List.pairwise_cons] at h
    obtain ⟨hn, hmore⟩ := h
    unfold insertByName
    split_ifs with hlt heq
    · simp only [List.map_cons, List.pairwise_cons, List.mem_cons]
      refine ⟨?_, hn, hmore⟩
      rintro y (rfl | hy)
      · exact hlt
      · exact lt_trans hlt (hn y hy)
    · subst heq
      simpa using And.intro hn hmore
    · have hgt : n < x := lt_of_le_of_ne (not_lt.1 hlt) (Ne.symm heq)
      simp only [List.map_cons, List.pairwise_cons]
      refine ⟨fun y hy => ?_, insertByName_sorted hmore⟩
      rcases mem_insertByName_names.1 hy with rfl | hy
      · exact hgt
      · exact hn y hy

theorem mem_insertByName {x : String} {i : Option Expr} :
    ∀ {acc : List (String × Option Expr)}, (acc.map Prod.fst).Pairwise (· < ·) →
      ∀ {p}, p ∈ insertByName x i acc → p = (x, i) ∨ p.1 ≠ x ∧ p ∈ acc
  | [], _, p, hp => by simpa [insertByName] using hp
  | (n, j) :: more, h, p, hp => by
    rw [List.map_cons, List.pairwise_cons] at h
    obtain ⟨hn, hmore⟩ := h
    unfold insertByName at hp
    split_ifs at hp with hlt heq
    · -- in front: every name behind is at least `n`, above `x`
      rcases List.mem_cons.1 hp with rfl | hp
      · exact .inl rfl
      · refine .inr ⟨?_, hp⟩
        have hle : n ≤ p.1 := by
          rcases List.mem_cons.1 hp with rfl | hp
          · exact le_rfl
          · exact (hn p.1 (List.mem_map_of_mem hp)).le
        exact ne_of_gt (lt_of_lt_of_le hlt hle)
    · -- in place of the declarator of the same name
      subst heq
      rcases List.mem_cons.1 hp with rfl | hp
      · exact .inl rfl
      · exact .inr ⟨ne_of_gt (hn p.1 (List.mem_map_of_mem hp)), List.mem_cons_of_mem _ hp⟩
    · rcases List.mem_cons.1 hp with rfl | hp
      · exact .inr ⟨Ne.symm heq, List.mem_cons_self⟩
      · rcases mem_insertByName hmore hp with rfl | ⟨hne, hp⟩
        · exact .inl rfl
        · exact .inr ⟨hne, List.mem_cons_of_mem _ hp⟩

theorem foldl_insertByName_keepsLast (read : List (String × Option Expr)) :
    KeepsLast read (read.foldl (fun acc x => insertByName x.1 x.2 acc) []) := by
  -- the fold inserts the declarators left to right, so the list read grows at its end
  induction read using List.reverseRecOn with
  | nil => exact ⟨.nil, by simp, by simp⟩
  | append_singleton ds d ih =>
    rw [List.foldl_append, List.foldl_cons, List.foldl_nil]
    refine ⟨insertByName_sorted ih.sorted, fun y => ?_, fun p hp => ?_⟩
    · rw [mem_insertByName_names, ih.names, List.map_append, List.mem_append]
      simp [or_comm]
    · rcases mem_insertByName ih.sorted hp with rfl | ⟨hne, hp⟩
      · exact lastInit_concat_self ds _ _
      · rw [lastInit_concat_of_ne _ hne]
        exact ih.last p hp

-- The declaration

theorem Declared.entries {env env' : Scopes Entry} {d d' : Nat} {ty : Ty}
    {items : List (String × Option Expr)} {decls : List (Ident × Option Expr)}
    (h : Declared env d ty items decls env' d') :
    List.Forall₂ (fun dcl p => ∃ k, dcl.1.entry = .ident k p.1 ty env.level ∧ dcl.2 = p.2)
      decls items := by
  induction h with
  | nil => exact .nil
  | cons _ ih =>
    refine .cons ⟨_, rfl, rfl⟩ ?_
    simpa using ih

theorem declaration_keeps_last {stop : Pos} {depth : Nat} {s : ParseState} {ts : List Token}
    {r : Step ts Stmt} (h : declaration stop depth s ts = .ok r) :
    ∃ (ty : Ty) (afterType : List Token) (ds : List (String × Option Raw.Expr)) (q : Pos)
      (read kept : List (String × Option Expr)) (n : Nat) (decls : List (Ident × Option Expr)),
      Gram.TypeName ts ty afterType ∧
      Gram.Declarators afterType ds (⟨.punct .semicolon, q⟩ :: r.rest) ∧
      List.Forall₂ (ResolvedDeclarator s.scopes) ds read ∧ KeepsLast read kept ∧
      r.value = .decl n decls ∧
      List.Forall₂ (fun dcl p => ∃ k, dcl.1.entry = .ident k p.1 ty s.scopes.level ∧ dcl.2 = p.2)
        decls kept ∧
      ∃ m, decls.map (·.1.node) = List.range' m decls.length ∧
        (∀ p ∈ read, ∀ i ∈ Expr.optIds p.2, i < m) ∧
        ∀ p ∈ decls, ∀ i ∈ Expr.optIds p.2, i < m := by
  unfold declaration at h
  obtain ⟨⟨ty, r1, hr1⟩, hty, h⟩ := bind_eq_ok h
  obtain ⟨⟨items, s1, r2, hr2⟩, hitems, h⟩ := bind_eq_ok h
  obtain ⟨⟨r3, hr3⟩, hsemi, h⟩ := bind_eq_ok h
  cases h
  obtain ⟨ds, read, g, -, hrel, hkept, hspan, -⟩ := declarators_numbered hitems
  dsimp only at g hkept hspan
  obtain ⟨q, rfl⟩ := expect_ok hsemi
  -- every initializer read, kept or not, is numbered before the names are declared
  have hread : ∀ p ∈ read, ∀ i ∈ Expr.optIds p.2, i < s1.nodes := fun p hp i hi =>
    (hspan.ids_mem i (List.mem_flatMap.2 ⟨p, hp, hi⟩)).2
  obtain ⟨hinits, hnodes, -, -⟩ := declareAll_numbers ty items s1
  have hsub := foldl_insertByName_subperm read []
  rw [← hkept, List.nil_append] at hsub
  have declared := declareAll_declared ty items s1
  rw [(declarators_reads hitems).scopes] at declared
  refine ⟨ty, r1, ds, q, read, items, _, _, type_ok hty, g, hrel,
    hkept ▸ foldl_insertByName_keepsLast read, rfl, declared.entries, s1.nodes, ?_, hread, ?_⟩
  · have hlen : (declareAll ty items s1).1.length = items.length := by
      simpa using congrArg List.length hinits
    rw [hnodes, hlen]
  · intro p hp i hi
    obtain ⟨x, hx, hx2⟩ := List.mem_map.1 (hinits ▸ List.mem_map_of_mem hp : p.2 ∈ items.map (·.2))
    exact hread x (hsub.subset hx) i (hx2 ▸ hi)

-- The tokens of `int b = 1, a, b;`.
def redeclaration : List Token :=
  [⟨.keyword .intKw, ⟨1, 1⟩⟩, ⟨.ident "b", ⟨1, 5⟩⟩, ⟨.punct .assign, ⟨1, 7⟩⟩,
    ⟨.num 1, ⟨1, 9⟩⟩, ⟨.punct .comma, ⟨1, 10⟩⟩, ⟨.ident "a", ⟨1, 12⟩⟩,
    ⟨.punct .comma, ⟨1, 13⟩⟩, ⟨.ident "b", ⟨1, 15⟩⟩, ⟨.punct .semicolon, ⟨1, 16⟩⟩]

theorem declaration_keeps_last_redeclared :
    ∃ r, declaration Pos.start 0 (Program.initialState false) redeclaration = .ok r ∧
      ∃ (ty : Ty) (afterType : List Token) (ds : List (String × Option Raw.Expr)) (q : Pos)
        (read kept : List (String × Option Expr)) (n : Nat) (decls : List (Ident × Option Expr)),
        Gram.TypeName redeclaration ty afterType ∧
        Gram.Declarators afterType ds (⟨.punct .semicolon, q⟩ :: r.rest) ∧
        List.Forall₂ (ResolvedDeclarator (Program.initialState false).scopes) ds read ∧ KeepsLast read kept ∧
        r.value = .decl n decls ∧
        List.Forall₂ (fun dcl p => ∃ k, dcl.1.entry = .ident k p.1 ty (Program.initialState false).scopes.level ∧
          dcl.2 = p.2) decls kept ∧
        ∃ m, decls.map (·.1.node) = List.range' m decls.length ∧
          (∀ p ∈ read, ∀ i ∈ Expr.optIds p.2, i < m) ∧
          ∀ p ∈ decls, ∀ i ∈ Expr.optIds p.2, i < m := by
  obtain ⟨r, hr⟩ := ok_of_toBool
    (by cbv : (declaration Pos.start 0 (Program.initialState false) redeclaration).toBool = true)
  exact ⟨r, hr, declaration_keeps_last hr⟩

end ScopedC

import ScopedC.Proofs.Soundness.Stmt
namespace ScopedC

open Parse

namespace Stmt

theorem chain_nil (n : Nat) : chain [] n = (none, n) := rfl

theorem chain_append_singleton (earlier : List Stmt) (last : Stmt) (n : Nat) :
    chain (earlier ++ [last]) n =
      (some (chainOnto last earlier.reverse n).1, (chainOnto last earlier.reverse n).2) := by
  simp [chain]

theorem statements_of_links {x : Stmt} (h : x.links = []) : x.statements = [x] := by
  cases x <;> simp_all [statements, links]

theorem flatMap_statements_of_links {xs : List Stmt} (h : ∀ x ∈ xs, x.links = []) :
    xs.flatMap statements = xs := by
  induction xs with
  | nil => rfl
  | cons x more ih =>
    rw [List.flatMap_cons, statements_of_links (h x (by simp)),
      ih (fun y hy => h y (by simp [hy]))]
    rfl

end Stmt

-- A resolved statement is one statement, never a link: a block resolves to a block node.
theorem ResolvedStmt.links_eq_nil {env env' : Scopes Entry} {d d' : Nat} {raw : Raw.Stmt}
    {x : Stmt} (h : ResolvedStmt env d raw x env' d') : x.links = [] := by
  cases h with
  | block b => cases b <;> rfl
  | _ => rfl

theorem ResolvedItems.links_eq_nil {env env' : Scopes Entry} {d d' : Nat} {raws : List Raw.Stmt}
    {items : List Stmt} (h : ResolvedItems env d raws items env' d') :
    ∀ x ∈ items, x.links = [] := by
  -- on the items, as each one resolves its written statement
  induction items generalizing env d raws with
  | nil => simp
  | cons y more ih =>
    cases h with
    | cons first rest =>
      intro x hx
      rcases List.mem_cons.mp hx with rfl | hx
      · exact first.links_eq_nil
      · exact ih rest x hx

theorem links_of_programItems {stop : Pos} {s : ParseState} {ts : List Token}
    {r : Steps ts (List Stmt)} (h : Parse.programItems stop s ts = .ok r) :
    ∀ x ∈ r.value, x.links = [] := by
  obtain ⟨-, raws, -, res⟩ := programItems_reads h
  exact res.links_eq_nil

theorem links_of_blockItems {stop : Pos} {depth : Nat} {s : ParseState} {ts : List Token}
    {r : Steps ts (List Stmt)} (h : Parse.blockItems stop depth s ts = .ok r) :
    ∀ x ∈ r.value, x.links = [] := by
  obtain ⟨raws, -, res⟩ := (stmtSound stop ts).blockItems h
  exact res.links_eq_nil

-- The chain has one fresh link per statement but the last, numbered from n upward from the
-- innermost link outward.
theorem chain_statements (xs : List Stmt) (n : Nat) :
    (Stmt.chain [] n).1 = none ∧
    (Stmt.chain xs n).2 = n + (xs.length - 1) ∧
    (Stmt.chain xs n).1.map Stmt.links =
      xs.getLast?.map (fun last => (List.range' n (xs.length - 1)).reverse ++ last.links) ∧
    (Stmt.chain xs n).1.map Stmt.statements =
      xs.getLast?.map (fun _ => xs.flatMap Stmt.statements) ∧
    ((∀ x ∈ xs, x.links = []) → (Stmt.chain xs n).1.map Stmt.statements =
      xs.getLast?.map (fun _ => xs)) ∧
    (∀ (stop : Pos) (s : ParseState) (ts : List Token) (r : Steps ts (List Stmt)),
      Parse.programItems stop s ts = .ok r → ∀ x ∈ r.value, x.links = []) ∧
    (∀ (stop : Pos) (depth : Nat) (s : ParseState) (ts : List Token) (r : Steps ts (List Stmt)),
      Parse.blockItems stop depth s ts = .ok r → ∀ x ∈ r.value, x.links = []) := by
  refine ⟨rfl, ?_, ?_, ?_, ?_, fun _ _ _ _ h => links_of_programItems h,
    fun _ _ _ _ _ h => links_of_blockItems h⟩
  all_goals
    rcases List.eq_nil_or_concat xs with rfl | ⟨earlier, last, rfl⟩
  all_goals
    simp [Stmt.chain_nil, Stmt.chain_append_singleton, Stmt.chainOnto_next,
      Stmt.links_chainOnto, Stmt.statements_chainOnto]
  intro h
  rw [Stmt.flatMap_statements_of_links (fun x hx => h x (.inl hx)),
    Stmt.statements_of_links (h last (.inr rfl))]

theorem chain_statements_two_empty :
    (Stmt.chain [] 2).1 = none ∧
    (Stmt.chain [.empty 0, .empty 1] 2).2 = 2 + ([Stmt.empty 0, .empty 1].length - 1) ∧
    ((∀ x ∈ [Stmt.empty 0, .empty 1], x.links = []) ∧
      (Stmt.chain [.empty 0, .empty 1] 2).1.map Stmt.statements = some [.empty 0, .empty 1]) ∧
    (Parse.programItems ⟨1, 3⟩ { scopes := Scopes.root }
        [⟨.punct .semicolon, ⟨1, 1⟩⟩, ⟨.punct .semicolon, ⟨1, 2⟩⟩] =
      .ok ⟨[.empty 0, .empty 1], { scopes := Scopes.root, nodes := 2 }, [], by decide⟩ ∧
      ∀ x ∈ [Stmt.empty 0, .empty 1], x.links = []) := by
  have hl : ∀ x ∈ [Stmt.empty 0, .empty 1], x.links = [] := by simp [Stmt.links]
  have hp : Parse.programItems ⟨1, 3⟩ { scopes := Scopes.root }
        [⟨.punct .semicolon, ⟨1, 1⟩⟩, ⟨.punct .semicolon, ⟨1, 2⟩⟩] =
      .ok ⟨[.empty 0, .empty 1], { scopes := Scopes.root, nodes := 2 }, [], by decide⟩ := by
    cbv
  obtain ⟨h0, h1, _, _, h4, h5, -⟩ := chain_statements [.empty 0, .empty 1] 2
  exact ⟨h0, h1, ⟨hl, h4 hl⟩, hp, h5 _ _ _ _ hp⟩

end ScopedC

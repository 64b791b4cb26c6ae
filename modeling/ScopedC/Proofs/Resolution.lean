import ScopedC.Proofs.Soundness.Stmt
import ScopedC.Program
import Mathlib
namespace ScopedC

open Parse

-- What an accepted program is made of: the statements as written, read off the tokens before
-- the end marker, and their resolutions, which the root chains.
theorem parseFrom_reads {s : ParseState} {toks : List Token} {p : Program}
    (h : Program.parseFrom s toks = .ok p) :
    ∃ items items', Gram.Items (Program.input toks).1 items [] ∧
      ResolvedItems s.scopes s.decls items items' p.state.scopes p.state.decls ∧
      Chains items' p.root := by
  unfold Program.parseFrom at h
  rcases hin : Program.input toks with ⟨ts, stop⟩
  rw [hin] at h
  obtain ⟨⟨items', s1, r1, hr1⟩, hitems, h⟩ := bind_eq_ok h
  obtain ⟨hnil, items, g, res⟩ := programItems_reads hitems
  dsimp only at hnil g res h
  rcases hc : Stmt.chain items' s1.nodes with ⟨root, n⟩
  simp only [ParseState.chain, hc] at h
  cases root with
  | none => cases h
  | some root =>
    cases h
    rw [hnil] at g
    exact ⟨items, items', g, res, chains_of_chain (by rw [hc])⟩

-- Static scoping: every name in the tree of an accepted program stands for the entry that
-- static scoping gives it, from the scopes the parse started in; declared names and
-- parameters hold fresh entries.
theorem parseFrom_resolves_statically {s : ParseState} {toks : List Token} {p : Program}
    (h : Program.parseFrom s toks = .ok p) :
    ∃ items, Gram.Items (Program.input toks).1 items [] ∧
      ResolvedProgram s.scopes s.decls items p.root p.state.scopes p.state.decls := by
  obtain ⟨items, items', g, res, chains⟩ := parseFrom_reads h
  exact ⟨items, g, items', res, chains⟩

-- The tokens of `int x; x = x;`.
def declareThenAssign : List Token :=
  [⟨.keyword .intKw, ⟨1, 1⟩⟩, ⟨.ident "x", ⟨1, 5⟩⟩, ⟨.punct .semicolon, ⟨1, 6⟩⟩,
    ⟨.ident "x", ⟨1, 8⟩⟩, ⟨.punct .assign, ⟨1, 10⟩⟩, ⟨.ident "x", ⟨1, 12⟩⟩,
    ⟨.punct .semicolon, ⟨1, 13⟩⟩]

theorem declareThenAssign_resolves :
    ∃ p, Program.parseFrom (Program.initialState false) declareThenAssign = .ok p ∧
      ∃ items, Gram.Items (Program.input declareThenAssign).1 items [] ∧
        ResolvedProgram Scopes.root 0 items p.root p.state.scopes p.state.decls := by
  obtain ⟨p, hp⟩ := ok_of_toBool
    (by cbv : (Program.parseFrom (Program.initialState false) declareThenAssign).toBool = true)
  exact ⟨p, hp, parseFrom_resolves_statically hp⟩

end ScopedC

import ScopedC.Proofs.Resolution
import ScopedC.Proofs.Unambiguity
import ScopedC.Proofs.Nesting.Shallow
namespace ScopedC

open Parse

-- The statements of a chained list are not empty, and neither are the statements they resolve.
theorem ResolvedItems.ne_nil_of_chains {env env' : Scopes Entry} {d d' : Nat}
    {items : List Raw.Stmt} {items' : List Stmt} {root : Stmt}
    (res : ResolvedItems env d items items' env' d') (chains : Chains items' root) : items ≠ [] := by
  rintro rfl
  cases res
  cases chains

-- An accepted program is a sentence of the grammar.
theorem parseFrom_sentence {s : ParseState} {toks : List Token} {p : Program}
    (h : Program.parseFrom s toks = .ok p) :
    ∃ items, Gram.Sentence (Program.input toks).1 items ∧
      ResolvedProgram s.scopes s.decls items p.root p.state.scopes p.state.decls := by
  obtain ⟨items, items', g, res, chains⟩ := parseFrom_reads h
  exact ⟨items, ⟨g, res.ne_nil_of_chains chains⟩, items', res, chains⟩

-- The parser accepts exactly the sentences: an accepted program is the one reading of its
-- tokens, resolved; a sentence is accepted with that tree unless it fails admissibly; and a
-- sentence that resolves is accepted whenever its parse nests no deeper than the limit.
theorem parseFrom_accepts_sentences (s : ParseState) (toks : List Token) :
    (∀ p, Program.parseFrom s toks = .ok p →
      ∃ items, Gram.Sentence (Program.input toks).1 items ∧
        (∀ items', Gram.Sentence (Program.input toks).1 items' → items' = items) ∧
        ResolvedProgram s.scopes s.decls items p.root p.state.scopes p.state.decls) ∧
    (∀ items, Gram.Sentence (Program.input toks).1 items →
      Completes (∃ root env' d', ResolvedProgram s.scopes s.decls items root env' d')
        (2 + (Program.input toks).1.length)
        (fun p => ResolvedProgram s.scopes s.decls items p.root p.state.scopes p.state.decls)
        (Program.parseFrom s toks)) ∧
    ∀ items, Gram.Sentence (Program.input toks).1 items →
      (∃ root env' d', ResolvedProgram s.scopes s.decls items root env' d') →
      Program.nestingDepth s toks ≤ nestingLimit →
      ∃ p, Program.parseFrom s toks = .ok p ∧
        ResolvedProgram s.scopes s.decls items p.root p.state.scopes p.state.decls := by
  refine ⟨fun p h => ?_, fun items g => parseFrom_completes s toks g,
    fun items g hres hd => Program.parseFrom_ok_of_shallow g hres hd⟩
  obtain ⟨items, g, res⟩ := parseFrom_sentence h
  exact ⟨items, g, fun items' g' => g'.unique g, res⟩

theorem declareThenAssign_accepted :
    ∃ p, Program.parseFrom (Program.initialState false) declareThenAssign = .ok p ∧
      ∃ items, Gram.Sentence (Program.input declareThenAssign).1 items ∧
        (∀ items', Gram.Sentence (Program.input declareThenAssign).1 items' → items' = items) ∧
        ResolvedProgram Scopes.root 0 items p.root p.state.scopes p.state.decls := by
  obtain ⟨p, hp⟩ := ok_of_toBool
    (by cbv : (Program.parseFrom (Program.initialState false) declareThenAssign).toBool = true)
  exact ⟨p, hp, (parseFrom_accepts_sentences _ _).1 p hp⟩

end ScopedC

import ScopedC.Proofs.Nesting.Refinement
import ScopedC.Proofs.Parser.Run
import ScopedC.Proofs.Completeness.Stmt
namespace ScopedC

namespace Parser

-- Without the limit the parser never fails with the nesting error: every fault it fails with is
-- one it reports itself.
def reportsInv (toks : Array Token) : RunInv toks Runner.unlimited where
  holds x := Reports x
  holds_pure _ := by
    intro f hf
    cases hf
  holds_bind {_ _ x f} hx hf := by
    cases x with
    | error e =>
      intro f' h
      cases h
      exact hx e rfl
    | ok a => exact hf a
  holds_fail f hf := by
    intro f' h
    cases h
    exact hf
  holds_unwind _ x hx := by
    intro f hf
    cases x with
    | ok a => cases hf
    | error e =>
      cases hf
      exact hx e rfl
  holds_level _ _ := by
    intro f hf
    cases hf

end Parser

namespace Program

open ScopedC.Parser

-- The nesting depth of a program's parse: the deepest level the parser takes on the tokens when
-- no level is refused.
def nestingDepth (s : ParseState) (toks : List Token) : Nat :=
  (program (Runner.watched .unlimited) (fromTokens toks) (start s)).deepest

-- A parse that stays within the nesting limit never fails with the nesting error.
theorem run_reports_of_shallow {s : ParseState} {toks : List Token}
    (hd : nestingDepth s toks ≤ nestingLimit) : Reports (run s toks) := by
  let v := fromTokens toks
  let w := program (Runner.watched .unlimited) v (start s)
  have hnone : w.crossing = none := ((Watched.crossingInv v).holds_program (start s)).2 hd
  have hb : w.bounded v = run s toks := (Watched.boundedMap v).program_eq (start s)
  have hw : w.result = program .unlimited v (start s) :=
    (Watched.resultMap v .unlimited).program_eq (start s)
  -- with no crossing the limited run is the unlimited one
  have hrun : run s toks = program .unlimited v (start s) := by
    rw [← hb, Watched.bounded_none v hnone, hw]
  rw [hrun]
  exact (reportsInv v).holds_program (start s)

-- A sentence that resolves and whose parse stays within the nesting limit is accepted, with
-- its resolved tree.
theorem parseFrom_ok_of_shallow {s : ParseState} {toks : List Token} {items : List Raw.Stmt}
    (g : Gram.Sentence (input toks).1 items)
    (hres : ∃ root env' d', ResolvedProgram s.scopes s.decls items root env' d')
    (hd : nestingDepth s toks ≤ nestingLimit) :
    ∃ p, parseFrom s toks = .ok p ∧
      ResolvedProgram s.scopes s.decls items p.root p.state.scopes p.state.decls := by
  rcases parseFrom_completes s toks g with ⟨p, hp, hgood⟩ | ⟨e, he, hadm⟩
  · exact ⟨p, hp, hgood⟩
  rcases hadm with ⟨⟨pos, htoo⟩, -⟩ | ⟨-, hnot⟩
  · -- the run fails as the list parse does, with the same error, which it reports itself
    exfalso
    cases hr : run s toks with
    | ok r =>
      rw [run_ok hr] at he
      cases he
    | error f =>
      obtain ⟨e', he', herr, -⟩ := run_error hr
      rw [he] at he'
      cases he'
      exact run_reports_of_shallow hd f hr pos (herr ▸ htoo)
  · exact absurd hres hnot

end Program

end ScopedC

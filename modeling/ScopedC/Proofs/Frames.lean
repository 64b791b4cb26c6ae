import ScopedC.Proofs.Failures
import ScopedC.Proofs.Resolution
namespace ScopedC

open Parse

-- A statement adds its bindings, in order, to the current frame, and nothing else.
theorem statement_frame {stop : Pos} {depth : Nat} {s : ParseState} {ts : List Token}
    {r : Step ts Stmt} (h : statement stop depth s ts = .ok r) :
    r.state.scopes = ⟨r.value.bindings.reverse ++ s.scopes.top, s.scopes.outer⟩ := by
  obtain ⟨_, -, res⟩ := (stmtSound stop ts).statement h
  exact resolvedStmt_frame res

theorem Chains.bindings {items : List Stmt} {root : Stmt} (h : Chains items root) :
    root.bindings = items.flatMap Stmt.bindings := by
  induction h with
  | one => simp
  | cons _ ih => simp [Stmt.bindings, ih]

-- Bindings put in front of the current frame are found before anything else.
theorem Scopes.lookup_prepend {α : Type} (sc : Scopes α) (bs : Frame α) (x : String) :
    (⟨bs ++ sc.top, sc.outer⟩ : Scopes α).lookup x = (bs.lookup x).or (sc.lookup x) := by
  simp only [Scopes.lookup, List.findSome?_cons, List.lookup_append]
  cases bs.lookup x <;> cases sc.top.lookup x <;> rfl

-- After a whole program the current frame holds the top-level bindings in front of what it held.
theorem parseFrom_scopes {s : ParseState} {toks : List Token} {p : Program}
    (h : Program.parseFrom s toks = .ok p) :
    p.state.scopes = ⟨p.root.bindings.reverse ++ s.scopes.top, s.scopes.outer⟩ := by
  obtain ⟨items, items', -, res, chains⟩ := parseFrom_reads h
  rw [resolvedItems_frame res, chains.bindings]

-- The frame invariant and what follows from it: every statement adds exactly its bindings to
-- the current frame; no parse fails on a broken invariant; and a whole program ends at the
-- level it began at, each name standing for its last top-level binding if it has one.
theorem scopes_framed :
    (∀ {stop : Pos} {depth : Nat} {s : ParseState} {ts : List Token} {r : Step ts Stmt},
      statement stop depth s ts = .ok r →
        r.state.scopes = ⟨r.value.bindings.reverse ++ s.scopes.top, s.scopes.outer⟩) ∧
    (∀ {s : ParseState} {toks : List Token} {e : Failure},
      Program.parseFrom s toks = .error e → ∀ ie, e.error ≠ .internal ie) ∧
    (∀ {s : ParseState} {toks : List Token} {p : Program},
      Program.parseFrom s toks = .ok p →
        p.state.scopes.level = s.scopes.level ∧
        ∀ x, p.state.scopes.lookup x = (p.root.bindings.reverse.lookup x).or (s.scopes.lookup x)) := by
  refine ⟨statement_frame, fun h => (parseFrom_located h).not_internal, ?_⟩
  intro s toks p h
  rw [parseFrom_scopes h]
  exact ⟨rfl, fun x => Scopes.lookup_prepend s.scopes _ x⟩

theorem declareThenAssign_scopes :
    ∃ p, Program.parseFrom (Program.initialState false) declareThenAssign = .ok p ∧
      p.state.scopes.level = (Scopes.root : Scopes Entry).level ∧
      ∀ x, p.state.scopes.lookup x =
        (p.root.bindings.reverse.lookup x).or ((Scopes.root : Scopes Entry).lookup x) := by
  obtain ⟨p, hp⟩ := ok_of_toBool
    (by cbv : (Program.parseFrom (Program.initialState false) declareThenAssign).toBool = true)
  exact ⟨p, hp, scopes_framed.2.2 hp⟩

end ScopedC

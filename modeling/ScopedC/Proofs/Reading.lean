import ScopedC.Proofs.Scoping
namespace ScopedC

open Parse

variable {ε α β : Type}

theorem bind_eq_ok {x : Except ε α} {f : α → Except ε β} {b : β} (h : x >>= f = .ok b) :
    ∃ a, x = .ok a ∧ f a = .ok b := by
  cases x with
  | error e => cases h
  | ok a => exact ⟨a, rfl, h⟩

theorem bind_eq_error {x : Except ε α} {f : α → Except ε β} {e : ε} (h : x >>= f = .error e) :
    x = .error e ∨ ∃ a, x = .ok a ∧ f a = .error e := by
  cases x with
  | error e' =>
    simp only [bind, Except.bind, Except.error.injEq] at h
    exact .inl (h ▸ rfl)
  | ok a => exact .inr ⟨a, rfl, h⟩

theorem map_eq_error {x : Except ε α} {f : α → β} {e : ε} (h : x.map f = .error e) :
    x = .error e := by
  cases x with
  | error e' =>
    simp only [Except.map, Except.error.injEq] at h
    exact h ▸ rfl
  | ok a => cases h

theorem ok_of_map_ok {x : Except ε α} {f : α → β} {r : β} (h : x.map f = .ok r) :
    ∃ a, x = .ok a ∧ r = f a := by
  cases x with
  | error e => simp [Except.map] at h
  | ok a => exact ⟨a, rfl, by simp [Except.map] at h; exact h.symm⟩

theorem ok_of_toBool {x : Except ε α} (h : x.toBool = true) : ∃ a, x = .ok a := by
  cases x with
  | error e => cases h
  | ok a => exact ⟨a, rfl⟩

theorem error_of_toBool {x : Except ε α} (h : x.toBool = false) : ∃ e, x = .error e := by
  cases x with
  | error e => exact ⟨e, rfl⟩
  | ok a => cases h

section

variable {stop : Pos} {s : ParseState} {ts : List Token}

theorem expect_ok {p : Punct} {site : Site} {r : List Token} {hr : r.length < ts.length}
    (h : expect stop s p site ts = .ok ⟨r, hr⟩) : ∃ q, ts = ⟨.punct p, q⟩ :: r := by
  unfold expect at h
  split at h
  · split at h
    · rename_i t rest hk
      cases h
      exact ⟨t.pos, by cases t; simp_all⟩
    · cases h
  · cases h

theorem expect_cons {p : Punct} {site : Site} {q : Pos} {rest : List Token} :
    expect stop s p site (⟨.punct p, q⟩ :: rest) = .ok ⟨rest, Nat.lt_add_one _⟩ := by
  simp [expect]

theorem expectIdent_cons {name : String} {q : Pos} {rest : List Token} :
    expectIdent stop s (⟨.ident name, q⟩ :: rest) = .ok (name, ⟨rest, Nat.lt_add_one _⟩) := rfl

theorem expectIdent_ok {name : String} {r : List Token} {hr : r.length < ts.length}
    (h : expectIdent stop s ts = .ok (name, ⟨r, hr⟩)) : ∃ q, ts = ⟨.ident name, q⟩ :: r := by
  unfold expectIdent at h
  split at h
  · cases h
    exact ⟨_, rfl⟩
  · cases h

theorem readType?_typeName {ty : Ty} {r : List Token} {hr : r.length < ts.length}
    (h : readType? ts = some (ty, ⟨r, hr⟩)) : Gram.TypeName ts ty r := by
  unfold readType? at h
  split at h <;> cases h
  · exact .int
  · exact .void
  · exact .constInt
  · exact .const

theorem type_ok {ty : Ty} {r : List Token} {hr : r.length < ts.length}
    (h : type stop s ts = .ok (ty, ⟨r, hr⟩)) : Gram.TypeName ts ty r := by
  unfold type at h
  split at h
  · cases h
    exact readType?_typeName (by assumption)
  · cases h

theorem resolve_ok {name : String} {pos : Pos} {e : Entry} (h : s.resolve name pos ts = .ok e) :
    s.scopes.lookup name = some e := by
  unfold ParseState.resolve at h
  split at h
  · cases h
    assumption
  · cases h

end

-- The state updates that leave the scopes and the declaration number alone.
@[simp] theorem freshNode_scopes (s : ParseState) : s.freshNode.2.scopes = s.scopes := rfl
@[simp] theorem freshNode_decls (s : ParseState) : s.freshNode.2.decls = s.decls := rfl
@[simp] theorem freshLabel_scopes (s : ParseState) : s.freshLabel.2.scopes = s.scopes := rfl
@[simp] theorem freshLabel_decls (s : ParseState) : s.freshLabel.2.decls = s.decls := rfl
@[simp] theorem identNode_scopes (s : ParseState) (e : Entry) (l : Option Int) :
    (s.identNode e l).2.scopes = s.scopes := rfl
@[simp] theorem identNode_decls (s : ParseState) (e : Entry) (l : Option Int) :
    (s.identNode e l).2.decls = s.decls := rfl
@[simp] theorem identNode_fst (s : ParseState) (e : Entry) (l : Option Int) :
    (s.identNode e l).1 = ⟨s.nodes, e, l⟩ := rfl

-- Declaring binds a fresh entry numbered by the declaration number in the current scope.
@[simp] theorem declare_fst (s : ParseState) (name : String) (ty : Ty) :
    (s.declare name ty).1 = .ident s.decls name ty s.scopes.level := rfl
@[simp] theorem declare_scopes (s : ParseState) (name : String) (ty : Ty) :
    (s.declare name ty).2.scopes = s.scopes.install name (.ident s.decls name ty s.scopes.level) :=
  rfl
@[simp] theorem declare_decls (s : ParseState) (name : String) (ty : Ty) :
    (s.declare name ty).2.decls = s.decls + 1 := rfl

@[simp] theorem enter_scopes (s : ParseState) : s.enter.scopes = s.scopes.enter := rfl
@[simp] theorem enter_decls (s : ParseState) : s.enter.decls = s.decls := rfl

theorem exit_ok {s s' : ParseState} {ts : List Token} (h : s.exit ts = .ok s') :
    s.scopes.exit = .ok s'.scopes ∧ s'.decls = s.decls := by
  unfold ParseState.exit at h
  split at h
  · cases h
    exact ⟨by assumption, rfl⟩
  · cases h

-- Closing a scope whose enclosing scopes are `outer` goes back to the innermost of them.
theorem exit_of_outer {s : ParseState} {f : Frame Entry} {fs : List (Frame Entry)}
    (ts : List Token) (h : s.scopes.outer = f :: fs) :
    ∃ s', s.exit ts = .ok s' ∧ s'.scopes = ⟨f, fs⟩ ∧ s'.decls = s.decls := by
  refine ⟨{ s with scopes := ⟨f, fs⟩, notes := s.notes.push (.exited s.scopes.level) }, ?_, rfl, rfl⟩
  simp [ParseState.exit, Scopes.exit, h]

end ScopedC

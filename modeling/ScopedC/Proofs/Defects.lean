import ScopedC.Proofs.Viable.Stmt
import ScopedC.Proofs.Acceptance
import ScopedC.Proofs.Prefix.StatementLocality
namespace ScopedC

open Parse Gram

-- Tokens that more tokens complete to a sentence whose statements satisfy `R`.
def Viable (R : List Raw.Stmt → Prop) (c : List Token) : Prop :=
  ∃ w items, Sentence (c ++ w) items ∧ R items

-- Statements that resolve as a program from the scopes `env` and the declaration number `d`.
def ProgramResolves (env : Scopes Entry) (d : Nat) (items : List Raw.Stmt) : Prop :=
  ∃ root env' d', ResolvedProgram env d items root env' d'

-- Some sentence has the token `t` after the tokens `c`, or ends right after them.
def Continues (c : List Token) : Option Token → Prop
  | some t => Viable (fun _ => True) (c ++ [t])
  | none => ∃ items, Sentence c items

-- A syntax error other than the nesting limit stands at the first token left, and the tokens before
-- it start a sentence whose statements resolve.
def AtLeftmostDefect (env : Scopes Entry) (d : Nat) (ts : List Token) (stop : Pos)
    (e : Failure) : Prop :=
  ∃ c, ts = c ++ e.rest ∧
    (∀ se pos, e.error = .malformed se pos → se ≠ .tooDeep →
      pos = (peek stop e.rest).pos ∧ Viable (ProgramResolves env d) c ∧
        ¬ Continues c e.rest.head?) ∧
    ∀ x pos, e.error = .undefined x pos →
      (∃ r, e.rest = ⟨.ident x, pos⟩ :: r) ∧ Viable (ProgramResolves env d) c ∧
        Viable (fun _ => True) (c ++ [⟨.ident x, pos⟩])

section Sentences

variable {env : Scopes Entry} {d : Nat} {c ts : List Token}

-- Statements read up to the end of the input complete as they are.
theorem Gram.Items.completable {R : List Raw.Stmt → Prop} {items : List Raw.Stmt}
    (g : Items ts items []) (h : R items) : Completable Items R ts := by
  obtain ⟨p, hp, cut⟩ := g.cut
  rw [List.append_nil] at hp
  subst hp
  exact ⟨[], items, fun z hz => cut z fun _ => hz, h⟩

-- A completion of statements, closed with `;`, is a sentence.
theorem Completable.sentence {R : List Raw.Stmt → Prop} (h : Completable Items R c) :
    ∃ w items, Sentence (c ++ w) (items ++ [.empty]) ∧ R items := by
  obtain ⟨w, items, g, hr⟩ := h
  have closed : Items (c ++ (w ++ [mark .semicolon])) (items ++ [.empty]) [] :=
    (g [mark .semicolon] rfl).append (.cons .empty .nil)
  exact ⟨w ++ [mark .semicolon], items, ⟨closed, by simp⟩, hr⟩

theorem Resolvable.program {items : List Raw.Stmt} (h : Resolvable ResolvedItems env d items) :
    ProgramResolves env d (items ++ [.empty]) := by
  obtain ⟨items', env', d', res⟩ := h
  have closed := res.append (.cons (.empty (n := 0)) .nil)
  obtain ⟨root, chains⟩ := Chains.exists (items' ++ [.empty 0]) (by simp)
  exact ⟨root, env', d', _, closed, chains⟩

theorem Completable.viable (h : Completable Items (Resolvable ResolvedItems env d) c) :
    Viable (ProgramResolves env d) c := by
  obtain ⟨w, items, g, hr⟩ := h.sentence
  exact ⟨w, _, g, hr.program⟩

theorem Completable.viable_raw {R : List Raw.Stmt → Prop} (h : Completable Items R c) :
    Viable (fun _ => True) c := by
  obtain ⟨w, items, g, -⟩ := h.sentence
  exact ⟨w, _, g, trivial⟩

end Sentences

section Programs

variable {s : ParseState} {toks : List Token} {e : Failure} {se : SyntaxError} {pos : Pos}

-- A syntax error that a sentence may meet is the nesting limit.
theorem Admissible.tooDeep {P : Prop} {B : Nat} (h : Admissible P B e)
    (hse : e.error = .malformed se pos) : se = .tooDeep := by
  rcases h with ⟨⟨pos', hpos⟩, -⟩ | ⟨⟨x, pos', hx⟩, -⟩
  · rw [hse] at hpos
    cases hpos
    rfl
  · rw [hse] at hx
    cases hx

theorem Completes.tooDeep {P : Prop} {B : Nat} {β : Type} {good : β → Prop}
    {x : Except Failure β} (h : Completes P B good x) (hx : x = .error e)
    (hse : e.error = .malformed se pos) : se = .tooDeep := by
  rcases h with ⟨b, hb, -⟩ | ⟨e', he, hadm⟩
  · rw [hx] at hb
    cases hb
  · rw [hx] at he
    cases he
    exact hadm.tooDeep hse

-- A program fails in its statements, or finds none at the end of its input, where it reports
-- a syntax error; the statements it read then complete as they are.
theorem parseFrom_error_cases (h : Program.parseFrom s toks = .error e) :
    programItems (Program.input toks).2 s (Program.input toks).1 = .error e ∨
      e.rest = [] ∧ (∃ se, e.error = .malformed se (Program.input toks).2) ∧
        Completable Items (Resolvable ResolvedItems s.scopes s.decls) (Program.input toks).1 := by
  unfold Program.parseFrom at h
  rcases hin : Program.input toks with ⟨ts, stop⟩
  rw [hin] at h
  obtain h | ⟨⟨items', s1, r1, hr1⟩, hitems, h⟩ := bind_eq_error h
  · exact .inl h
  obtain ⟨hnil, items, g, res⟩ := programItems_reads hitems
  dsimp only at hnil g res h
  rw [hnil] at g
  rcases hc : Stmt.chain items' s1.nodes with ⟨root, n⟩
  simp only [ParseState.chain, hc] at h
  cases root with
  | some root => cases h
  | none =>
    cases h
    exact .inr ⟨rfl, ⟨_, rfl⟩, g.completable ⟨_, _, _, res⟩⟩

-- A failed program consumed a viable prefix of its statements.
theorem parseFrom_resumes (h : Program.parseFrom s toks = .error e) :
    Resumes Items (Resolvable ResolvedItems s.scopes s.decls) (Program.input toks).1 e := by
  rcases parseFrom_error_cases h with h | ⟨hrest, ⟨se, hse⟩, hc⟩
  · exact programItems_resumes h
  · refine ⟨_, by rw [hrest, List.append_nil], hc, fun x pos hx => ?_⟩
    rw [hse] at hx
    cases hx

-- A syntax error other than the nesting limit, with tokens left, never meets a sentence that
-- goes on from its first token: the parse of that sentence would end with the same error.
theorem programItems_not_continues {stop : Pos} {ts c : List Token} {t : Token} {r : List Token}
    (h : programItems stop s ts = .error e) (hts : ts = c ++ e.rest) (hr : e.rest = t :: r)
    (hse : e.error = .malformed se pos) (hne : se ≠ .tooDeep) : ¬ Continues c (some t) := by
  rintro ⟨w, items, g, -⟩
  obtain ⟨err, st, rest⟩ := e
  dsimp only at hts hr hse h
  subst hr hse hts
  have agrees := @programItems_agrees stop (c ++ [t]) s r w
  have same := (agrees [t] (List.cons_ne_nil _ _)).2 se pos st hne
    (by rw [List.append_assoc]; exact h)
  have completes : Completes _ _ _ (programItems stop s (c ++ [t] ++ w)) :=
    g.1.programItems_completes rfl le_rfl s rfl rfl
  exact hne (completes.tooDeep same rfl)

-- Where a located failure stands: a syntax error at the first token left, an unbound name as
-- that token.
theorem Located.pos_of_malformed {stop : Pos} {ts : List Token} (h : Located stop ts e)
    (hse : e.error = .malformed se pos) : pos = (peek stop e.rest).pos := by
  rcases h.2 with ⟨se', hse'⟩ | ⟨x, pos', r, hx, -⟩
  · rw [hse] at hse'
    cases hse'
    rfl
  · rw [hse] at hx
    cases hx

theorem Located.rest_of_undefined {stop : Pos} {ts : List Token} {x : String}
    (h : Located stop ts e) (hx : e.error = .undefined x pos) :
    ∃ r, e.rest = ⟨.ident x, pos⟩ :: r := by
  rcases h.2 with ⟨se, hse⟩ | ⟨x', pos', r, hx', hrest⟩
  · rw [hx] at hse
    cases hse
  · rw [hx] at hx'
    cases hx'
    exact ⟨r, hrest⟩

-- A program rejected with a syntax error other than the nesting limit: no sentence goes on
-- from the consumed tokens with the token at the error, or ends with them.
theorem parseFrom_not_continues {c : List Token} (h : Program.parseFrom s toks = .error e)
    (hts : (Program.input toks).1 = c ++ e.rest) (hse : e.error = .malformed se pos)
    (hne : se ≠ .tooDeep) : ¬ Continues c e.rest.head? := by
  cases hr : e.rest with
  | nil =>
    -- were `c` a sentence, the whole parse would not fail this way
    rintro ⟨items, g⟩
    rw [hr, List.append_nil] at hts
    rw [← hts] at g
    exact hne ((parseFrom_completes s toks g).tooDeep h hse)
  | cons t r =>
    rcases parseFrom_error_cases h with hitems | ⟨hnil, -⟩
    · exact programItems_not_continues hitems hts hr hse hne
    · rw [hnil] at hr
      cases hr

end Programs

-- A rejected program is rejected at its leftmost defect.
theorem parseFrom_fails_at_leftmost_defect {s : ParseState} {toks : List Token} {e : Failure}
    (h : Program.parseFrom s toks = .error e) :
    AtLeftmostDefect s.scopes s.decls (Program.input toks).1 (Program.input toks).2 e := by
  obtain ⟨c, hts, hc, hund⟩ := parseFrom_resumes h
  have located := parseFrom_located h
  exact ⟨c, hts,
    fun se pos hse hne =>
      ⟨located.pos_of_malformed hse, hc.viable, parseFrom_not_continues h hts hse hne⟩,
    fun x pos hx => ⟨located.rest_of_undefined hx, hc.viable, (hund x pos hx).viable_raw⟩⟩

-- `int a = 1 + ;`: the operand is missing before `;`.
def missingOperand : List Token :=
  [⟨.keyword .intKw, ⟨1, 1⟩⟩, ⟨.ident "a", ⟨1, 5⟩⟩, ⟨.punct .assign, ⟨1, 7⟩⟩,
    ⟨.num 1, ⟨1, 9⟩⟩, ⟨.punct .plus, ⟨1, 11⟩⟩, ⟨.punct .semicolon, ⟨1, 13⟩⟩]

theorem missingOperand_at_defect :
    ∃ e, Program.parseFrom (Program.initialState false) missingOperand = .error e ∧
      AtLeftmostDefect Scopes.root 0 (Program.input missingOperand).1
        (Program.input missingOperand).2 e := by
  obtain ⟨e, he⟩ := error_of_toBool
    (by cbv : (Program.parseFrom (Program.initialState false) missingOperand).toBool = false)
  exact ⟨e, he, parseFrom_fails_at_leftmost_defect he⟩

end ScopedC

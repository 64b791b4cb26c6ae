import ScopedC.Program
import ScopedC.Proofs.Parser.Runs
namespace ScopedC

-- The parser without the nesting limit: every nesting level is granted.
def Runner.unlimited : Runner (Except Fault) :=
  { Runner.limited with level := fun _ _ => .ok () }

-- A run watched for its nesting: its result, the deepest level it takes (a level granted at depth
-- `d` takes the parser to `d + 1`), and the parser at the first level it asks for at the limit or
-- beyond. That parser's depth is given back while the run unwinds, as a failure's is.
structure Watched (α : Type) where
  result : Except Fault α
  deepest : Nat
  crossing : Option Parser

instance : Monad Watched where
  pure a := ⟨.ok a, 0, none⟩
  bind x f :=
    match x.result with
    | .ok a => ⟨(f a).result, max x.deepest (f a).deepest, x.crossing.or (f a).crossing⟩
    | .error e => ⟨.error e, x.deepest, x.crossing⟩

def Runner.watched (R : Runner (Except Fault)) : Runner Watched where
  fail f := ⟨R.fail f, 0, none⟩
  unwind g x := ⟨R.unwind g x.result, x.deepest, x.crossing.map (·.withDepth g)⟩
  level d f :=
    ⟨R.level d f, if (R.level d f).isOk then d + 1 else 0,
      if d < nestingLimit then none else some f.parser⟩

namespace Watched

open ScopedC.Parser

variable (toks : Array Token) {α β : Type}

-- The run as the limited parser sees it: the nesting error at the first crossing.
def bounded (w : Watched α) : Except Fault α :=
  match w.crossing with
  | none => w.result
  | some q => .error (syntaxError toks q .tooDeep)

theorem bounded_none {w : Watched α} (h : w.crossing = none) : w.bounded toks = w.result := by
  unfold bounded
  rw [h]

-- Forgetting what was watched gives the run itself.
def resultMap (R : Runner (Except Fault)) : RunMap toks (Runner.watched R) R where
  map w := w.result
  map_pure _ := rfl
  map_bind x f := by
    obtain ⟨r, d, c⟩ := x
    cases r <;> rfl
  map_fail _ := rfl
  map_unwind _ _ := rfl
  map_level _ := rfl

-- Reading the first crossing as the nesting error turns the unlimited run into the limited one.
def boundedMap : RunMap toks (Runner.watched .unlimited) .limited where
  map w := w.bounded toks
  map_pure _ := rfl
  map_bind x f := by
    obtain ⟨r, d, c⟩ := x
    -- once a level past the limit is asked for, what the run does after it does not matter
    cases r with
    | error e => cases c <;> rfl
    | ok a =>
      cases c with
      | none => rfl
      | some q => rfl
  map_fail _ := rfl
  map_unwind g x := by
    obtain ⟨r, d, c⟩ := x
    cases c <;> rfl
  map_level q := by
    by_cases hd : q.depth < nestingLimit
    · simp [bounded, Runner.watched, Runner.unlimited, syntaxError, hd]
    · simp [bounded, Runner.watched, Runner.unlimited, syntaxError, hd]

theorem deepest_bind {x : Watched α} {f : α → Watched β} {P : Nat → Prop}
    (hx : P x.deepest) (hf : ∀ a, x.result = .ok a → P (max x.deepest (f a).deepest)) :
    P (x >>= f).deepest := by
  obtain ⟨r, d, c⟩ := x
  cases r with
  | error e => exact hx
  | ok a => exact hf a rfl

-- The limited run never takes the parser past the limit: a level is granted only below it.
def belowLimit : RunInv toks (Runner.watched .limited) where
  holds w := w.deepest ≤ nestingLimit
  holds_pure _ := Nat.zero_le _
  holds_bind hx hf := deepest_bind (P := (· ≤ nestingLimit)) hx fun a _ => Nat.max_le.2 ⟨hx, hf a⟩
  holds_fail _ _ := Nat.zero_le _
  holds_unwind _ _ hx := hx
  holds_level d f := by
    show (if (Runner.limited.level d f).isOk then d + 1 else 0) ≤ nestingLimit
    by_cases hd : d < nestingLimit
    · rw [level_limited, if_pos hd]
      exact hd
    · rw [level_limited, if_neg hd]
      exact Nat.zero_le _

-- Without the limit, a run asks for a level at the limit exactly when it goes past it.
def crossingInv : RunInv toks (Runner.watched .unlimited) where
  holds w := w.crossing = none ↔ w.deepest ≤ nestingLimit
  holds_pure _ := by simp [pure]
  holds_bind {_ _ x f} hx hf := by
    obtain ⟨r, d, c⟩ := x
    cases r with
    | error e => exact hx
    | ok a =>
      show c.or (f a).crossing = none ↔ max d (f a).deepest ≤ nestingLimit
      rw [Option.or_eq_none_iff, Nat.max_le, ← hx, ← hf a]
  holds_fail _ _ := by simp [Runner.watched]
  holds_unwind _ x hx := by
    show x.crossing.map _ = none ↔ x.deepest ≤ nestingLimit
    rw [Option.map_eq_none_iff]
    exact hx
  holds_level d f := by
    show (if d < nestingLimit then none else some f.parser) = none ↔ d + 1 ≤ nestingLimit
    by_cases hd : d < nestingLimit
    · rw [if_pos hd]
      exact ⟨fun _ => hd, fun _ => rfl⟩
    · rw [if_neg hd]
      exact ⟨fun h => absurd h (Option.some_ne_none _), fun h => absurd h hd⟩

end Watched

namespace Program

open ScopedC.Parser

-- The nesting limit only cuts a parse short: the limited parse gives what the unlimited one gives
-- unless that asks for a level at the limit, and then fails with the nesting error there.
theorem run_refines_unlimited (s : ParseState) (toks : List Token) :
    let v := fromTokens toks
    let w := program (Runner.watched .unlimited) v (start s)
    w.result = program .unlimited v (start s) ∧
    (w.crossing = none ↔ w.deepest ≤ nestingLimit) ∧
    run s toks =
      (match w.crossing with
        | none => program .unlimited v (start s)
        | some q => .error (syntaxError v q .tooDeep)) ∧
    SyntaxError.tooDeep.message = "nesting too deep (limit 200)" ∧
    (∀ p : Parser,
      (leaves Ahead.parser (statement .limited v p)).depth = p.depth ∧
      (leaves Ahead.parser (expression .limited v p)).depth = p.depth ∧
      (∀ lvl, (leaves Ahead.parser (chain .limited v lvl p)).depth = p.depth) ∧
      (leaves Ahead.parser (unary .limited v p)).depth = p.depth) ∧
    (∀ p : Parser,
      (statement (Runner.watched .limited) v p).result = statement .limited v p ∧
      (statement (Runner.watched .limited) v p).deepest ≤ nestingLimit ∧
      (expression (Runner.watched .limited) v p).result = expression .limited v p ∧
      (expression (Runner.watched .limited) v p).deepest ≤ nestingLimit) ∧
    (program (Runner.watched .limited) v (start s)).result = run s toks ∧
    (program (Runner.watched .limited) v (start s)).deepest ≤ nestingLimit ∧
    ∀ r, run s toks = .ok r → r.parser.depth = 0 := by
  intro v w
  have hw : w.result = program .unlimited v (start s) :=
    (Watched.resultMap v .unlimited).program_eq (start s)
  have hb : w.bounded v = run s toks := (Watched.boundedMap v).program_eq (start s)
  refine ⟨hw, (Watched.crossingInv v).holds_program (start s), ?_, rfl,
    fun p => ⟨(stmtKeeps v p).statement, expression_leaves v p, fun lvl => chain_leaves v lvl p,
      (exprKeeps v p).unary⟩,
    fun p => ⟨(Watched.resultMap v .limited).statement_eq p,
      (Watched.belowLimit v).holds_statement p,
      (Watched.resultMap v .limited).expression_eq p,
      (Watched.belowLimit v).holds_expression p⟩,
    (Watched.resultMap v .limited).program_eq (start s), (Watched.belowLimit v).holds_program (start s), fun r hr => ?_⟩
  · rw [← hb, ← hw]
    rfl
  · -- the run starts at depth 0 and gives the depth back as it found it
    have hd := program_leaves v (start s)
    rw [show program .limited v (start s) = run s toks from rfl, hr] at hd
    exact hd

end Program

end ScopedC

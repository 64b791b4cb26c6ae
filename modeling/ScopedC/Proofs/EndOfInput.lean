import ScopedC.Proofs.Failures
import ScopedC.Proofs.Parser.Run
namespace ScopedC

namespace Program

variable {s : ParseState} {ts : List Token}

theorem input_fst (toks : List Token) : (input toks).1 = toks.takeWhile (·.kind != .eof) := by
  unfold input
  split <;> rfl

-- The tokens before the first end-of-input token reach up to its index, or to the end of a list
-- without one.
theorem length_takeWhile_not_eof (toks : List Token) :
    (toks.takeWhile (·.kind != .eof)).length = toks.findIdx (·.kind == .eof) := by
  induction toks with
  | nil => rfl
  | cons t r ih =>
    by_cases h : t.kind = .eof
    · simp [List.findIdx_cons, h]
    · simp [List.findIdx_cons, beq_eq_false_iff_ne.2 h, h, ih]

-- A failed list parse stops among the tokens before the first end-of-input token: it read `c`,
-- whose length is at most that token's index.
theorem parseFrom_stops_before_eof {toks : List Token} {e : Failure}
    (h : parseFrom s toks = .error e) :
    ∃ c, toks.takeWhile (·.kind != .eof) = c ++ e.rest ∧
      c.length ≤ toks.findIdx (·.kind == .eof) := by
  obtain ⟨c, hc⟩ := (parseFrom_located h).1
  rw [input_fst] at hc
  refine ⟨c, hc.symm, ?_⟩
  have hlen := congrArg List.length hc
  rw [List.length_append, length_takeWhile_not_eof] at hlen
  omega

theorem outcome_after_eof (hts : ∀ t ∈ ts, t.kind ≠ .eof) (l : Pos) (u : List Token) :
    outcome s (ts ++ ⟨.eof, l⟩ :: u) = outcome s (ts ++ [⟨.eof, l⟩]) := by
  rw [outcome_eq_parseFrom, outcome_eq_parseFrom]
  unfold parseFrom
  rw [input_append_eof hts, input_append_eof hts]

theorem outcome_of_no_eof (hts : ∀ t ∈ ts, t.kind ≠ .eof) :
    outcome s ts = outcome s (ts ++ [⟨.eof, (ts.getLast?.map (·.pos)).getD Pos.start⟩]) := by
  rw [outcome_eq_parseFrom, outcome_eq_parseFrom]
  unfold parseFrom
  rw [input_of_no_eof hts, input_append_eof hts]

-- The parser never moves past the first end-of-input token, so the tokens after it change nothing,
-- and a list without one reads as the list with one put at its last token's place.
theorem run_reads_to_first_eof (s : ParseState) (toks : List Token) :
    let v := Parser.fromTokens toks
    let n := toks.findIdx (·.kind == .eof)
    (v[n]?.map (·.kind) = some .eof ∧ ∀ i < n, v[i]?.map (·.kind) ≠ some .eof) ∧
    (∀ p : Parser, p.position ≤ n →
      p.position < v.size ∧ ((Parser.peek v p).kind ≠ .eof → p.position + 1 ≤ n)) ∧
    (∀ p : Parser, p.position ≤ n →
      (Parser.leaves Parser.Ahead.parser (Parser.statement .limited v p)).position ≤ n ∧
      (Parser.leaves Parser.Ahead.parser (Parser.expression .limited v p)).position ≤ n) ∧
    (Parser.leaves Parser.Along.parser (run s toks)).position ≤ n ∧
    (∀ ts : List Token, (∀ t ∈ ts, t.kind ≠ .eof) → ∀ l u,
      outcome s (ts ++ ⟨.eof, l⟩ :: u) = outcome s (ts ++ [⟨.eof, l⟩])) ∧
    (∀ ts : List Token, (∀ t ∈ ts, t.kind ≠ .eof) →
      outcome s ts = outcome s (ts ++ [⟨.eof, (ts.getLast?.map (·.pos)).getD Pos.start⟩])) := by
  intro v n
  have lay : Parser.Layout v (input toks).1 (input toks).2 := Parser.fromTokens_layout toks
  have hn : n = (input toks).1.length := by rw [input_fst, length_takeWhile_not_eof]
  clear_value n
  subst hn
  refine ⟨lay.first_eof, fun p hp => ⟨lay.position_lt_size hp, lay.ahead_within hp⟩,
    fun p hp => ⟨?_, ?_⟩, (run_agrees s toks).leaves_within,
    fun ts hts l u => outcome_after_eof hts l u, fun ts hts => outcome_of_no_eof hts⟩
  · exact ((Parser.stmtAgrees lay p).statement (Parser.At.of_within hp)).leaves_within
  · exact ((Parser.exprAgrees lay p).expression (Parser.At.of_within hp)).leaves_within

-- `x = 1;` followed by end of input and then by stray tokens reads as `x = 1;` alone.
theorem assignment_then_stray_tokens :
    (∀ t ∈ [⟨.ident "x", ⟨1, 1⟩⟩, ⟨.punct .assign, ⟨1, 3⟩⟩, ⟨.num 1, ⟨1, 5⟩⟩,
        ⟨.punct .semicolon, ⟨1, 6⟩⟩], Token.kind t ≠ .eof) ∧
      outcome (initialState true) ([⟨.ident "x", ⟨1, 1⟩⟩, ⟨.punct .assign, ⟨1, 3⟩⟩,
          ⟨.num 1, ⟨1, 5⟩⟩, ⟨.punct .semicolon, ⟨1, 6⟩⟩] ++
          ⟨.eof, ⟨1, 7⟩⟩ :: [⟨.punct .rbrace, ⟨2, 1⟩⟩, ⟨.eof, ⟨2, 2⟩⟩]) =
        outcome (initialState true) ([⟨.ident "x", ⟨1, 1⟩⟩, ⟨.punct .assign, ⟨1, 3⟩⟩,
          ⟨.num 1, ⟨1, 5⟩⟩, ⟨.punct .semicolon, ⟨1, 6⟩⟩] ++ [⟨.eof, ⟨1, 7⟩⟩]) :=
  have hts : ∀ t ∈ [(⟨.ident "x", ⟨1, 1⟩⟩ : Token), ⟨.punct .assign, ⟨1, 3⟩⟩, ⟨.num 1, ⟨1, 5⟩⟩,
      ⟨.punct .semicolon, ⟨1, 6⟩⟩], Token.kind t ≠ .eof := by decide
  ⟨hts, (run_reads_to_first_eof (initialState true) []).2.2.2.2.1 _ hts _ _⟩

end Program

end ScopedC

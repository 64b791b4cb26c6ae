import ScopedC.Program
import ScopedC.Proofs.Parser.Simulation
import ScopedC.Proofs.Soundness.Stmt
namespace ScopedC

namespace Program

variable {ts : List Token}

-- A token list either has no end-of-input token, or splits at its first one.
theorem eof_free_or_split (toks : List Token) :
    (∀ t ∈ toks, t.kind ≠ .eof) ∨
      ∃ ts l u, (∀ t ∈ ts, t.kind ≠ .eof) ∧ toks = ts ++ ⟨.eof, l⟩ :: u := by
  induction toks with
  | nil => exact .inl (by simp)
  | cons t r ih =>
    by_cases ht : t.kind = .eof
    · obtain ⟨k, l⟩ := t
      dsimp only at ht
      subst ht
      exact .inr ⟨[], l, r, by simp, rfl⟩
    · rcases ih with hr | ⟨ts, l, u, hts, rfl⟩
      · exact .inl (by simpa [ht] using hr)
      · exact .inr ⟨t :: ts, l, u, by simpa [ht] using hts, rfl⟩

theorem input_append_eof (hts : ∀ t ∈ ts, t.kind ≠ .eof) (l : Pos) (u : List Token) :
    input (ts ++ ⟨.eof, l⟩ :: u) = (ts, l) := by
  have inside : ∀ t ∈ ts, (t.kind != .eof) = true := by simpa using hts
  have none : ts.find? (·.kind == .eof) = none := List.find?_eq_none.2 (by simpa using hts)
  simp [input, List.takeWhile_append_of_pos inside, List.find?_append, none]

theorem input_of_no_eof (hts : ∀ t ∈ ts, t.kind ≠ .eof) :
    input ts = (ts, (ts.getLast?.map (·.pos)).getD Pos.start) := by
  have inside : ∀ t ∈ ts, (t.kind != .eof) = true := by simpa using hts
  have none : ts.find? (·.kind == .eof) = none := List.find?_eq_none.2 (by simpa using hts)
  have whole : ts.takeWhile (·.kind != .eof) = ts := by
    have h := (List.takeWhile_append_of_pos inside : (ts ++ []).takeWhile _ = _)
    rwa [List.append_nil, List.takeWhile_nil, List.append_nil] at h
  unfold input
  rw [none, whole]
  cases ts.getLast? <;> rfl

end Program

namespace Parser

open ScopedC.Program

-- The vector holds the list's tokens first, whether or not an end-of-input token is put after.
theorem fromTokens_getElem? {toks : List Token} {i : Nat} (h : i < toks.length) :
    (fromTokens toks)[i]? = toks[i]? := by
  unfold fromTokens
  split
  · simp
  · simp [h, List.getElem?_append_left h]

theorem fromTokens_length_eof {toks : List Token} (hfree : ∀ t ∈ toks, t.kind ≠ .eof) :
    (fromTokens toks)[toks.length]? = some ⟨.eof, (toks.getLast?.map (·.pos)).getD Pos.start⟩ := by
  unfold fromTokens
  rw [if_neg]
  · simp
  · intro hlast
    obtain ⟨t, ht, hk⟩ := Option.map_eq_some_iff.1 hlast
    exact hfree t (List.mem_of_getLast? ht) hk

-- The vector a program is parsed from lays out the tokens before the first end-of-input token,
-- then an end-of-input token where the input ends.
theorem fromTokens_layout (toks : List Token) :
    Layout (fromTokens toks) (input toks).1 (input toks).2 := by
  rcases eof_free_or_split toks with hfree | ⟨ts, l, u, hts, rfl⟩
  · rw [input_of_no_eof hfree]
    exact ⟨fun i hi => fromTokens_getElem? hi, fromTokens_length_eof hfree, hfree⟩
  · rw [input_append_eof hts]
    have hlen : ts.length < (ts ++ ⟨.eof, l⟩ :: u).length := by simp
    refine ⟨fun i hi => ?_, ?_, hts⟩
    · rw [fromTokens_getElem? (Nat.lt_trans hi hlen), List.getElem?_append_left hi]
    · rw [fromTokens_getElem? hlen, List.getElem?_append_right (Nat.le_refl _)]
      simp

end Parser

namespace Program

open ScopedC.Parser

-- The parser on the vector and the list parse of the tokens before the first end-of-input token
-- give the same program and end in the same state, or fail alike in the same state.
theorem run_agrees (s : ParseState) (toks : List Token) :
    Agrees (input toks).1 Along.out (fun p : Program => (p.root, p.state, ([] : List Token)))
      (run s toks) (parseFrom s toks) := by
  have lay := fromTokens_layout toks
  unfold run parseFrom program
  generalize input toks = i at lay ⊢
  obtain ⟨cut, stop⟩ := i
  dsimp only at lay ⊢
  refine (programItems_agrees lay (start s) ⟨Nat.zero_le _, rfl, rfl, rfl⟩).bind
    fun b c _ hy hm => ?_
  obtain ⟨items, q, hq⟩ := b
  obtain ⟨items', s', r, hr⟩ := c
  obtain ⟨hv, hs, hw, hrest⟩ := hm
  dsimp only [Along.out, Steps.parts] at hv hs hw hrest ⊢
  subst hv hs
  -- the list parse reads the statements up to the end of the input
  obtain rfl : r = [] := (programItems_reads hy).1
  have hat : At cut q q.depth q.state [] := ⟨hw, rfl, rfl, hrest⟩
  rcases q.state.chain items with ⟨_ | root, s2⟩
  · exact unexpected_agrees lay (hat.withState s2) _
  · exact .pure ⟨rfl, rfl, hat.within, hat.rest⟩

theorem run_ok {s : ParseState} {toks : List Token} {r : Along (fromTokens toks) 0 Stmt}
    (h : run s toks = .ok r) : parseFrom s toks = .ok ⟨r.value, r.parser.state⟩ := by
  have ha := run_agrees s toks
  rw [h] at ha
  cases hp : parseFrom s toks with
  | error e =>
    rw [hp] at ha
    exact ha.elim
  | ok p =>
    rw [hp] at ha
    obtain ⟨hv, hs, -, -⟩ := ha
    rw [show r.value = p.root from hv, show r.parser.state = p.state from hs]

theorem run_error {s : ParseState} {toks : List Token} {f : Fault} (h : run s toks = .error f) :
    ∃ e, parseFrom s toks = .error e ∧ e.error = f.error ∧ e.state = f.parser.state := by
  have ha := run_agrees s toks
  rw [h] at ha
  cases hp : parseFrom s toks with
  | error e =>
    rw [hp] at ha
    exact ⟨e, rfl, ha.1.symm, ha.2.1.symm⟩
  | ok p =>
    rw [hp] at ha
    exact ha.elim

-- What a parse reports: the program's root or the error, with the state it ended in.
def outcome (s : ParseState) (toks : List Token) :
    Except (ParseError × ParseState) (Stmt × ParseState) :=
  ((run s toks).map fun r => (r.value, r.parser.state)).mapError fun f => (f.error, f.parser.state)

theorem outcome_eq_parseFrom (s : ParseState) (toks : List Token) :
    outcome s toks =
      ((parseFrom s toks).map fun p => (p.root, p.state)).mapError fun e => (e.error, e.state) := by
  unfold outcome
  cases hr : run s toks with
  | ok r =>
    rw [run_ok hr]
    rfl
  | error f =>
    obtain ⟨e, he, herr, hs⟩ := run_error hr
    rw [he]
    show Except.error (f.error, f.parser.state) = Except.error (e.error, e.state)
    rw [herr, hs]

theorem ofTokens_eq_parseFrom (builtins : Bool) (toks : List Token) :
    ofTokens builtins toks = (parseFrom (initialState builtins) toks).mapError (·.error) := by
  unfold ofTokens
  cases hr : run (initialState builtins) toks with
  | ok r =>
    rw [run_ok hr]
    rfl
  | error f =>
    obtain ⟨e, he, herr, -⟩ := run_error hr
    rw [he]
    show Except.error f.error = Except.error e.error
    rw [herr]

end Program

end ScopedC

import ScopedC.Proofs.Relexing
namespace ScopedC

namespace Lexer

theorem numeralValue_eq_ofDigits (base : Nat) (ds : List Char) :
    numeralValue base ds = Nat.ofDigits base (ds.reverse.map digitValue) := by
  -- Horner's rule read from the last digit
  induction ds using List.reverseRecOn with
  | nil => rfl
  | append_singleton ds d ih =>
    rw [numeralValue, List.foldl_append, ← numeralValue, ih]
    simp only [List.foldl_cons, List.foldl_nil, List.reverse_append, List.reverse_cons,
      List.reverse_nil, List.nil_append, List.singleton_append, List.map_cons, Nat.ofDigits_cons]
    ring

theorem Cut.span_append_stop {f : Char → Bool} {xs rest : List Char}
    (hxs : ∀ x ∈ xs, f x = true) (hstop : ∀ c ∈ rest.head?, f c = false) :
    (Cut.span f (xs ++ rest)).taken = xs ∧ (Cut.span f (xs ++ rest)).rest = rest := by
  simp only [Cut.span, List.takeWhile_append_of_pos hxs, List.dropWhile_append_of_pos hxs]
  cases rest with
  | nil => simp
  | cons d r =>
    have hd : f d = false := hstop d rfl
    simp [List.takeWhile_cons_of_neg, List.dropWhile_cons_of_neg, hd]

theorem literal_eq {cs : List Char} (base : Nat) (digits : List Char) (k : Cut cs) :
    literal base digits k =
      if numeralValue base digits ≤ maxLiteral then .ok (.num (numeralValue base digits), k)
      else .error (.outOfRange (String.ofList digits)) := rfl

theorem number_of_not_hex {c : Char} {cs : List Char}
    (h : ¬ (c = '0' ∧ ∃ x ∈ cs.head?, x = 'x' ∨ x = 'X')) :
    number c cs = literal 10 (c :: (Cut.span Char.isDigit cs).taken) (Cut.span Char.isDigit cs) := by
  cases cs with
  | nil => exact number.eq_2 c [] (fun _ _ _ hnil => nomatch hnil)
  | cons x r =>
    by_cases hc : c = '0'
    · subst hc
      rw [number.eq_1, if_neg fun hx => h ⟨rfl, x, rfl, hx⟩]
    · exact number.eq_2 c (x :: r) fun _ _ h0 _ => hc h0

theorem number_hex {x : Char} {r : List Char} (hx : x = 'x' ∨ x = 'X') :
    number '0' (x :: r) =
      if (Cut.span isHexDigit r).taken.isEmpty then .error .noHexDigits
      else literal 16 (Cut.span isHexDigit r).taken ((Cut.span isHexDigit r).cons x) := by
  rw [number.eq_1, if_pos hx]

theorem scanFrom_token_ok {p : Pos} {c : Char} {r : List Char} {acc : Array Token}
    {kind : TokenKind} {k : Cut r} (hc : isBlank c = false) (hslash : c ≠ '/')
    (h : lexeme c r = .ok (kind, k)) :
    scanFrom p (c :: r) acc = scanFrom (p.skip (c :: k.taken)) k.rest (acc.push ⟨kind, p⟩) := by
  rw [scanFrom.eq_4 _ _ _ _ (fun _ h' _ => hslash h') (fun _ h' _ => hslash h')]
  simp only [hc, Bool.false_eq_true, if_false, h]

theorem scanFrom_token_error {p : Pos} {c : Char} {r : List Char} {acc : Array Token}
    {cause : LexError.Cause} (hc : isBlank c = false) (hslash : c ≠ '/')
    (h : lexeme c r = .error cause) :
    scanFrom p (c :: r) acc = .error ⟨cause, p⟩ := by
  rw [scanFrom.eq_4 _ _ _ _ (fun _ h' _ => hslash h') (fun _ h' _ => hslash h')]
  simp only [hc, Bool.false_eq_true, if_false, h]

theorem scanFrom_decimalRun {p : Pos} {acc : Array Token} {ds rest : List Char}
    (hne : ds ≠ []) (hdigits : ∀ c ∈ ds, c.isDigit = true)
    (hwhole : ∀ c ∈ rest.head?, c.isDigit = false)
    (hnotHex : ¬ (ds = ['0'] ∧ ∃ x ∈ rest.head?, x = 'x' ∨ x = 'X')) :
    scanFrom p (ds ++ rest) acc =
      if Nat.ofDigits 10 (ds.reverse.map digitValue) ≤ maxLiteral then
        scanFrom (p.skip ds) rest
          (acc.push ⟨.num (Nat.ofDigits 10 (ds.reverse.map digitValue) : Nat), p⟩)
      else .error ⟨.outOfRange (String.ofList ds), p⟩ := by
  obtain ⟨c, cs, rfl⟩ := List.exists_cons_of_ne_nil hne
  have hc : c.isDigit = true := hdigits c List.mem_cons_self
  have hcs : ∀ d ∈ cs, d.isDigit = true := fun d hd => hdigits d (List.mem_cons_of_mem c hd)
  obtain ⟨htaken, hrest⟩ := Cut.span_append_stop hcs hwhole
  -- the character after the first digit is a digit, or the one after the run: never an `x`
  have hnum : number c (cs ++ rest) = literal 10 (c :: cs) (Cut.span Char.isDigit (cs ++ rest)) := by
    rw [number_of_not_hex, htaken]
    rintro ⟨rfl, x, hx, hxx⟩
    cases cs with
    | nil => exact hnotHex ⟨rfl, x, by simpa using hx, hxx⟩
    | cons d ds =>
      obtain rfl : d = x := by simpa using hx
      have hd := hcs d List.mem_cons_self
      rcases hxx with rfl | rfl <;> exact absurd hd (by decide)
  have hread : lexeme c (cs ++ rest) = literal 10 (c :: cs) (Cut.span Char.isDigit (cs ++ rest)) := by
    rw [← hnum]
    simp [lexeme, hc]
  rw [literal_eq] at hread
  rw [← numeralValue_eq_ofDigits, List.cons_append]
  by_cases hv : numeralValue 10 (c :: cs) ≤ maxLiteral
  · rw [if_pos hv] at hread ⊢
    rw [scanFrom_token_ok (isBlank_eq_false (.inl hc)) (ne_slash (.inl hc)) hread, htaken, hrest]
  · rw [if_neg hv] at hread ⊢
    exact scanFrom_token_error (isBlank_eq_false (.inl hc)) (ne_slash (.inl hc)) hread

theorem scanFrom_hexRun {p : Pos} {acc : Array Token} {x : Char} {hs rest : List Char}
    (hx : x = 'x' ∨ x = 'X') (hdigits : ∀ c ∈ hs, isHexDigit c = true)
    (hwhole : ∀ c ∈ rest.head?, isHexDigit c = false) :
    scanFrom p ('0' :: x :: (hs ++ rest)) acc =
      if hs = [] then .error ⟨.noHexDigits, p⟩
      else if Nat.ofDigits 16 (hs.reverse.map digitValue) ≤ maxLiteral then
        scanFrom (p.skip ('0' :: x :: hs)) rest
          (acc.push ⟨.num (Nat.ofDigits 16 (hs.reverse.map digitValue) : Nat), p⟩)
      else .error ⟨.outOfRange (String.ofList hs), p⟩ := by
  obtain ⟨htaken, hrest⟩ := Cut.span_append_stop hdigits hwhole
  have hread : lexeme '0' (x :: (hs ++ rest)) = number '0' (x :: (hs ++ rest)) := by
    simp [lexeme]
  rw [number_hex hx, htaken] at hread
  have hzero : isBlank '0' = false := by decide
  have hslash : '0' ≠ '/' := by decide
  rw [← numeralValue_eq_ofDigits]
  by_cases hnil : hs = []
  · subst hnil
    rw [if_pos rfl]
    exact scanFrom_token_error hzero hslash (by simpa using hread)
  · rw [if_neg hnil, literal_eq] at *
    rw [if_neg (by simpa using hnil)] at hread
    by_cases hv : numeralValue 16 hs ≤ maxLiteral
    · rw [if_pos hv] at hread ⊢
      rw [scanFrom_token_ok hzero hslash hread]
      simp [Cut.cons, htaken, hrest]
    · rw [if_neg hv] at hread ⊢
      exact scanFrom_token_error hzero hslash hread

theorem scan_literals_in_range {src : String} {ts : List Token} (h : Token.scan src = .ok ts) :
    ∀ t ∈ ts, ∀ v, t.kind = .num v → 0 ≤ v ∧ v ≤ maxLiteral := by
  cases hs : scanFrom Pos.start src.toList #[] with
  | error e => simp [Token.scan, hs, Except.map] at h
  | ok arr =>
    obtain rfl : arr.toList = ts := by simpa [Token.scan, hs, Except.map] using h
    obtain ⟨ks, hkinds, hks⟩ := scanFrom_kinds hs
    intro t ht v hv
    -- the kinds read are lexable ones and then the end of input, which is no literal
    have hmem : TokenKind.num v ∈ ks ++ [.eof] := by
      simpa [hkinds, hv] using List.mem_map_of_mem (f := Token.kind) ht
    have hks' : TokenKind.num v ∈ ks := by simpa using hmem
    exact hks _ hks'

end Lexer

open Lexer in
theorem literal_bounds :
    (∀ (p : Pos) (acc : Array Token) (ds rest : List Char), ds ≠ [] →
      (∀ c ∈ ds, c.isDigit = true) → (∀ c ∈ rest.head?, c.isDigit = false) →
      ¬ (ds = ['0'] ∧ ∃ x ∈ rest.head?, x = 'x' ∨ x = 'X') →
      scanFrom p (ds ++ rest) acc =
        if Nat.ofDigits 10 (ds.reverse.map digitValue) ≤ maxLiteral then
          scanFrom (p.skip ds) rest
            (acc.push ⟨.num (Nat.ofDigits 10 (ds.reverse.map digitValue) : Nat), p⟩)
        else .error ⟨.outOfRange (String.ofList ds), p⟩) ∧
    (∀ (p : Pos) (acc : Array Token) (x : Char) (hs rest : List Char), (x = 'x' ∨ x = 'X') →
      (∀ c ∈ hs, isHexDigit c = true) → (∀ c ∈ rest.head?, isHexDigit c = false) →
      scanFrom p ('0' :: x :: (hs ++ rest)) acc =
        if hs = [] then .error ⟨.noHexDigits, p⟩
        else if Nat.ofDigits 16 (hs.reverse.map digitValue) ≤ maxLiteral then
          scanFrom (p.skip ('0' :: x :: hs)) rest
            (acc.push ⟨.num (Nat.ofDigits 16 (hs.reverse.map digitValue) : Nat), p⟩)
        else .error ⟨.outOfRange (String.ofList hs), p⟩) ∧
    (∀ (src : String) (ts : List Token), Token.scan src = .ok ts →
      ∀ t ∈ ts, ∀ v, t.kind = .num v → 0 ≤ v ∧ v ≤ maxLiteral) :=
  ⟨fun _ _ _ _ hne hdigits hwhole hnotHex => scanFrom_decimalRun hne hdigits hwhole hnotHex,
    fun _ _ _ _ _ hx hdigits hwhole => scanFrom_hexRun hx hdigits hwhole,
    fun _ _ h => scan_literals_in_range h⟩

open Lexer in
theorem literal_bounds_at_limits :
    scanFrom Pos.start ['2', '1', '4', '7', '4', '8', '3', '6', '4', '8'] #[] =
        .error ⟨.outOfRange "2147483648", Pos.start⟩ ∧
      scanFrom Pos.start ['0', 'X', '7', 'f', 'f', 'f', 'f', 'f', 'f', 'f'] #[] =
        .ok #[⟨.num 2147483647, Pos.start⟩, ⟨.eof, ⟨1, 11⟩⟩] ∧
      scanFrom Pos.start ['0', 'x', ';'] #[] = .error ⟨.noHexDigits, Pos.start⟩ := by
  refine ⟨?_, ?_, ?_⟩
  · have h := literal_bounds.1 Pos.start #[] ['2', '1', '4', '7', '4', '8', '3', '6', '4', '8'] []
      (by simp) (by simp) (by simp) (by simp)
    rw [List.append_nil, if_neg (by simp [digitValue, maxLiteral, Nat.ofDigits])] at h
    rw [h]
  · have h := literal_bounds.2.1 Pos.start #[] 'X' ['7', 'f', 'f', 'f', 'f', 'f', 'f', 'f'] []
      (by simp) (by simp [isHexDigit]) (by simp)
    rw [List.append_nil, if_neg (by simp),
      if_pos (by simp [digitValue, maxLiteral, Nat.ofDigits]), scanFrom.eq_1] at h
    rw [h]
    rfl
  · have h := literal_bounds.2.1 Pos.start #[] 'x' [] [';'] (by simp) (by simp)
      (by simp [isHexDigit])
    rw [List.nil_append, if_pos rfl] at h
    exact h

end ScopedC

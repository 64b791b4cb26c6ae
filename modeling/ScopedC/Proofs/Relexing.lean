import Mathlib
import ScopedC.Token.Lexer
namespace ScopedC

namespace TokenKind

def text : TokenKind → String
  | .num v => toString v
  | .ident name => name
  | .keyword k => k.spelling
  | .punct p => p.spelling
  | .eof => ""

def print (ks : List TokenKind) : String := " ".intercalate (ks.map text)

def isWordName (s : String) : Bool :=
  match s.toList with
  | c :: cs => (c.isAlpha || c = '_') && cs.all fun d => d.isAlphanum || d = '_'
  | [] => false

def Lexable : TokenKind → Prop
  | .num v => 0 ≤ v ∧ v ≤ Lexer.maxLiteral
  | .ident name => isWordName name = true ∧ ∀ k : Keyword, k.spelling ≠ name
  | .keyword _ | .punct _ => True
  | .eof => False

@[simp] theorem lexable_punct (q : Punct) : (punct q).Lexable := trivial

@[simp] theorem print_nil : print [] = "" := rfl

@[simp] theorem print_singleton (k : TokenKind) : print [k] = k.text := by
  simp [print]

theorem toList_print_cons_cons (k k' : TokenKind) (ks : List TokenKind) :
    (print (k :: k' :: ks)).toList = k.text.toList ++ ' ' :: (print (k' :: ks)).toList := by
  simp [print, String.toList_intercalate]

end TokenKind

namespace Lexer

-- Character classes

theorem isDigit_eq_false_of_isWordStart {c : Char} (h : isWordStart c = true) :
    c.isDigit = false := by
  simp only [isWordStart, Char.isAlpha, Char.isUpper, Char.isLower, Bool.or_eq_true,
    Bool.and_eq_true, decide_eq_true_eq, UInt32.le_iff_toNat_le, ge_iff_le] at h
  simp only [Char.isDigit, Bool.and_eq_false_iff, decide_eq_false_iff_not,
    UInt32.le_iff_toNat_le, ge_iff_le]
  -- letters lie above the digits
  have h9 : '9'.val.toNat = 57 := rfl
  have hA : 'A'.val.toNat = 65 := rfl
  have ha : 'a'.val.toNat = 97 := rfl
  rcases h with (h | h) | rfl
  · omega
  · omega
  · decide

theorem isBlank_eq_false {c : Char} (h : c.isDigit = true ∨ isWordStart c = true) :
    isBlank c = false := by
  refine Bool.eq_false_iff.2 fun hb => ?_
  simp only [isBlank, Bool.or_eq_true, decide_eq_true_eq] at hb
  rcases hb with (((rfl | rfl) | rfl) | rfl) | rfl <;> exact absurd h (by decide)

theorem ne_slash {c : Char} (h : c.isDigit = true ∨ isWordStart c = true) : c ≠ '/' := by
  rintro rfl
  exact absurd h (by decide)

theorem Cut.span_append_gap {f : Char → Bool} {xs rest : List Char}
    (hxs : ∀ x ∈ xs, f x = true) (hf : f ' ' = false) (hrest : ∀ d ∈ rest.head?, d = ' ') :
    (Cut.span f (xs ++ rest)).taken = xs ∧ (Cut.span f (xs ++ rest)).rest = rest := by
  simp only [Cut.span, List.takeWhile_append_of_pos hxs, List.dropWhile_append_of_pos hxs]
  cases rest with
  | nil => simp
  | cons d r =>
    obtain rfl : d = ' ' := hrest d rfl
    simp [List.takeWhile_cons_of_neg, List.dropWhile_cons_of_neg, hf]

-- One step of the scanner

theorem scanFrom_blank {p : Pos} {c : Char} {r : List Char} {acc : Array Token}
    (hc : isBlank c = true) : scanFrom p (c :: r) acc = scanFrom (p.next c) r acc := by
  -- a blank is no `/`, so neither comment case applies
  have hslash : c ≠ '/' := by rintro rfl; simp [isBlank] at hc
  rw [scanFrom.eq_4 _ _ _ _ (fun _ h => absurd h hslash) (fun _ h => absurd h hslash), if_pos hc]

theorem scanFrom_lexeme {p : Pos} {c : Char} {tail rest : List Char} {acc : Array Token}
    {kind : TokenKind} {k : Cut (tail ++ rest)} (hc : isBlank c = false)
    (hcom : c = '/' → tail.head? ≠ some '/' ∧ tail.head? ≠ some '*')
    (hrest : ∀ d ∈ rest.head?, d = ' ')
    (h : lexeme c (tail ++ rest) = .ok (kind, k)) (ht : k.taken = tail) (hr : k.rest = rest) :
    scanFrom p (c :: (tail ++ rest)) acc =
      scanFrom (p.skip (c :: tail)) rest (acc.push ⟨kind, p⟩) := by
  have hhead : c = '/' → ∀ d ∈ (tail ++ rest).head?, d ≠ '/' ∧ d ≠ '*' := by
    intro hslash d hd
    cases tail with
    | nil =>
      obtain rfl := hrest d (by simpa using hd)
      decide
    | cons e es =>
      obtain rfl : e = d := by simpa using hd
      obtain ⟨h1, h2⟩ := hcom hslash
      exact ⟨fun he => h1 (by simp [he]), fun he => h2 (by simp [he])⟩
  have hline : ∀ r', c = '/' → tail ++ rest = '/' :: r' → False := fun r' hslash hr' =>
    (hhead hslash '/' (by simp [hr'])).1 rfl
  have hblock : ∀ r', c = '/' → tail ++ rest = '*' :: r' → False := fun r' hslash hr' =>
    (hhead hslash '*' (by simp [hr'])).2 rfl
  rw [scanFrom.eq_4 _ _ _ _ hline hblock]
  simp only [hc, Bool.false_eq_true, if_false, h, ht, hr]

-- Reading one printed token

theorem isWordName_toList {w : String} (hw : TokenKind.isWordName w = true) :
    ∃ c cs, w.toList = c :: cs ∧ isWordStart c = true ∧ ∀ d ∈ cs, isWordChar d = true := by
  unfold TokenKind.isWordName at hw
  split at hw
  · next c cs hcs =>
    simp only [Bool.and_eq_true, List.all_eq_true] at hw
    exact ⟨c, cs, hcs, hw.1, hw.2⟩
  · simp at hw

theorem scanFrom_word {p : Pos} {w : String} {rest : List Char} {acc : Array Token}
    (hw : TokenKind.isWordName w = true) (hrest : ∀ d ∈ rest.head?, d = ' ') :
    scanFrom p (w.toList ++ rest) acc =
      scanFrom (p.skip w.toList) rest (acc.push ⟨(Keyword.ofWord? w).elim (.ident w) .keyword, p⟩) := by
  obtain ⟨c, cs, hwl, hc, hcs⟩ := isWordName_toList hw
  obtain ⟨ht, hr⟩ := Cut.span_append_gap hcs (by decide) hrest
  have hname : String.ofList (c :: cs) = w := by rw [← hwl, String.ofList_toList]
  have hlex : lexeme c (cs ++ rest) =
      .ok ((Keyword.ofWord? w).elim (.ident w) .keyword, Cut.span isWordChar (cs ++ rest)) := by
    simp only [lexeme, isDigit_eq_false_of_isWordStart hc, hc, word, ht, hname]
    cases Keyword.ofWord? w <;> rfl
  rw [hwl, List.cons_append]
  exact scanFrom_lexeme (isBlank_eq_false (.inr hc)) (fun h => absurd h (ne_slash (.inr hc)))
    hrest hlex ht hr

theorem numeralValue_toDigits (n : Nat) : numeralValue 10 (Nat.toDigits 10 n) = n :=
  calc numeralValue 10 (Nat.toDigits 10 n)
      = Nat.ofDigitChars 10 (Nat.toDigits 10 n) 0 :=
        List.foldl_ext _ _ _ fun a d hd => by
          simp [digitValue, Nat.isDigit_of_mem_toDigits (by decide) (by decide) hd, Nat.mul_comm]
    _ = n := Nat.ofDigitChars_ten_toDigits

theorem number_decimal {c : Char} {cs : List Char} (hx : ∀ d ∈ cs.head?, d ≠ 'x' ∧ d ≠ 'X') :
    number c cs = literal 10 (c :: (Cut.span Char.isDigit cs).taken) (Cut.span Char.isDigit cs) := by
  unfold number
  split
  · next x r =>
    have := hx x rfl
    rw [if_neg (by tauto)]
  · rfl

theorem scanFrom_decimal {p : Pos} {n : Nat} {rest : List Char} {acc : Array Token}
    (hn : n ≤ maxLiteral) (hrest : ∀ d ∈ rest.head?, d = ' ') :
    scanFrom p (Nat.toDigits 10 n ++ rest) acc =
      scanFrom (p.skip (Nat.toDigits 10 n)) rest (acc.push ⟨.num n, p⟩) := by
  obtain ⟨c, cs, hds⟩ := List.exists_cons_of_ne_nil (Nat.toDigits_ne_nil (n := n) (b := 10))
  have hdigit : ∀ d ∈ c :: cs, d.isDigit = true := fun d hd =>
    Nat.isDigit_of_mem_toDigits (by decide) (by decide) (hds ▸ hd)
  have hc : c.isDigit = true := hdigit c List.mem_cons_self
  obtain ⟨ht, hr⟩ := Cut.span_append_gap (fun d hd => hdigit d (List.mem_cons_of_mem c hd))
    (by decide) hrest
  -- what follows the first digit is a digit or a space, so no `x` of a hexadecimal prefix
  have hx : ∀ d ∈ (cs ++ rest).head?, d ≠ 'x' ∧ d ≠ 'X' := by
    intro d hd
    cases cs with
    | nil =>
      obtain rfl : d = ' ' := hrest d (by simpa using hd)
      decide
    | cons e es =>
      obtain rfl : e = d := by simpa using hd
      have he := hdigit e (by simp)
      constructor <;> rintro rfl <;> exact absurd he (by decide)
  have hlex : lexeme c (cs ++ rest) = .ok (.num n, Cut.span Char.isDigit (cs ++ rest)) := by
    simp only [lexeme, hc, if_true, number_decimal hx, literal, ht, ← hds, numeralValue_toDigits,
      if_pos hn]
  rw [hds, List.cons_append]
  exact scanFrom_lexeme (isBlank_eq_false (.inl hc)) (fun h => absurd h (ne_slash (.inl hc)))
    hrest hlex ht hr

theorem scanFrom_punct {p : Pos} (q : Punct) {rest : List Char} {acc : Array Token}
    (hrest : ∀ d ∈ rest.head?, d = ' ') :
    scanFrom p (q.spelling.toList ++ rest) acc =
      scanFrom (p.skip q.spelling.toList) rest (acc.push ⟨.punct q, p⟩) := by
  obtain rfl | ⟨r, rfl⟩ : rest = [] ∨ ∃ r, rest = ' ' :: r := by
    cases rest with
    | nil => exact .inl rfl
    | cons d r => exact .inr ⟨r, by rw [hrest d rfl]⟩
  all_goals cases q <;> exact scanFrom_lexeme (by decide) (by decide) hrest rfl rfl rfl

-- Every token read stands for text

theorem Keyword.mem_all (kw : Keyword) : kw ∈ Keyword.all := by
  cases kw <;> decide

theorem spelling_ne_of_ofWord?_eq_none {w : String} (h : Keyword.ofWord? w = none)
    (kw : Keyword) : kw.spelling ≠ w := fun heq =>
  List.find?_eq_none.1 h kw (Keyword.mem_all kw) (by simp [heq])

theorem literal_lexable {cs : List Char} {base : Nat} {digits : List Char} {k : Cut cs}
    {kind : TokenKind} {k' : Cut cs} (h : literal base digits k = .ok (kind, k')) :
    kind.Lexable := by
  unfold literal at h
  dsimp only at h
  split at h
  · next hv =>
    simp only [Except.ok.injEq, Prod.mk.injEq] at h
    rw [← h.1]
    exact ⟨Int.natCast_nonneg _, Int.ofNat_le.2 hv⟩
  · simp at h

theorem number_lexable {c : Char} {cs : List Char} {kind : TokenKind} {k : Cut cs}
    (h : number c cs = .ok (kind, k)) : kind.Lexable := by
  unfold number at h
  split at h
  · split at h
    · dsimp only at h
      split at h
      · simp at h
      · exact literal_lexable h
    · exact literal_lexable h
  · exact literal_lexable h

theorem word_lexable {c : Char} {cs : List Char} (hc : isWordStart c = true) :
    (word c cs).1.Lexable := by
  unfold word
  dsimp only
  split
  · trivial
  · next hnone =>
    refine ⟨?_, spelling_ne_of_ofWord?_eq_none hnone⟩
    have htaken : ∀ d ∈ (Cut.span isWordChar cs).taken, isWordChar d = true :=
      fun d hd => List.all_eq_true.1 List.all_takeWhile d hd
    simpa [TokenKind.isWordName, isWordStart, isWordChar] using And.intro hc htaken

theorem withAssign_lexable (single double : Punct) (cs : List Char) :
    (withAssign single double cs).1.Lexable := by
  unfold withAssign
  split <;> trivial

theorem lexeme_lexable {c : Char} {cs : List Char} {kind : TokenKind} {k : Cut cs}
    (h : lexeme c cs = .ok (kind, k)) : kind.Lexable := by
  unfold lexeme at h
  split at h
  · exact number_lexable h
  split at h
  · next hw =>
    have hkind : (word c cs).1 = kind := congrArg Prod.fst (Except.ok.inj h)
    exact hkind ▸ word_lexable hw
  -- the rest are marks, and an error for a character that starts no token
  split at h <;> simp only [Except.ok.injEq, reduceCtorEq, Prod.ext_iff] at h
  all_goals rw [← h.1]
  all_goals simp [mark, withAssign_lexable]

theorem scanFrom_kinds {p : Pos} {cs : List Char} {acc ts : Array Token}
    (h : scanFrom p cs acc = .ok ts) :
    ∃ ks, ts.toList.map Token.kind = acc.toList.map Token.kind ++ ks ++ [.eof] ∧
      ∀ k ∈ ks, k.Lexable := by
  -- along the scanner's own recursion: blanks and comments add nothing, `lexeme` one kind
  fun_induction scanFrom p cs acc generalizing ts with
  | case1 p acc =>
    obtain rfl := Except.ok.inj h
    exact ⟨[], by simp, by simp⟩
  | case2 _ _ _ _ _ ih => exact ih h
  | case3 _ _ _ _ _ ih => exact ih h
  | case4 => cases h
  | case5 _ _ _ _ _ _ _ ih => exact ih h
  | case6 => cases h
  | case7 p acc c r _ _ kind k hlex _ _ ih =>
    obtain ⟨ks, hts, hks⟩ := ih h
    refine ⟨kind :: ks, by simp [hts], ?_⟩
    intro k' hk'
    rcases List.mem_cons.1 hk' with rfl | hk'
    · exact lexeme_lexable hlex
    · exact hks k' hk'

end Lexer

namespace TokenKind

theorem scanFrom_text {k : TokenKind} (hk : k.Lexable) {p : Pos} {rest : List Char}
    {acc : Array Token} (hrest : ∀ d ∈ rest.head?, d = ' ') :
    Lexer.scanFrom p (k.text.toList ++ rest) acc =
      Lexer.scanFrom (p.skip k.text.toList) rest (acc.push ⟨k, p⟩) := by
  cases k with
  | num v =>
    obtain ⟨hv, hmax⟩ := hk
    obtain ⟨n, rfl⟩ := Int.eq_ofNat_of_zero_le hv
    have htext : (text (.num n)).toList = Nat.toDigits 10 n := by simp [text, toString, Int.repr]
    rw [htext]
    exact Lexer.scanFrom_decimal (by omega) hrest
  | ident name =>
    obtain ⟨hw, hkw⟩ := hk
    have hnone : Keyword.ofWord? name = none :=
      List.find?_eq_none.2 fun kw _ => by simpa using hkw kw
    simpa [text, hnone] using Lexer.scanFrom_word hw hrest
  | keyword kw =>
    have hsome : Keyword.ofWord? kw.spelling = some kw := by cases kw <;> rfl
    have hw : isWordName kw.spelling = true := by cases kw <;> decide
    simpa [text, hsome] using Lexer.scanFrom_word hw hrest
  | punct q => exact Lexer.scanFrom_punct q hrest
  | eof => exact hk.elim

theorem scanFrom_print {ks : List TokenKind} (hks : ∀ k ∈ ks, k.Lexable) (p : Pos)
    (acc : Array Token) :
    ∃ ts, Lexer.scanFrom p (print ks).toList acc = .ok ts ∧
      ts.toList.map Token.kind = acc.toList.map Token.kind ++ ks ++ [.eof] := by
  induction ks generalizing p acc with
  | nil => exact ⟨acc.push ⟨.eof, p⟩, Lexer.scanFrom.eq_1 p acc, by simp⟩
  | cons k ks ih =>
    have hk := hks k List.mem_cons_self
    -- the last token is followed by nothing, every other one by a space
    cases ks with
    | nil =>
      refine ⟨(acc.push ⟨k, p⟩).push ⟨.eof, p.skip k.text.toList⟩, ?_, by simp⟩
      rw [print_singleton, ← List.append_nil k.text.toList, scanFrom_text hk (by simp),
        Lexer.scanFrom.eq_1, List.append_nil]
    | cons k' ks =>
      obtain ⟨ts, hts, hkinds⟩ := ih (fun k hk' => hks k (List.mem_cons_of_mem _ hk'))
        ((p.skip k.text.toList).next ' ') (acc.push ⟨k, p⟩)
      refine ⟨ts, ?_, by simp [hkinds]⟩
      rw [toList_print_cons_cons, scanFrom_text hk (by simp), Lexer.scanFrom_blank (by decide), hts]

end TokenKind

open TokenKind in
theorem scan_print_roundtrip :
    (∀ ks : List TokenKind, (∀ k ∈ ks, k.Lexable) →
      ∃ ts, Token.scan (print ks) = .ok ts ∧ ts.map Token.kind = ks ++ [.eof]) ∧
    (∀ (src : String) (ts : List Token), Token.scan src = .ok ts →
      ∃ ks, ts.map Token.kind = ks ++ [.eof] ∧ ∀ k ∈ ks, k.Lexable) ∧
    (∀ (src : String) (ts : List Token), Token.scan src = .ok ts →
      ∃ ts', Token.scan (print (ts.map Token.kind).dropLast) = .ok ts' ∧
        ts'.map Token.kind = ts.map Token.kind) := by
  have hprint : ∀ ks : List TokenKind, (∀ k ∈ ks, k.Lexable) →
      ∃ ts, Token.scan (print ks) = .ok ts ∧ ts.map Token.kind = ks ++ [.eof] := by
    intro ks hks
    obtain ⟨ts, hts, hkinds⟩ := scanFrom_print hks Pos.start #[]
    exact ⟨ts.toList, by simp only [Token.scan, hts]; rfl, by simpa using hkinds⟩
  have hlexed : ∀ (src : String) (ts : List Token), Token.scan src = .ok ts →
      ∃ ks, ts.map Token.kind = ks ++ [.eof] ∧ ∀ k ∈ ks, k.Lexable := by
    intro src ts h
    cases hs : Lexer.scanFrom Pos.start src.toList #[] with
    | error e => simp [Token.scan, hs, Except.map] at h
    | ok ts' =>
      obtain rfl : ts'.toList = ts := by simpa [Token.scan, hs, Except.map] using h
      simpa using Lexer.scanFrom_kinds hs
  refine ⟨hprint, hlexed, fun src ts h => ?_⟩
  obtain ⟨ks, hkinds, hks⟩ := hlexed src ts h
  rw [hkinds, List.dropLast_concat]
  exact hprint ks hks

theorem scan_print_spaced_marks :
    (∀ k ∈ [TokenKind.num 0, .ident "x", .punct .slash, .punct .star], k.Lexable) ∧
      ∃ ts, Token.scan (TokenKind.print [.num 0, .ident "x", .punct .slash, .punct .star]) =
          .ok ts ∧
        ts.map Token.kind = [.num 0, .ident "x", .punct .slash, .punct .star, .eof] := by
  have hks : ∀ k ∈ [TokenKind.num 0, .ident "x", .punct .slash, .punct .star], k.Lexable := by
    simp only [List.forall_mem_cons, List.not_mem_nil, IsEmpty.forall_iff, implies_true,
      and_true, TokenKind.lexable_punct]
    exact ⟨⟨by decide, by decide⟩, ⟨by decide, fun kw => by cases kw <;> decide⟩⟩
  exact ⟨hks, scan_print_roundtrip.1 _ hks⟩

end ScopedC

import ScopedC.Proofs.Literals
namespace ScopedC

namespace Lexer

def placeAfter (before : List Char) : Pos :=
  ⟨1 + before.count '\n', 1 + (before.reverse.takeWhile (· != '\n')).length⟩

inductive Trivia : List Char → Prop
  | nil : Trivia []
  | blank {c : Char} {rest : List Char} : isBlank c = true → Trivia rest → Trivia (c :: rest)
  | lineComment {body rest : List Char} : '\n' ∉ body → Trivia rest →
      Trivia ('/' :: '/' :: (body ++ '\n' :: rest))
  | blockComment {body rest : List Char} : ¬ ['*', '/'] <:+: body → Trivia rest →
      Trivia ('/' :: '*' :: (body ++ '*' :: '/' :: rest))

def Spells : TokenKind → List Char → Prop
  | .num v, w =>
    (w ≠ [] ∧ (∀ d ∈ w, d.isDigit = true) ∧
        v = (Nat.ofDigits 10 (w.reverse.map digitValue) : Nat)) ∨
      ∃ x hs, w = '0' :: x :: hs ∧ (x = 'x' ∨ x = 'X') ∧ hs ≠ [] ∧
        (∀ d ∈ hs, isHexDigit d = true) ∧ v = (Nat.ofDigits 16 (hs.reverse.map digitValue) : Nat)
  | .ident name, w => w = name.toList ∧ (TokenKind.ident name).Lexable
  | .keyword k, w => w = k.spelling.toList
  | .punct q, w => w = q.spelling.toList
  | .eof, w => w = []

def Offends : LexError.Cause → List Char → Prop
  | .unexpectedChar c, after =>
    after.head? = some c ∧ isBlank c = false ∧
      ∀ kind w, Spells kind w → w ≠ [] → ¬ w <+: after
  | .noHexDigits, after =>
    ∃ x r, after = '0' :: x :: r ∧ (x = 'x' ∨ x = 'X') ∧ ∀ d ∈ r.head?, isHexDigit d = false
  | .outOfRange digits, after =>
    (∃ r, after = digits.toList ++ r ∧ digits.toList ≠ [] ∧
        (∀ d ∈ digits.toList, d.isDigit = true) ∧ (∀ d ∈ r.head?, d.isDigit = false) ∧
        maxLiteral < Nat.ofDigits 10 (digits.toList.reverse.map digitValue)) ∨
      ∃ x r, after = '0' :: x :: (digits.toList ++ r) ∧ (x = 'x' ∨ x = 'X') ∧
        (∀ d ∈ digits.toList, isHexDigit d = true) ∧ (∀ d ∈ r.head?, isHexDigit d = false) ∧
        maxLiteral < Nat.ofDigits 16 (digits.toList.reverse.map digitValue)
  | .unterminatedComment, after => ∃ r, after = '/' :: '*' :: r ∧ ¬ ['*', '/'] <:+: r

-- Scans before text result: the lexer's result laid over text, read after before.
inductive Scans : List Char → List Char → Except LexError (List Token) → Prop
  | eof {before gap : List Char} : Trivia (gap ++ ['\n']) →
      Scans before gap (.ok [⟨.eof, placeAfter (before ++ gap)⟩])
  | stop {before gap after : List Char} {cause : LexError.Cause} : Trivia gap →
      Offends cause after → Scans before (gap ++ after) (.error ⟨cause, placeAfter (before ++ gap)⟩)
  | token {before gap w rest : List Char} {kind : TokenKind} {res : Except LexError (List Token)} :
      Trivia gap → Spells kind w → w ≠ [] → Scans (before ++ gap ++ w) rest res →
      Scans before (gap ++ w ++ rest) (res.map (⟨kind, placeAfter (before ++ gap)⟩ :: ·))

-- Places

theorem placeAfter_eq_skip (before : List Char) : placeAfter before = Pos.start.skip before := by
  -- `skip` reads left to right, so the text grows at its end
  induction before using List.reverseRecOn with
  | nil => rfl
  | append_singleton xs c ih =>
    rw [Pos.skip_append, ← ih]
    by_cases hc : c = '\n'
    · simp [placeAfter, Pos.next, hc]
      omega
    · simp [placeAfter, Pos.next, hc]
      omega

theorem placeAfter_append (before xs : List Char) :
    placeAfter (before ++ xs) = (placeAfter before).skip xs := by
  rw [placeAfter_eq_skip, placeAfter_eq_skip, Pos.skip_append]

-- What a text starts with

theorem Trivia.of_lineFeed {rest : List Char} (h : Trivia ('\n' :: rest)) : Trivia rest := by
  cases h with
  | blank _ h => exact h

theorem spells_start {kind : TokenKind} {d : Char} {w : List Char} (h : Spells kind (d :: w)) :
    d.isDigit = true ∨ isWordStart d = true ∨ ∃ q, kind = .punct q := by
  cases kind with
  | num v =>
    rcases h with ⟨_, hds, _⟩ | ⟨x, hs, hw, _⟩
    · exact .inl (hds d List.mem_cons_self)
    · cases hw
      exact .inl rfl
  | ident name =>
    obtain ⟨hw, hname, _⟩ := h
    obtain ⟨c, cs, hcs, hc, _⟩ := isWordName_toList hname
    rw [hcs, List.cons.injEq] at hw
    exact .inr (.inl (hw.1 ▸ hc))
  | keyword k =>
    refine .inr (.inl ?_)
    cases k <;> simp [Spells, Keyword.spelling] at h <;> rw [h.1] <;> decide
  | punct q => exact .inr (.inr ⟨q, rfl⟩)
  | eof => cases h

theorem Spells.head_ne_lineFeed {kind : TokenKind} {w : List Char} (h : Spells kind w) :
    ∀ d ∈ w.head?, d ≠ '\n' := by
  intro d hd
  obtain ⟨w', rfl⟩ : ∃ w', w = d :: w' := by
    cases w with
    | nil => cases hd
    | cons e w' => exact ⟨w', by cases hd; rfl⟩
  rcases spells_start h with hdigit | hword | ⟨q, rfl⟩
  · rintro rfl
    exact absurd hdigit (by decide)
  · rintro rfl
    exact absurd hword (by decide)
  · cases q <;> simp [Spells, Punct.spelling] at h <;> rw [h.1] <;> decide

theorem Offends.head_ne_lineFeed {cause : LexError.Cause} {after : List Char}
    (h : Offends cause after) : ∀ d ∈ after.head?, d ≠ '\n' := by
  intro d hd
  rw [Option.mem_def] at hd
  cases cause with
  | unexpectedChar c =>
    obtain ⟨hc, hblank, _⟩ := h
    rw [hc, Option.some.injEq] at hd
    subst hd
    rintro rfl
    exact absurd hblank (by decide)
  | noHexDigits =>
    obtain ⟨x, r, rfl, _⟩ := h
    cases hd
    decide
  | outOfRange digits =>
    rcases h with ⟨r, rfl, hne, hds, _⟩ | ⟨x, r, rfl, _⟩
    · obtain ⟨e, es, hes⟩ := List.exists_cons_of_ne_nil hne
      rw [hes, List.cons_append, List.head?_cons, Option.some.injEq] at hd
      have hdigit := hds d (by rw [hes, hd]; exact List.mem_cons_self)
      rintro rfl
      exact absurd hdigit (by decide)
    · cases hd
      decide
  | unterminatedComment =>
    obtain ⟨r, rfl, _⟩ := h
    cases hd
    decide

-- Trivia in front of a layout

theorem Scans.front {before t r : List Char} {res : Except LexError (List Token)}
    (h : Scans (before ++ t) r res) (ht : ∀ g, Trivia g → Trivia (t ++ g)) :
    Scans before (t ++ r) res := by
  cases h with
  | eof hg =>
    have h' : Scans before (t ++ r) _ := Scans.eof (by simpa using ht _ hg)
    simpa using h'
  | stop hg hoff =>
    have h' : Scans before _ _ := Scans.stop (ht _ hg) hoff
    simpa using h'
  | token hg hsp hw hrest =>
    have h' : Scans before _ _ := Scans.token (ht _ hg) hsp hw (by simpa using hrest)
    simpa using h'

theorem Scans.drop_lineFeed {before r : List Char} {res : Except LexError (List Token)}
    (h : Scans before ('\n' :: r) res) : Scans (before ++ ['\n']) r res := by
  generalize hx : '\n' :: r = x at h
  cases h with
  | eof hg =>
    subst hx
    have h' : Scans (before ++ ['\n']) r _ := Scans.eof (Trivia.of_lineFeed hg)
    simpa using h'
  | @stop _ gap after _ hg hoff =>
    cases gap with
    | nil =>
      rw [List.nil_append] at hx
      exact absurd rfl (hoff.head_ne_lineFeed '\n' (by rw [← hx]; rfl))
    | cons d g =>
      simp only [List.cons_append, List.cons.injEq] at hx
      obtain ⟨rfl, rfl⟩ := hx
      have h' : Scans (before ++ ['\n']) _ _ := Scans.stop (Trivia.of_lineFeed hg) hoff
      simpa using h'
  | @token _ gap w rest _ _ hg hsp hw hrest =>
    cases gap with
    | nil =>
      obtain ⟨d, w', rfl⟩ := List.exists_cons_of_ne_nil hw
      simp only [List.nil_append, List.cons_append, List.cons.injEq] at hx
      exact absurd hx.1.symm (hsp.head_ne_lineFeed d (by simp))
    | cons d g =>
      simp only [List.cons_append, List.cons.injEq] at hx
      obtain ⟨rfl, rfl⟩ := hx
      have h' : Scans (before ++ ['\n']) _ _ := Scans.token (Trivia.of_lineFeed hg) hsp hw
        (by simpa using hrest)
      simpa using h'

-- Runs and comments

theorem span_taken_all {f : Char → Bool} {cs : List Char} :
    ∀ d ∈ (Cut.span f cs).taken, f d = true :=
  fun _ hd => List.mem_takeWhile_imp hd

theorem span_rest_head {f : Char → Bool} {cs : List Char} :
    ∀ d ∈ (Cut.span f cs).rest.head?, f d = false := by
  intro d hd
  have hne : (Cut.span f cs).rest ≠ [] := by
    intro h
    simp [h] at hd
  have hstop := List.head_dropWhile_not f (l := cs) hne
  rw [List.head?_eq_some_head hne, Option.mem_some_iff] at hd
  simp only [Cut.span] at hd hstop
  rw [← hd]
  simpa using hstop

theorem lineComment_taken (cs : List Char) : '\n' ∉ (lineComment cs).taken := by
  intro h
  simpa using span_taken_all _ h

theorem lineComment_rest (cs : List Char) :
    (lineComment cs).rest = [] ∨ ∃ r, (lineComment cs).rest = '\n' :: r := by
  have hstop : ∀ d ∈ (lineComment cs).rest.head?, (d != '\n') = false := span_rest_head
  cases h : (lineComment cs).rest with
  | nil => exact .inl rfl
  | cons d r =>
    rw [h] at hstop
    have hd := hstop d rfl
    simp only [bne_eq_false_iff_eq] at hd
    exact .inr ⟨r, by rw [hd]⟩

theorem closeComment_some {cs : List Char} {k : Cut cs} (h : closeComment cs = some k) :
    ∃ body, k.taken = body ++ ['*', '/'] ∧ ¬ ['*', '/'] <:+: body := by
  fun_induction closeComment cs with
  | case1 r =>
    cases h
    exact ⟨[], rfl, by simp⟩
  | case2 c r hnot ih =>
    obtain ⟨k', hk', rfl⟩ := Option.map_eq_some_iff.1 h
    obtain ⟨body, hbody, hno⟩ := ih hk'
    refine ⟨c :: body, by simp [Cut.cons, hbody], ?_⟩
    rw [List.infix_cons_iff]
    rintro (hpre | hin)
    · -- a `*/` at the front would have closed the comment one step earlier
      obtain ⟨rest, hrest⟩ := hpre
      simp only [List.cons_append, List.cons.injEq] at hrest
      obtain ⟨rfl, hb⟩ := hrest
      have hr := k'.append_eq
      rw [hbody, ← hb] at hr
      exact hnot (rest ++ '*' :: '/' :: k'.rest) rfl (by simp [← hr])
    · exact hno hin
  | case3 => cases h

theorem closeComment_none {cs : List Char} (h : closeComment cs = none) :
    ¬ ['*', '/'] <:+: cs := by
  fun_induction closeComment cs with
  | case1 r => cases h
  | case2 c r hnot ih =>
    rw [List.infix_cons_iff]
    rintro (hpre | hin)
    · obtain ⟨rest, hrest⟩ := hpre
      simp only [List.cons_append, List.cons.injEq] at hrest
      obtain ⟨rfl, hr⟩ := hrest
      exact hnot _ rfl hr.symm
    · exact ih (Option.map_eq_none_iff.1 h) hin
  | case3 => simp

-- One token

theorem literal_ok {cs : List Char} {base : Nat} {digits : List Char} {k k' : Cut cs}
    {kind : TokenKind} (h : literal base digits k = .ok (kind, k')) :
    kind = .num (Nat.ofDigits base (digits.reverse.map digitValue) : Nat) ∧ k' = k := by
  rw [literal_eq] at h
  split at h
  · cases h
    exact ⟨by rw [numeralValue_eq_ofDigits], rfl⟩
  · cases h

theorem literal_error {cs : List Char} {base : Nat} {digits : List Char} {k : Cut cs}
    {cause : LexError.Cause} (h : literal base digits k = .error cause) :
    cause = .outOfRange (String.ofList digits) ∧
      maxLiteral < Nat.ofDigits base (digits.reverse.map digitValue) := by
  rw [literal_eq] at h
  split at h
  · cases h
  · next hv =>
    cases h
    exact ⟨rfl, by rw [← numeralValue_eq_ofDigits]; omega⟩

theorem hex_start {c : Char} {r : List Char} (hx : c = '0' ∧ ∃ x ∈ r.head?, x = 'x' ∨ x = 'X') :
    c = '0' ∧ ∃ x r', r = x :: r' ∧ (x = 'x' ∨ x = 'X') := by
  obtain ⟨rfl, x, hxm, hx⟩ := hx
  cases r with
  | nil => cases hxm
  | cons d r' =>
    cases hxm
    exact ⟨rfl, x, r', rfl, hx⟩

theorem number_spells {c : Char} {r : List Char} {kind : TokenKind} {k : Cut r}
    (hc : c.isDigit = true) (h : number c r = .ok (kind, k)) : Spells kind (c :: k.taken) := by
  by_cases hhex : c = '0' ∧ ∃ x ∈ r.head?, x = 'x' ∨ x = 'X'
  · obtain ⟨rfl, x, r', rfl, hx⟩ := hex_start hhex
    rw [number_hex hx] at h
    split at h
    · cases h
    · next hne =>
      obtain ⟨rfl, rfl⟩ := literal_ok h
      refine .inr ⟨x, _, rfl, hx, ?_, span_taken_all, rfl⟩
      simpa using hne
  · rw [number_of_not_hex hhex] at h
    obtain ⟨rfl, rfl⟩ := literal_ok h
    refine .inl ⟨List.cons_ne_nil _ _, ?_, rfl⟩
    intro d hd
    rcases List.mem_cons.1 hd with rfl | hd
    · exact hc
    · exact span_taken_all d hd

theorem word_spells {c : Char} {r : List Char} (hc : isWordStart c = true) :
    Spells (word c r).1 (c :: (word c r).2.taken) := by
  have hlex := @word_lexable c r hc
  unfold word at hlex ⊢
  dsimp only at hlex ⊢
  split
  · next kw hkw =>
    have hsp : kw.spelling = String.ofList (c :: (Cut.span isWordChar r).taken) := by
      simpa using List.find?_some hkw
    simp [Spells, hsp]
  · next hnone =>
    rw [hnone] at hlex
    exact ⟨by simp, hlex⟩

theorem withAssign_spells {single double : Punct} {c : Char} (r : List Char)
    (hs : single.spelling.toList = [c]) (hd : double.spelling.toList = [c, '=']) :
    Spells (withAssign single double r).1 (c :: (withAssign single double r).2.taken) := by
  unfold withAssign
  split
  · exact hd.symm
  · exact hs.symm

theorem lexeme_spells {c : Char} {r : List Char} {kind : TokenKind} {k : Cut r}
    (h : lexeme c r = .ok (kind, k)) : Spells kind (c :: k.taken) := by
  unfold lexeme at h
  split at h
  · next hc => exact number_spells hc h
  split at h
  · next hc =>
    obtain ⟨rfl, rfl⟩ := Prod.ext_iff.1 (Except.ok.inj h)
    exact word_spells hc
  -- the marks, each spelled by the characters read
  split at h <;> simp only [Except.ok.injEq, reduceCtorEq, Prod.ext_iff] at h
  all_goals obtain ⟨rfl, rfl⟩ := h
  all_goals first
    | exact withAssign_spells _ (by decide) (by decide)
    | rfl

theorem number_offends {c : Char} {r : List Char} {cause : LexError.Cause}
    (hc : c.isDigit = true) (h : number c r = .error cause) : Offends cause (c :: r) := by
  by_cases hhex : c = '0' ∧ ∃ x ∈ r.head?, x = 'x' ∨ x = 'X'
  · obtain ⟨rfl, x, r', rfl, hx⟩ := hex_start hhex
    rw [number_hex hx] at h
    split at h
    · next hnil =>
      cases h
      refine ⟨x, r', rfl, hx, fun d hd => ?_⟩
      have hr : (Cut.span isHexDigit r').rest = r' := by
        have hcut := (Cut.span isHexDigit r').append_eq
        rwa [List.isEmpty_iff.1 hnil, List.nil_append] at hcut
      exact span_rest_head d (hr ▸ hd)
    · obtain ⟨rfl, hv⟩ := literal_error h
      refine .inr ⟨x, (Cut.span isHexDigit r').rest, ?_, hx, ?_, span_rest_head, ?_⟩
      · simp [(Cut.span isHexDigit r').append_eq]
      · simpa using span_taken_all
      · simpa using hv
  · rw [number_of_not_hex hhex] at h
    obtain ⟨rfl, hv⟩ := literal_error h
    refine .inl ⟨(Cut.span Char.isDigit r).rest, ?_, by simp, ?_, span_rest_head,
      by simpa using hv⟩
    · simp [(Cut.span Char.isDigit r).append_eq]
    · intro d hd
      rw [String.toList_ofList] at hd
      rcases List.mem_cons.1 hd with rfl | hd
      · exact hc
      · exact span_taken_all d hd

theorem lexeme_offends {c : Char} {r : List Char} {cause : LexError.Cause}
    (hblank : isBlank c = false) (h : lexeme c r = .error cause) : Offends cause (c :: r) := by
  unfold lexeme at h
  split at h
  · next hc => exact number_offends hc h
  next hdigit =>
  split at h
  · cases h
  next hword =>
  split at h <;> cases h
  -- the character starts no literal, no word and none of the marks the match tried
  refine ⟨rfl, hblank, ?_⟩
  intro kind w hsp hw hpre
  obtain ⟨d, w', rfl⟩ := List.exists_cons_of_ne_nil hw
  obtain ⟨rfl, t, rfl⟩ := List.cons_prefix_cons.1 hpre
  rcases spells_start hsp with hd | hd | ⟨q, rfl⟩
  · exact hdigit hd
  · exact hword hd
  · cases q <;> simp [Spells, Punct.spelling] at hsp <;> obtain ⟨rfl, rfl⟩ := hsp <;> simp_all

-- The whole run

theorem scanFrom_scans {p : Pos} {cs : List Char} {acc : Array Token} {before : List Char}
    (hp : p = placeAfter before) :
    ∃ res, Scans before cs res ∧
      (scanFrom p cs acc).map Array.toList = res.map (acc.toList ++ ·) := by
  -- along the scanner's own recursion, with the text read so far growing by each step
  fun_induction scanFrom p cs acc generalizing before with
  | case1 p acc =>
    refine ⟨.ok [⟨.eof, p⟩], ?_, by simp [Except.map]⟩
    have h : Scans before [] _ := Scans.eof (.blank rfl .nil)
    simpa [hp] using h
  | case2 p acc c r hc ih =>
    obtain ⟨res, hs, heq⟩ := @ih (before ++ [c]) (by simp [placeAfter_append, hp])
    exact ⟨res, Scans.front (t := [c]) hs (fun _ hg => .blank hc hg), heq⟩
  | case3 p acc r' _ _ ih =>
    -- a line comment: up to the end of the text, or up to a line feed that is a blank
    have htaken := lineComment_taken r'
    have hrest := lineComment_rest r'
    generalize lineComment r' = k at *
    obtain ⟨taken, rest, rfl⟩ := k
    dsimp only at *
    rcases hrest with rfl | ⟨r'', rfl⟩
    · refine ⟨.ok [⟨.eof, placeAfter (before ++ '/' :: '/' :: taken)⟩], ?_, ?_⟩
      · have h : Scans before ('/' :: '/' :: taken) _ :=
          Scans.eof (by simpa using Trivia.lineComment htaken .nil)
        simpa using h
      · rw [scanFrom.eq_1]
        simp [Except.map, placeAfter_append, hp]
    · obtain ⟨res, hs, heq⟩ :=
        @ih (before ++ '/' :: '/' :: taken) (by simp [placeAfter_append, hp])
      refine ⟨res, ?_, heq⟩
      have h := Scans.front (t := '/' :: '/' :: (taken ++ ['\n']))
        (by simpa using hs.drop_lineFeed)
        (fun _ hg => by simpa using Trivia.lineComment htaken hg)
      simpa using h
  | case4 p acc r' hnone _ =>
    refine ⟨.error ⟨.unterminatedComment, p⟩, ?_, rfl⟩
    have h : Scans before ([] ++ '/' :: '*' :: r')
        (.error ⟨.unterminatedComment, placeAfter (before ++ [])⟩) :=
      Scans.stop .nil ⟨r', rfl, closeComment_none hnone⟩
    simpa [hp] using h
  | case5 p acc r' k hk _ _ ih =>
    obtain ⟨body, hbody, hno⟩ := closeComment_some hk
    obtain ⟨res, hs, heq⟩ :=
      @ih (before ++ '/' :: '*' :: k.taken) (by simp [placeAfter_append, hp])
    refine ⟨res, ?_, heq⟩
    have h := Scans.front (t := '/' :: '*' :: k.taken) hs
      (fun _ hg => by simpa [hbody] using Trivia.blockComment hno hg)
    obtain ⟨taken, rest, rfl⟩ := k
    simpa using h
  | case6 p acc c r _ _ cause hlex hc =>
    refine ⟨.error ⟨cause, p⟩, ?_, rfl⟩
    have h : Scans before ([] ++ c :: r) _ :=
      Scans.stop .nil (lexeme_offends (by simpa using hc) hlex)
    simpa [hp] using h
  | case7 p acc c r _ _ kind k hlex _ _ ih =>
    obtain ⟨res, hs, heq⟩ := @ih (before ++ c :: k.taken) (by simp [placeAfter_append, hp])
    refine ⟨res.map (⟨kind, p⟩ :: ·), ?_, ?_⟩
    · have h : Scans before ([] ++ (c :: k.taken) ++ k.rest) _ :=
        Scans.token .nil (lexeme_spells hlex) (List.cons_ne_nil _ _) (by simpa using hs)
      obtain ⟨taken, rest, rfl⟩ := k
      simpa [hp] using h
    · rw [heq]
      cases res <;> simp [Except.map]

end Lexer

open Lexer in
theorem scan_layout (s : String) : Scans [] s.toList (Token.scan s) := by
  obtain ⟨res, hs, heq⟩ :=
    @scanFrom_scans Pos.start s.toList #[] [] rfl
  unfold Token.scan
  rw [heq]
  cases res <;> simpa [Except.map] using hs

end ScopedC

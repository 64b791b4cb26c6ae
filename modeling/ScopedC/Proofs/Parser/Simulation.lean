import ScopedC.Proofs.Parser.Depth
namespace ScopedC

namespace Parser

variable {toks : Array Token} {cut : List Token} {stop : Pos} {p : Parser} {α β γ δ ε ζ : Type}

-- The vector holds the tokens `cut`, none of them the end of the input, and then the
-- end-of-input token at `stop`; what follows it is never read.
structure Layout (toks : Array Token) (cut : List Token) (stop : Pos) : Prop where
  body : ∀ i < cut.length, toks[i]? = cut[i]?
  eof : toks[cut.length]? = some ⟨.eof, stop⟩
  noEof : ∀ t ∈ cut, t.kind ≠ .eof

-- The parser `p` stands where the list parse does: before the unread tokens `ts`, in state `s`,
-- at nesting depth `d`.
structure At (cut : List Token) (p : Parser) (d : Nat) (s : ParseState) (ts : List Token) :
    Prop where
  within : p.position ≤ cut.length
  depth : p.depth = d
  state : p.state = s
  rest : cut.drop p.position = ts

-- A value and the parser after it, against a value, the state and the unread tokens after it.
structure Meets (cut : List Token) (a : α × Parser) (b : α × ParseState × List Token) :
    Prop where
  value : a.1 = b.1
  state : a.2.state = b.2.1
  within : a.2.position ≤ cut.length
  rest : cut.drop a.2.position = b.2.2

-- A step of the parser and a step of the list parse agree: both succeed with values that meet,
-- or both fail with one error and one state, the parser not past the end of input.
def Agrees (cut : List Token) (out : β → α × Parser) (out' : γ → α × ParseState × List Token) :
    Except Fault β → Except Failure γ → Prop
  | .ok b, .ok c => Meets cut (out b) (out' c)
  | .error f, .error e => f.error = e.error ∧ f.parser.state = e.state ∧
      f.parser.position ≤ cut.length
  | _, _ => False

def Ahead.out {i : Nat} (r : Ahead toks i α) : α × Parser := (r.value, r.parser)

def Along.out {i : Nat} (r : Along toks i α) : α × Parser := (r.value, r.parser)

def named {ts : List Token} (s : ParseState) (r : α × Shorter ts) : α × ParseState × List Token :=
  (r.1, s, r.2.val)

theorem At.meets {q : Parser} {d : Nat} {v : α} {c : α × ParseState × List Token}
    (hm : Meets cut (v, q) c) (hd : q.depth = d) : At cut q d c.2.1 c.2.2 :=
  ⟨hm.within, hd, hm.state, hm.rest⟩

section Agreement

variable {out : β → α × Parser} {out' : γ → α × ParseState × List Token}
  {o : δ → ε × Parser} {o' : ζ → ε × ParseState × List Token}

theorem Agrees.fail {f : Fault} {e : Failure} (he : f.error = e.error)
    (hs : f.parser.state = e.state) (hw : f.parser.position ≤ cut.length) :
    Agrees cut out out' (.error f) (.error e) :=
  ⟨he, hs, hw⟩

theorem Agrees.pure {b : β} {c : γ} (hm : Meets cut (out b) (out' c)) :
    Agrees cut out out' (Pure.pure b) (Pure.pure c) :=
  hm

theorem Agrees.bind {x : Except Fault β} {y : Except Failure γ} (hxy : Agrees cut out out' x y)
    {k : β → Except Fault δ} {k' : γ → Except Failure ζ}
    (hk : ∀ b c, x = .ok b → y = .ok c → Meets cut (out b) (out' c) →
      Agrees cut o o' (k b) (k' c)) :
    Agrees cut o o' (x >>= k) (y >>= k') := by
  cases x with
  | error f =>
    cases y with
    | error e => exact hxy
    | ok c => exact hxy.elim
  | ok b =>
    cases y with
    | error e => exact hxy.elim
    | ok c => exact hk b c rfl rfl hxy

-- A step that agrees and keeps the depth at `d`, then continuations that agree from where the two
-- steps left off.
theorem Agrees.bind_at {x : Except Fault β} {y : Except Failure γ} {d : Nat}
    (hxy : Agrees cut out out' x y) (hd : (leaves (fun b => (out b).2) x).depth = d)
    {k : β → Except Fault δ} {k' : γ → Except Failure ζ}
    (hk : ∀ b c, At cut (out b).2 d (out' c).2.1 (out' c).2.2 → (out b).1 = (out' c).1 →
      Agrees cut o o' (k b) (k' c)) :
    Agrees cut o o' (x >>= k) (y >>= k') := by
  refine hxy.bind fun b c hb _ hm => hk b c ⟨hm.within, ?_, hm.state, hm.rest⟩ hm.value
  subst hb
  exact hd

-- A list step's result relabelled without changing its parts.
theorem Agrees.map_right {x : Except Fault β} {y : Except Failure γ} {g : γ → ζ}
    {o' : ζ → α × ParseState × List Token} (hxy : Agrees cut out out' x y)
    (hg : ∀ c, o' (g c) = out' c) : Agrees cut out o' x (y.map g) := by
  cases x with
  | error f =>
    cases y with
    | error e => exact hxy
    | ok c => exact hxy.elim
  | ok b =>
    cases y with
    | error e => exact hxy.elim
    | ok c =>
      show Meets cut (out b) (o' (g c))
      rw [hg]
      exact hxy

-- A parser step's result repacked without changing its parts.
theorem Agrees.repack {x : Except Fault β} {y : Except Failure γ} {g : β → δ}
    {o : δ → α × Parser} (hxy : Agrees cut out out' x y) (hg : ∀ b, o (g b) = out b) :
    Agrees cut o out' (x >>= fun b => Pure.pure (g b)) y := by
  cases x with
  | error f =>
    cases y with
    | error e => exact hxy
    | ok c => exact hxy.elim
  | ok b =>
    cases y with
    | error e => exact hxy.elim
    | ok c =>
      show Meets cut (o (g b)) (out' c)
      rw [hg]
      exact hxy

theorem bind_map {x : Except Failure β} {f : β → Except Failure γ} {g : γ → δ} :
    (x >>= fun a => (f a).map g) = (x >>= f).map g := by
  cases x <;> rfl

theorem At.withState {q : Parser} {d : Nat} {s : ParseState} {ts : List Token}
    (h : At cut q d s ts) (s' : ParseState) : At cut (q.withState s') d s' ts :=
  ⟨h.within, h.depth, rfl, h.rest⟩

theorem At.deeper {q : Parser} {d : Nat} {s : ParseState} {ts : List Token}
    (h : At cut q d s ts) : At cut q.deeper (d + 1) s ts :=
  ⟨h.within, by simp [h.depth], h.state, h.rest⟩

theorem Meets.of_at {q : Parser} {d : Nat} {s : ParseState} {ts : List Token}
    (h : At cut q d s ts) (v : α) : Meets cut (v, q) (v, s, ts) :=
  ⟨rfl, h.state, h.within, h.rest⟩

theorem Meets.withDepth {v : α} {q : Parser} {c : α × ParseState × List Token}
    (hm : Meets cut (v, q) c) (f : Nat → Nat) : Meets cut (v, q.withDepth f) c :=
  ⟨hm.value, hm.state, hm.within, hm.rest⟩

theorem Agrees.leaves_within {x : Except Fault β} {y : Except Failure γ}
    (hxy : Agrees cut out out' x y) : (leaves (fun b => (out b).2) x).position ≤ cut.length := by
  cases x with
  | error f =>
    cases y with
    | error e => exact hxy.2.2
    | ok c => exact hxy.elim
  | ok b =>
    cases y with
    | error e => exact hxy.elim
    | ok c => exact hxy.within

theorem At.of_within (hp : p.position ≤ cut.length) :
    At cut p p.depth p.state (cut.drop p.position) :=
  ⟨hp, rfl, rfl, rfl⟩

end Agreement

def Shorter.parts {ts : List Token} (s : ParseState) (r : Shorter ts) :
    Unit × ParseState × List Token :=
  ((), s, r.val)

theorem readType?_of_not_type {k : TokenKind} {pos : Pos} {r : List Token}
    (hi : k ≠ .keyword .intKw) (hv : k ≠ .keyword .voidKw) (hc : k ≠ .keyword .constKw) :
    Parse.readType? (⟨k, pos⟩ :: r) = none := by
  rcases k with v | name | kw | q | _
  · rfl
  · rfl
  · cases kw
    case intKw => exact absurd rfl hi
    case voidKw => exact absurd rfl hv
    case constKw => exact absurd rfl hc
    all_goals rfl
  · rfl
  · rfl

-- `const` reads an `int` after it only when one follows.
theorem readType?_const {pos : Pos} {r : List Token}
    (hr : (Parse.peek stop r).kind ≠ .keyword .intKw) :
    Parse.readType? (⟨.keyword .constKw, pos⟩ :: r) = some (.const, ⟨r, Nat.lt_succ_self _⟩) := by
  rcases r with _ | ⟨⟨k, q⟩, r⟩
  · rfl
  rcases k with v | name | kw | q | _
  · rfl
  · rfl
  · cases kw
    case intKw => exact absurd rfl hr
    all_goals rfl
  · rfl
  · rfl

section Reading

variable (lay : Layout toks cut stop) {d : Nat} {s : ParseState} {ts : List Token}
include lay

theorem Layout.peek_eq (hp : p.position ≤ cut.length) :
    peek toks p = Parse.peek stop (cut.drop p.position) := by
  unfold peek
  rcases Nat.lt_or_eq_of_le hp with hlt | heq
  · have h := lay.body _ hlt
    rw [List.getElem?_eq_getElem hlt] at h
    rw [getElem!_def, h, List.drop_eq_getElem_cons hlt]
    rfl
  · rw [getElem!_def, heq, lay.eof, List.drop_length]
    rfl

theorem Layout.peek_at (h : At cut p d s ts) : peek toks p = Parse.peek stop ts :=
  h.rest ▸ lay.peek_eq h.within

theorem Layout.peek_ne_eof (hlt : p.position < cut.length) : (peek toks p).kind ≠ .eof := by
  rw [lay.peek_eq (Nat.le_of_lt hlt), List.drop_eq_getElem_cons hlt]
  exact lay.noEof _ (List.getElem_mem hlt)

theorem Layout.peek_eof (heq : p.position = cut.length) : (peek toks p).kind = .eof := by
  rw [lay.peek_eq (Nat.le_of_eq heq), heq, List.drop_length]
  rfl

theorem Layout.advance_at (h : At cut p d s ts) : At cut (advance toks p) d s ts.tail := by
  obtain ⟨hp, hd, hs, rfl⟩ := h
  rcases Nat.lt_or_eq_of_le hp with hlt | heq
  · -- a token before the end: the parser moves onto the next one
    rw [advance_of_ne_eof (lay.peek_ne_eof hlt)]
    exact ⟨hlt, hd, hs, List.tail_drop.symm⟩
  · -- at the end it stays
    have hstay : advance toks p = p := by simp [advance, atEnd, lay.peek_eof heq]
    rw [hstay, heq, List.drop_length]
    exact ⟨hp, hd, hs, by rw [heq, List.drop_length]; rfl⟩

-- The first end-of-input token of the vector is the one right after the layout's tokens.
theorem Layout.first_eof :
    toks[cut.length]?.map (·.kind) = some .eof ∧
      ∀ i < cut.length, toks[i]?.map (·.kind) ≠ some .eof := by
  refine ⟨by rw [lay.eof]; rfl, fun i hi => ?_⟩
  rw [lay.body i hi, List.getElem?_eq_getElem hi]
  simpa using lay.noEof _ (List.getElem_mem hi)

theorem Layout.position_lt_size (hp : p.position ≤ cut.length) : p.position < toks.size :=
  Nat.lt_of_le_of_lt hp (Array.getElem?_eq_some_iff.1 lay.eof).1

-- Reading one past a token that is not the end of input reads at most the end of input.
theorem Layout.ahead_within (hp : p.position ≤ cut.length) (hk : (peek toks p).kind ≠ .eof) :
    p.position + 1 ≤ cut.length := by
  rcases Nat.lt_or_eq_of_le hp with hlt | heq
  · exact hlt
  · exact absurd (lay.peek_eof heq) hk

theorem Layout.head_ne_eof {t : Token} {r : List Token} (h : At cut p d s (t :: r)) :
    t.kind ≠ .eof :=
  lay.noEof t (List.mem_of_mem_drop (h.rest ▸ List.mem_cons_self))

theorem Layout.getElem?_at (h : At cut p d s ts) : toks[p.position]? = some (Parse.peek stop ts) := by
  obtain ⟨hp, -, -, rfl⟩ := h
  rcases Nat.lt_or_eq_of_le hp with hlt | heq
  · rw [lay.body _ hlt, List.getElem?_eq_getElem hlt, List.drop_eq_getElem_cons hlt]
    rfl
  · rw [heq, lay.eof, List.drop_length]
    rfl

-- The token after the next one, which the assignment test reads, is at most the end of input.
theorem Layout.peekAhead_at {t : Token} {r : List Token} (h : At cut p d s (t :: r)) :
    (peekAhead toks p 1).map (·.kind) = some (Parse.peek stop r).kind := by
  have hpos : (advance toks p).position = p.position + 1 := by
    rw [advance_of_ne_eof (by rw [lay.peek_at h]; exact lay.head_ne_eof h)]
  unfold peekAhead
  rw [← hpos, lay.getElem?_at (lay.advance_at h)]
  rfl

theorem syntaxError_agrees {out : β → α × Parser} {out' : γ → α × ParseState × List Token}
    (h : At cut p d s ts) (e : SyntaxError) :
    Agrees cut out out' (.error (syntaxError toks p e)) (.error (Parse.failAt stop s ts e)) :=
  .fail (by simp [syntaxError, Parse.failAt, lay.peek_at h]) h.state h.within

theorem unexpected_agrees {out : β → α × Parser} {out' : γ → α × ParseState × List Token}
    (h : At cut p d s ts) (w : Wanted) :
    Agrees cut out out' (.error (unexpected toks p w)) (.error (Parse.unexpected stop s ts w)) := by
  unfold unexpected Parse.unexpected
  rw [lay.peek_at h]
  exact syntaxError_agrees lay h _

theorem expect_agrees (h : At cut p d s ts) (k : Punct) (site : Site) :
    Agrees cut Ahead.out (Shorter.parts s) (expect toks p k site)
      (Parse.expect stop s k site ts) := by
  unfold expect
  have hpk := lay.peek_at h
  cases ts with
  | nil =>
    rw [dif_neg (by rw [hpk]; simp [Parse.peek])]
    exact unexpected_agrees lay h _
  | cons t r =>
    by_cases hk : t.kind = .punct k
    · rw [dif_pos (by rw [hpk]; exact hk)]
      simp only [Parse.expect, if_pos hk]
      exact Meets.of_at (lay.advance_at h) ()
    · rw [dif_neg (by rw [hpk]; exact hk)]
      simp only [Parse.expect, if_neg hk]
      exact unexpected_agrees lay h _

theorem expectIdent_agrees (h : At cut p d s ts) :
    Agrees cut Ahead.out (named s) (expectIdent toks p) (Parse.expectIdent stop s ts) := by
  unfold expectIdent
  have hpk := lay.peek_at h
  split
  · rename_i name hk
    rw [hpk] at hk
    cases ts with
    | nil => cases hk
    | cons t r =>
      obtain ⟨k, pos⟩ := t
      cases hk
      exact Meets.of_at (lay.advance_at h) name
  · rename_i hne
    rw [hpk] at hne
    unfold Parse.expectIdent
    split
    · rename_i name pos r
      exact (hne name rfl).elim
    · exact unexpected_agrees lay h _

theorem type_agrees (h : At cut p d s ts) :
    Agrees cut Ahead.out (named s) (type toks p) (Parse.type stop s ts) := by
  unfold type Parse.type
  have hpk := lay.peek_at h
  split
  next hk =>
    rw [hpk] at hk
    rcases ts with _ | ⟨⟨k, pos⟩, r⟩
    · cases hk
    cases hk
    exact Meets.of_at (lay.advance_at h) Ty.int
  next hk =>
    rw [hpk] at hk
    rcases ts with _ | ⟨⟨k, pos⟩, r⟩
    · cases hk
    cases hk
    exact Meets.of_at (lay.advance_at h) Ty.void
  next hk =>
    rw [hpk] at hk
    rcases ts with _ | ⟨⟨k, pos⟩, r⟩
    · cases hk
    cases hk
    have h1 := lay.advance_at h
    have hpk1 := lay.peek_at h1
    split
    next hi =>
      rw [hpk1] at hi
      rcases r with _ | ⟨⟨k', pos'⟩, r'⟩
      · cases hi
      cases hi
      exact Meets.of_at (lay.advance_at h1) Ty.const
    next hi =>
      rw [hpk1] at hi
      rw [readType?_const (r := r) hi]
      exact Meets.of_at h1 Ty.const
  next hi hv hc =>
    rw [hpk] at hi hv hc
    rcases ts with _ | ⟨⟨k, pos⟩, r⟩
    · exact unexpected_agrees lay h _
    rw [readType?_of_not_type (k := k) hi hv hc]
    exact unexpected_agrees lay h _

theorem isFunctionDefinition_agrees (h : At cut p d s ts) :
    (isFunctionDefinition toks p).1 = Parse.startsFunction ts := by
  unfold isFunctionDefinition functionHead Parse.startsFunction
  have ht := type_agrees lay h
  unfold Parse.type at ht
  dsimp only
  cases hty : type toks p with
  | error f =>
    rw [hty] at ht
    cases hr : Parse.readType? ts with
    | none => rfl
    | some r =>
      rw [hr] at ht
      exact ht.elim
  | ok t =>
    rw [hty] at ht
    cases hr : Parse.readType? ts with
    | none =>
      rw [hr] at ht
      exact ht.elim
    | some r =>
      rw [hr] at ht
      obtain ⟨ty, r, hrl⟩ := r
      have h1 : At cut t.parser t.parser.depth s r := At.meets ht rfl
      dsimp only
      -- after the type, a name and then `(`
      have hi := expectIdent_agrees lay h1
      cases hid : expectIdent toks t.parser with
      | error f =>
        rw [hid] at hi
        unfold Parse.expectIdent at hi
        split at hi
        · exact hi.elim
        · rename_i hne
          dsimp only
          split
          · rename_i name a _ _
            exact (hne name a _ rfl).elim
          · rfl
      | ok n =>
        rw [hid] at hi
        unfold Parse.expectIdent at hi
        split at hi
        · rename_i name q rest
          have h2 : At cut n.parser n.parser.depth s rest := At.meets hi rfl
          have hpk := lay.peek_at h2
          dsimp only
          unfold check
          rw [hpk]
          rcases rest with _ | ⟨⟨k, pos⟩, rest⟩
          · rfl
          · rcases k with v | name | kw | q | _
            · rfl
            · rfl
            · rfl
            · cases q <;> rfl
            · rfl
        · exact hi.elim

end Reading

theorem At.restored {d : Nat} {s : ParseState} {ts : List Token} (h : At cut p d s ts) :
    At cut (isFunctionDefinition toks p).2 d s ts := by
  rw [isFunctionDefinition_restores]
  exact h

section State

variable {q : Parser} {d : Nat} {s : ParseState} {r : List Token}

theorem resolve_agrees (h : At cut q d s r) (name : String) (pos : Pos) (ts : List Token) :
    Agrees cut (fun e => (e, q)) (fun e => (e, s, r)) (q.resolve name pos)
      (s.resolve name pos ts) := by
  unfold resolve ParseState.resolve
  rw [h.state]
  split
  · exact Meets.of_at h _
  · exact .fail rfl h.state h.within

theorem exitScope_agrees (h : At cut q d s r) (ts : List Token) :
    Agrees cut (fun s' => (s', q)) (fun s' => (s', s, r)) q.exitScope (s.exit ts) := by
  unfold exitScope ParseState.exit
  rw [h.state]
  split
  · exact Meets.of_at h _
  · exact .fail rfl h.state h.within

end State

theorem lift_bind_limited {x : Except Fault β} {k : β → Except Fault γ} :
    Runner.limited.lift x >>= k = x >>= k := by
  rw [lift_limited]

-- Below the limit a nesting level is taken and given back around a body; the result agrees as
-- the body's does.
theorem nested_pass {ts : List Token} {body : Except Fault (Ahead toks p.position α)}
    {y : Except Failure (Step ts α)} (hd : p.depth < nestingLimit)
    (hb : Agrees cut Ahead.out Step.parts body y) :
    Agrees cut Ahead.out Step.parts (nested .limited toks p body) y := by
  unfold nested
  simp only [level_limited, if_pos hd, unwind_limited]
  cases body with
  | error f =>
    cases y with
    | error e => exact hb
    | ok c => exact hb.elim
  | ok b =>
    cases y with
    | error e => exact hb.elim
    | ok c => exact Meets.withDepth hb (· - 1)

theorem nested_refuse (lay : Layout toks cut stop) {d : Nat} {s : ParseState} {ts : List Token}
    (h : At cut p d s ts) {body : Except Fault (Ahead toks p.position α)}
    (hd : ¬ d < nestingLimit) :
    Agrees cut Ahead.out Step.parts (nested .limited toks p body)
      (.error (Parse.failAt stop s ts .tooDeep) : Except Failure (Step ts α)) := by
  unfold nested
  simp only [level_limited, h.depth, if_neg hd]
  exact syntaxError_agrees lay h _

-- A nesting level taken and given back around a body that agrees, or refused at the limit as
-- the list parse refuses it.
theorem nested_agrees (lay : Layout toks cut stop) {d : Nat} {s : ParseState} {ts : List Token}
    (h : At cut p d s ts) {body : Except Fault (Ahead toks p.position α)}
    {y : Except Failure (Step ts α)}
    (hb : d < nestingLimit → Agrees cut Ahead.out Step.parts body y) :
    Agrees cut Ahead.out Step.parts (nested .limited toks p body)
      (if d < nestingLimit then y else .error (Parse.failAt stop s ts .tooDeep)) := by
  by_cases hd : d < nestingLimit
  · rw [if_pos hd]
    exact nested_pass (h.depth ▸ hd) (hb hd)
  · rw [if_neg hd]
    exact nested_refuse lay h hd

theorem restoring_agrees {x : Except Fault (Ahead toks p.position α)} {ts : List Token}
    {y : Except Failure (Step ts α)} (hxy : Agrees cut Ahead.out Step.parts x y) :
    Agrees cut Ahead.out Step.parts (restoring .limited toks p x) y := by
  cases x with
  | error f =>
    cases y with
    | error e => exact hxy
    | ok c => exact hxy.elim
  | ok b =>
    cases y with
    | error e => exact hxy.elim
    | ok c => exact Meets.withDepth hxy fun _ => p.depth

theorem deeper_pass {d : Nat} {s : ParseState} {ts : List Token} (hd : d < nestingLimit) :
    Parse.deeper stop d s ts = pure (d + 1) := by
  simp [Parse.deeper, hd]
  rfl

theorem deeper_refuse {d : Nat} {s : ParseState} {ts : List Token} (hd : ¬ d < nestingLimit) :
    Parse.deeper stop d s ts = .error (Parse.failAt stop s ts .tooDeep) := by
  simp [Parse.deeper, hd]

theorem deeper_bind_bind {d : Nat} {s : ParseState} {ts : List Token} (g : Nat → Except Failure β)
    (k : β → Except Failure γ) :
    (Parse.deeper stop d s ts >>= fun depth => g depth >>= k) =
      (if d < nestingLimit then g (d + 1) else .error (Parse.failAt stop s ts .tooDeep)) >>= k := by
  unfold Parse.deeper
  split <;> rfl

theorem depth_of_ok {x : Except Fault β} {g : β → Parser} {n : Nat} {b : β}
    (hx : (leaves g x).depth = n) (h : x = .ok b) : (g b).depth = n := by
  subst h
  exact hx

theorem deeper_bind {d : Nat} {s : ParseState} {ts : List Token} (g : Nat → Except Failure β) :
    Parse.deeper stop d s ts >>= g =
      if d < nestingLimit then g (d + 1) else .error (Parse.failAt stop s ts .tooDeep) := by
  unfold Parse.deeper
  split <;> rfl

-- Every expression parser agrees with the list parse from wherever the two stand together.
structure ExprAgrees (toks : Array Token) (cut : List Token) (stop : Pos) (p : Parser) : Prop where
  expression {d : Nat} {s : ParseState} {ts : List Token} : At cut p d s ts →
    Agrees cut Ahead.out Step.parts (expression .limited toks p) (Parse.expression stop d s ts)
  chain (lvl : Parse.Level) {d : Nat} {s : ParseState} {ts : List Token} : At cut p d s ts →
    Agrees cut Ahead.out Step.parts (chain .limited toks lvl p) (Parse.chain stop d lvl s ts)
  links (lvl : Parse.Level) (left : Expr) {d : Nat} {s : ParseState} {ts : List Token} :
    At cut p d s ts → Agrees cut Along.out Steps.parts (links .limited toks lvl left p)
      (Parse.links stop d lvl left s ts)
  unary {d : Nat} {s : ParseState} {ts : List Token} : At cut p d s ts →
    Agrees cut Ahead.out Step.parts (unary .limited toks p) (Parse.unary stop d s ts)
  call (name : String) (loc : Pos) (ts' : List Token) {d : Nat} {s : ParseState}
    {ts : List Token} : At cut p d s ts →
    Agrees cut Ahead.out Step.parts (call .limited toks name loc p)
      (s.resolve name loc ts' >>= fun callee => Parse.call stop d callee s ts)
  arguments {d : Nat} {s : ParseState} {ts : List Token} : At cut p d s ts →
    Agrees cut Ahead.out Step.parts (arguments .limited toks p) (Parse.arguments stop d s ts)

-- An operand is a chain of the next tighter level, or a prefix expression below the tightest.
theorem operand_agrees_of {q : Parser} (lvl : Parse.Level) {d : Nat} {s : ParseState}
    {ts : List Token}
    (hc : ∀ l, lvl.tighter? = some l →
      Agrees cut Ahead.out Step.parts (chain .limited toks l q) (Parse.chain stop d l s ts))
    (hu : Agrees cut Ahead.out Step.parts (unary .limited toks q) (Parse.unary stop d s ts)) :
    Agrees cut Ahead.out Step.parts (operand .limited toks lvl q)
      (Parse.operand stop d lvl s ts) := by
  rw [operand.eq_def, Parse.operand.eq_def]
  cases lvl
  · exact hc _ rfl
  · exact hc _ rfl
  · exact hc _ rfl
  · exact hc _ rfl
  · exact hu

section Expressions

variable (lay : Layout toks cut stop)
  (ih : ∀ q, toks.size - q.position < toks.size - p.position → ExprAgrees toks cut stop q)
  {d : Nat} {s : ParseState} {ts : List Token}
include lay ih

theorem primary_agrees (h : At cut p d s ts) :
    Agrees cut Ahead.out Step.parts (primary .limited toks p) (Parse.primary stop d s ts) := by
  obtain ⟨-, rfl, rfl, -⟩ := id h
  rw [Parse.primary.eq_def]
  split
  next v pos r =>
    have hpk : peek toks p = ⟨.num v, pos⟩ := lay.peek_at h
    rw [primary.eq_def]
    dsimp only
    rw [dif_neg (by rw [hpk]; simp)]
    simp only [hpk]
    exact .pure (Meets.of_at ((lay.advance_at h).withState _) _)
  next name pos q r =>
    -- a call: the callee is resolved, then its arguments are read
    have hpk : peek toks p = ⟨.ident name, pos⟩ := lay.peek_at h
    have h1 := lay.advance_at h
    have hpk1 : peek toks (advance toks p) = ⟨.punct .lparen, q⟩ := lay.peek_at h1
    have h2 := lay.advance_at h1
    have ha : toks.size - (advance toks (advance toks p)).position < toks.size - p.position :=
      Nat.lt_trans (advance_ahead (by simp [hpk1])) (advance_ahead (by simp [hpk]))
    rw [primary.eq_def]
    dsimp only
    rw [dif_neg (by rw [hpk]; simp)]
    simp only [hpk]
    rw [dif_pos (by rw [hpk1]), ← bind_assoc]
    refine ((ih _ ha).call name pos _ h2).bind_at
      (((exprKeeps toks _).call name pos).trans (advance_depth.trans advance_depth))
      fun b c hat hv => ?_
    exact .pure ⟨hv, hat.state, hat.within, hat.rest⟩
  next name pos r hr =>
    have hpk : peek toks p = ⟨.ident name, pos⟩ := lay.peek_at h
    have h1 := lay.advance_at h
    have hpk1 := lay.peek_at h1
    rw [primary.eq_def]
    dsimp only
    rw [dif_neg (by rw [hpk]; simp)]
    simp only [hpk, advance_state, lift_limited]
    rw [dif_neg (fun hc => by
      rw [hpk1] at hc
      rcases r with _ | ⟨⟨k, q⟩, r⟩
      · cases hc
      · cases hc
        exact hr q r rfl)]
    refine (resolve_agrees h1 name pos _).bind_at ((resolve_leaves name pos).trans advance_depth)
      fun e e' hat hv => ?_
    obtain rfl : e = e' := hv
    exact .pure (Meets.of_at (h1.withState _) _)
  next pos r =>
    have hpk : peek toks p = ⟨.punct .lparen, pos⟩ := lay.peek_at h
    have h1 := lay.advance_at h
    rw [primary.eq_def]
    dsimp only
    rw [dif_neg (by rw [hpk]; simp)]
    simp only [hpk, lift_limited]
    refine ((ih _ (advance_ahead (by simp [hpk]))).expression h1).bind_at
      ((expression_leaves toks _).trans advance_depth) fun b c hat hv => ?_
    refine (expect_agrees lay hat _ _).bind_at (expect_leaves toks _ _) fun b' c' hat' _ => ?_
    exact .pure ⟨hv, hat'.state, hat'.within, hat'.rest⟩
  next hnum _ hname hparen =>
    rw [primary.eq_def]
    dsimp only
    rcases ts with _ | ⟨⟨k, pos⟩, r⟩
    · rw [dif_pos (by rw [lay.peek_at h]; rfl)]
      exact unexpected_agrees lay h _
    have hpk : peek toks p = ⟨k, pos⟩ := lay.peek_at h
    rw [dif_neg (by rw [hpk]; exact lay.head_ne_eof h)]
    simp only [hpk]
    split
    · exact (hparen pos r rfl).elim
    · exact (hnum _ pos r rfl).elim
    · exact (hname _ pos r rfl).elim
    · exact unexpected_agrees lay h _

theorem unary_agrees (h : At cut p d s ts) :
    Agrees cut Ahead.out Step.parts (unary .limited toks p) (Parse.unary stop d s ts) := by
  obtain ⟨-, rfl, rfl, -⟩ := id h
  rw [unary.eq_def]
  split
  next op hop =>
    rcases ts with _ | ⟨t, r⟩
    · rw [lay.peek_at h] at hop
      cases hop
    have hpk : peek toks p = t := lay.peek_at h
    have h1 := lay.advance_at h
    have ha : toks.size - (advance toks p).deeper.position < toks.size - p.position :=
      advance_ahead (prefixOp?_ne_eof hop)
    rw [hpk] at hop
    rw [Parse.unary.eq_def]
    dsimp only
    rw [hop]
    dsimp only
    rw [deeper_bind_bind]
    -- the operand one level deeper, given back after it
    refine (nested_agrees lay h1 fun _ => (ih _ ha).unary h1.deeper).bind_at
      ((leaves_nested (p := advance toks p) ((exprKeeps toks (advance toks p).deeper).unary.trans
        (deeper_depth _))).trans advance_depth)
      fun b c hat hv => ?_
    obtain ⟨arg, q, hq⟩ := b
    obtain ⟨arg', s', r', h'⟩ := c
    obtain rfl : arg = arg' := hv
    obtain rfl : q.state = s' := hat.state
    exact .pure (Meets.of_at (hat.withState _) _)
  next hop =>
    rcases ts with _ | ⟨t, r⟩
    · rw [Parse.unary.eq_def]
      exact primary_agrees lay ih h
    have hpk : peek toks p = t := lay.peek_at h
    rw [hpk] at hop
    rw [Parse.unary.eq_def]
    dsimp only
    rw [hop]
    exact primary_agrees lay ih h

theorem links_agrees (lvl : Parse.Level) (left : Expr) (h : At cut p d s ts) :
    Agrees cut Along.out Steps.parts (links .limited toks lvl left p)
      (Parse.links stop d lvl left s ts) := by
  obtain ⟨-, rfl, rfl, -⟩ := id h
  rw [links.eq_def]
  split
  next op hop =>
    rcases ts with _ | ⟨t, r⟩
    · rw [lay.peek_at h] at hop
      cases lvl <;> cases hop
    have hpk : peek toks p = t := lay.peek_at h
    have h1 := lay.advance_at h
    have ha : toks.size - (advance toks p).deeper.position < toks.size - p.position :=
      advance_ahead (binOp?_ne_eof hop)
    rw [hpk] at hop
    rw [Parse.links.eq_def]
    dsimp only
    rw [hop]
    dsimp only
    by_cases hd : p.depth < nestingLimit
    · -- the operator takes a level, and the operand after it is read one level deeper
      rw [level_pass _ (by simpa using hd), deeper_pass hd, pure_bind, pure_bind]
      have hop' := operand_agrees_of lvl (fun l _ => (ih _ ha).chain l h1.deeper)
        ((ih _ ha).unary h1.deeper)
      have hod : (leaves Ahead.parser (operand .limited toks lvl (advance toks p).deeper)).depth =
          p.depth + 1 := by
        rw [operand_leaves, deeper_depth, advance_depth]
      refine hop'.bind_at hod fun b c hat hv => ?_
      obtain ⟨right, q, hq⟩ := b
      obtain ⟨right', s', r', h'⟩ := c
      obtain rfl : right = right' := hv
      obtain rfl : q.state = s' := hat.state
      dsimp only
      refine ((ih (q.withState q.state.freshLabel.2.freshNode.2) (Nat.lt_trans hq ha)).links lvl _
        (hat.withState _)).bind fun b c _ _ hm => ?_
      exact .pure hm
    · rw [level_refuse _ (by simpa using hd), deeper_refuse hd]
      exact syntaxError_agrees lay h1 _
  next hop =>
    rw [Parse.links.eq_def]
    rcases ts with _ | ⟨t, r⟩
    · exact .pure (Meets.of_at h _)
    have hpk : peek toks p = t := lay.peek_at h
    rw [hpk] at hop
    dsimp only
    rw [hop]
    exact .pure (Meets.of_at h _)

theorem chain_agrees (lvl : Parse.Level) (h : At cut p d s ts) :
    Agrees cut Ahead.out Step.parts (chain .limited toks lvl p) (Parse.chain stop d lvl s ts) := by
  induction lvl using Parse.Level.tighter_induction with
  | step lvl hl =>
    rw [chain.eq_def, Parse.chain.eq_def]
    refine restoring_agrees ?_
    rw [binaryLinks.eq_def]
    -- the first operand, then the links after it
    refine (operand_agrees_of lvl hl (unary_agrees lay ih h)).bind_at
      ((operand_leaves toks lvl p).trans h.depth) fun b c hat hv => ?_
    obtain ⟨left, q, hq⟩ := b
    obtain ⟨left', s', r, hr⟩ := c
    obtain rfl : left = left' := hv
    refine ((ih q hq).links lvl left hat).bind fun b c _ _ hm => ?_
    exact .pure hm

theorem expression_agrees (h : At cut p d s ts) :
    Agrees cut Ahead.out Step.parts (expression .limited toks p)
      (Parse.expression stop d s ts) := by
  rw [expression.eq_def, Parse.expression.eq_def, deeper_bind]
  exact nested_agrees lay h fun _ => chain_agrees (p := p.deeper) lay ih _ h.deeper

theorem arguments_agrees (h : At cut p d s ts) :
    Agrees cut Ahead.out Step.parts (arguments .limited toks p) (Parse.arguments stop d s ts) := by
  rw [arguments.eq_def, Parse.arguments.eq_def]
  refine (expression_agrees lay ih h).bind_at ((expression_leaves toks p).trans h.depth)
    fun b c hat hv => ?_
  obtain ⟨e, q, hq⟩ := b
  obtain ⟨e', s', r, hr⟩ := c
  obtain rfl : e = e' := hv
  dsimp only [Ahead.out, Step.parts] at hat ⊢
  have hpk := lay.peek_at hat
  -- a comma after the expression: more arguments
  rcases r with _ | ⟨⟨k, pos⟩, r⟩
  · rw [dif_neg (by rw [hpk]; simp [Parse.peek])]
    exact .pure (Meets.of_at hat _)
  by_cases hk : k = .punct .comma
  · subst hk
    rw [dif_pos (by rw [hpk]; rfl)]
    have h1 := lay.advance_at hat
    refine ((ih _ (Nat.lt_trans (advance_ahead (by simp [hpk, Parse.peek])) hq)).arguments h1).bind_at
      ((exprKeeps toks _).arguments.trans (advance_depth.trans hat.depth)) fun b c hat' hv => ?_
    obtain ⟨more, q', hq'⟩ := b
    obtain ⟨more', s'', r', hr'⟩ := c
    obtain rfl : more = more' := hv
    exact .pure (Meets.of_at hat' _)
  · rw [dif_neg (by rw [hpk]; exact hk)]
    split
    · rename_i heq _
      exact absurd (congrArg Token.kind (List.cons.inj heq).1) hk
    · exact .pure (Meets.of_at hat _)

theorem call_agrees (name : String) (loc : Pos) (ts' : List Token) (h : At cut p d s ts) :
    Agrees cut Ahead.out Step.parts (call .limited toks name loc p)
      (s.resolve name loc ts' >>= fun callee => Parse.call stop d callee s ts) := by
  rw [call.eq_def]
  simp only [lift_limited]
  -- the callee is resolved before anything after the `(` is read
  refine (resolve_agrees h name loc ts').bind_at ((resolve_leaves name loc).trans h.depth)
    fun callee callee' _ hv => ?_
  obtain rfl : callee = callee' := hv
  have hpk := lay.peek_at h
  by_cases hk : (peek toks p).kind = .punct .rparen
  · rw [dif_pos hk]
    rw [hpk] at hk
    rcases ts with _ | ⟨⟨k, pos⟩, r⟩
    · cases hk
    cases hk
    obtain ⟨-, -, rfl, -⟩ := id h
    rw [Parse.call.eq_def]
    exact .pure (Meets.of_at ((lay.advance_at h).withState _) _)
  · rw [dif_neg hk, Parse.call.eq_2 _ _ _ _ _ fun pos r hts => hk (by rw [hpk, hts]; rfl)]
    refine (arguments_agrees lay ih h).bind_at ((exprKeeps toks p).arguments.trans h.depth)
      fun b c hat hv => ?_
    obtain ⟨args, q, hq⟩ := b
    obtain ⟨args', s', r, hr⟩ := c
    obtain rfl : args = args' := hv
    refine (expect_agrees lay hat _ _).bind_at (expect_leaves toks _ _) fun b c hat' _ => ?_
    obtain ⟨u, q', hq'⟩ := b
    obtain ⟨r', hr'⟩ := c
    obtain rfl : q'.state = s' := hat'.state
    exact .pure (Meets.of_at (hat'.withState _) _)

end Expressions

theorem exprAgrees (lay : Layout toks cut stop) (p : Parser) : ExprAgrees toks cut stop p := by
  induction p using position_induction with
  | ahead p ih =>
    exact ⟨expression_agrees lay ih, fun lvl _ _ _ h => chain_agrees lay ih lvl h,
      fun lvl left _ _ _ h => links_agrees lay ih lvl left h, unary_agrees lay ih,
      fun name loc ts' _ _ _ h => call_agrees lay ih name loc ts' h, arguments_agrees lay ih⟩

section Declarations

variable (lay : Layout toks cut stop) {d : Nat} {s : ParseState} {ts : List Token}
include lay

theorem initializer_agrees (h : At cut p d s ts) :
    Agrees cut Along.out Steps.parts (initializer .limited toks p)
      (Parse.initializer stop d s ts) := by
  unfold initializer
  have hpk := lay.peek_at h
  by_cases hk : (peek toks p).kind = .punct .assign
  · rw [dif_pos hk]
    rw [hpk] at hk
    rcases ts with _ | ⟨⟨k, pos⟩, r⟩
    · cases hk
    cases hk
    rw [Parse.initializer.eq_1]
    refine ((exprAgrees lay _).expression (lay.advance_at h)).bind_at
      ((expression_leaves toks _).trans (advance_depth.trans h.depth)) fun b c hat hv => ?_
    obtain ⟨e, q, hq⟩ := b
    obtain ⟨e', s', r', hr'⟩ := c
    obtain rfl : e = e' := hv
    exact .pure (Meets.of_at hat _)
  · rw [dif_neg hk, Parse.initializer.eq_2 _ _ _ _ fun pos r hts => hk (by rw [hpk, hts]; rfl)]
    exact .pure (Meets.of_at h _)

theorem declarators_agrees (p : Parser) (acc : List (String × Option Expr))
    (h : At cut p d s ts) :
    Agrees cut Ahead.out Step.parts (declarators .limited toks p acc)
      (Parse.declarators stop d s ts acc) := by
  induction p using position_induction generalizing s ts acc with
  | ahead p ih =>
    rw [declarators.eq_def, Parse.declarators.eq_def]
    simp only [lift_limited]
    refine (expectIdent_agrees lay h).bind_at ((expectIdent_leaves toks).trans h.depth)
      fun b c hat hv => ?_
    obtain ⟨name, q, hq⟩ := b
    obtain ⟨name', r, hr⟩ := c
    obtain rfl : name = name' := hv
    dsimp only [Ahead.out, named] at hat ⊢
    refine (initializer_agrees lay hat).bind_at ((initializer_leaves toks q).trans hat.depth)
      fun b c hat' hv' => ?_
    obtain ⟨init, q', hq'⟩ := b
    obtain ⟨init', s', r', hr'⟩ := c
    obtain rfl : init = init' := hv'
    dsimp only [Along.out, Steps.parts] at hat' ⊢
    have hpk := lay.peek_at hat'
    -- a comma after the declarator: more declarators
    rcases r' with _ | ⟨⟨k, pos⟩, r'⟩
    · rw [dif_neg (by rw [hpk]; simp [Parse.peek])]
      exact .pure (Meets.of_at hat' _)
    by_cases hk : k = .punct .comma
    · subst hk
      rw [dif_pos (by rw [hpk]; rfl)]
      have ha : toks.size - (advance toks q').position < toks.size - p.position :=
        Nat.lt_trans (advance_ahead (by simp [hpk, Parse.peek])) (Nat.lt_of_le_of_lt hq' hq)
      refine (ih _ ha _ (lay.advance_at hat')).bind fun b c _ _ hm => ?_
      exact .pure hm
    · rw [dif_neg (by rw [hpk]; exact hk)]
      split
      · rename_i heq _
        exact absurd (congrArg Token.kind (List.cons.inj heq).1) hk
      · exact .pure (Meets.of_at hat' _)

theorem declaration_agrees (h : At cut p d s ts) :
    Agrees cut Ahead.out Step.parts (declaration .limited toks p)
      (Parse.declaration stop d s ts) := by
  unfold declaration Parse.declaration
  simp only [lift_limited]
  refine (type_agrees lay h).bind_at ((type_leaves toks).trans h.depth) fun b c hat hv => ?_
  obtain ⟨ty, q, hq⟩ := b
  obtain ⟨ty', r, hr⟩ := c
  obtain rfl : ty = ty' := hv
  dsimp only [Ahead.out, named] at hat ⊢
  refine (declarators_agrees lay q [] hat).bind_at ((declarators_leaves toks q []).trans hat.depth)
    fun b c hat' hv' => ?_
  obtain ⟨items, q', hq'⟩ := b
  obtain ⟨items', s', r', hr'⟩ := c
  obtain rfl : items = items' := hv'
  dsimp only [Ahead.out, Step.parts] at hat' ⊢
  refine (expect_agrees lay hat' _ _).bind_at (expect_leaves toks _ _) fun b c hat'' _ => ?_
  obtain ⟨u, q'', hq''⟩ := b
  obtain ⟨r'', hr''⟩ := c
  obtain rfl : q''.state = s' := hat''.state
  exact .pure (Meets.of_at (hat''.withState _) _)

theorem formals_agrees (p : Parser) (h : At cut p d s ts) :
    Agrees cut Ahead.out Step.parts (formals .limited toks p) (Parse.formals stop d s ts) := by
  induction p using position_induction generalizing s ts with
  | ahead p ih =>
    rw [formals.eq_def, Parse.formals.eq_def]
    simp only [lift_limited]
    refine (type_agrees lay h).bind_at ((type_leaves toks).trans h.depth) fun b c hat hv => ?_
    obtain ⟨ty, q, hq⟩ := b
    obtain ⟨ty', r, hr⟩ := c
    obtain rfl : ty = ty' := hv
    dsimp only [Ahead.out, named] at hat ⊢
    refine (expectIdent_agrees lay hat).bind_at ((expectIdent_leaves toks).trans hat.depth)
      fun b c hat1 hv1 => ?_
    obtain ⟨name, q1, hq1⟩ := b
    obtain ⟨name', r1, hr1⟩ := c
    obtain rfl : name = name' := hv1
    dsimp only [Ahead.out, named] at hat1 ⊢
    refine (initializer_agrees lay hat1).bind_at ((initializer_leaves toks q1).trans hat1.depth)
      fun b c hat2 hv2 => ?_
    obtain ⟨default, q2, hq2⟩ := b
    obtain ⟨default', s2, r2, hr2⟩ := c
    obtain rfl : default = default' := hv2
    dsimp only [Along.out, Steps.parts] at hat2 ⊢
    have hpk := lay.peek_at hat2
    -- a comma after the parameter: more parameters
    rcases r2 with _ | ⟨⟨k, pos⟩, r2⟩
    · rw [dif_neg (by rw [hpk]; simp [Parse.peek])]
      exact .pure (Meets.of_at hat2 _)
    by_cases hk : k = .punct .comma
    · subst hk
      rw [dif_pos (by rw [hpk]; rfl)]
      have ha : toks.size - (advance toks q2).position < toks.size - p.position :=
        Nat.lt_trans (advance_ahead (by simp [hpk, Parse.peek]))
          (Nat.lt_of_le_of_lt hq2 (Nat.lt_trans hq1 hq))
      refine (ih _ ha (lay.advance_at hat2)).bind_at
        ((formals_leaves toks _).trans (advance_depth.trans hat2.depth)) fun b c hat3 hv3 => ?_
      obtain ⟨more, q3, hq3⟩ := b
      obtain ⟨more', s3, r3, hr3⟩ := c
      obtain rfl : more = more' := hv3
      exact .pure (Meets.of_at hat3 _)
    · rw [dif_neg (by rw [hpk]; exact hk)]
      split
      · rename_i heq _
        exact absurd (congrArg Token.kind (List.cons.inj heq).1) hk
      · exact .pure (Meets.of_at hat2 _)

theorem check_at (h : At cut p d s ts) (k : Punct) :
    check toks p (.punct k) = Parse.atPunct k ts := by
  unfold check
  rw [lay.peek_at h]
  rcases ts with _ | ⟨t, r⟩
  · simp [Parse.peek, Parse.atPunct]
  · rfl

theorem formalsOrNone_agrees (h : At cut p d s ts) :
    Agrees cut Along.out Steps.parts (formalsOrNone .limited toks p)
      (Parse.formalsOrNone stop d s ts) := by
  unfold formalsOrNone Parse.formalsOrNone
  rw [check_at lay h]
  split
  · exact .pure (Meets.of_at h _)
  · refine (formals_agrees lay p h).bind_at ((formals_leaves toks p).trans h.depth)
      fun b c hat hv => ?_
    obtain ⟨fs, q, hq⟩ := b
    obtain ⟨fs', s', r, hr⟩ := c
    obtain rfl : fs = fs' := hv
    exact .pure (Meets.of_at hat _)

theorem exprStatement_agrees (h : At cut p d s ts) :
    Agrees cut Ahead.out Step.parts (exprStatement .limited toks p)
      (Parse.exprStatement stop d s ts) := by
  unfold exprStatement Parse.exprStatement
  simp only [lift_limited]
  refine ((exprAgrees lay p).expression h).bind_at ((expression_leaves toks p).trans h.depth)
    fun b c hat hv => ?_
  obtain ⟨e, q, hq⟩ := b
  obtain ⟨e', s', r, hr⟩ := c
  obtain rfl : e = e' := hv
  dsimp only [Ahead.out, Step.parts] at hat ⊢
  refine (expect_agrees lay hat _ _).bind_at (expect_leaves toks _ _) fun b c hat' _ => ?_
  obtain ⟨u, q', hq'⟩ := b
  obtain ⟨r', hr'⟩ := c
  obtain rfl : q'.state = s' := hat'.state
  exact .pure (Meets.of_at (hat'.withState _) _)

-- The target is resolved before the value is read, by both.
theorem assignment_agrees (name : String) (loc : Pos) (ts' : List Token) (h : At cut p d s ts) :
    Agrees cut Ahead.out Step.parts (assignment .limited toks name loc p)
      (s.resolve name loc ts' >>= fun entry => Parse.assignment stop d entry s ts) := by
  unfold assignment Parse.assignment
  simp only [lift_limited]
  refine (resolve_agrees h name loc ts').bind_at ((resolve_leaves name loc).trans h.depth)
    fun entry entry' _ hv => ?_
  obtain rfl : entry = entry' := hv
  obtain ⟨-, -, rfl, -⟩ := id h
  refine ((exprAgrees lay _).expression (h.withState (p.state.identNode entry none).2)).bind_at
    ((expression_leaves toks _).trans h.depth) fun b c hat hv => ?_
  obtain ⟨e, q, hq⟩ := b
  obtain ⟨e', s', r, hr⟩ := c
  obtain rfl : e = e' := hv
  dsimp only [Ahead.out, Step.parts] at hat ⊢
  refine (expect_agrees lay hat _ _).bind_at (expect_leaves toks _ _) fun b c hat' _ => ?_
  obtain ⟨u, q', hq'⟩ := b
  obtain ⟨r', hr'⟩ := c
  obtain rfl : q'.state = s' := hat'.state
  exact .pure (Meets.of_at (hat'.withState _) _)

end Declarations

-- Every statement parser agrees with the list parse from wherever the two stand together.
structure StmtAgrees (toks : Array Token) (cut : List Token) (stop : Pos) (p : Parser) : Prop where
  statement {d : Nat} {s : ParseState} {ts : List Token} : At cut p d s ts →
    Agrees cut Ahead.out Step.parts (statement .limited toks p) (Parse.statement stop d s ts)
  block {d : Nat} {s : ParseState} {ts : List Token} : At cut p d s ts →
    Agrees cut Ahead.out Step.parts (block .limited toks p) (Parse.block stop d s ts)
  blockItems {d : Nat} {s : ParseState} {ts : List Token} : At cut p d s ts →
    Agrees cut Along.out Steps.parts (blockItems .limited toks p) (Parse.blockItems stop d s ts)
  funcDef {d : Nat} {s : ParseState} {ts : List Token} : At cut p d s ts →
    Agrees cut Ahead.out Step.parts (funcDef .limited toks p) (Parse.funcDef stop d s ts)

section Statements

variable (lay : Layout toks cut stop)
  (ih : ∀ q, toks.size - q.position < toks.size - p.position → StmtAgrees toks cut stop q)
  {d : Nat} {s : ParseState} {ts : List Token}
include lay ih

theorem block_agrees (h : At cut p d s ts) :
    Agrees cut Ahead.out Step.parts (block .limited toks p) (Parse.block stop d s ts) := by
  rw [block.eq_def, Parse.block.eq_def]
  simp only [lift_limited]
  refine (expect_agrees lay h _ _).bind_at ((expect_leaves toks _ _).trans h.depth)
    fun b c hat _ => ?_
  obtain ⟨u, q, hq⟩ := b
  obtain ⟨r, hr⟩ := c
  dsimp only [Ahead.out, Shorter.parts] at hat ⊢
  obtain rfl : q.state = s := hat.state
  -- the block's statements in a scope of their own
  refine ((ih (q.withState q.state.enter) hq).blockItems (hat.withState _)).bind_at
    ((stmtKeeps toks _).blockItems.trans hat.depth) fun b c hat' hv => ?_
  obtain ⟨items, q', hq'⟩ := b
  obtain ⟨items', s', r', hr'⟩ := c
  obtain rfl : items = items' := hv
  dsimp only [Along.out, Steps.parts] at hat' ⊢
  refine (expect_agrees lay hat' _ _).bind_at (expect_leaves toks _ _) fun b c hat'' _ => ?_
  obtain ⟨u', q'', hq''⟩ := b
  obtain ⟨r'', hr''⟩ := c
  dsimp only [Ahead.out, Shorter.parts] at hat'' ⊢
  refine (exitScope_agrees hat'' _).bind_at (exitScope_leaves.trans hat''.depth)
    fun s1 s1' _ hv => ?_
  obtain rfl : s1 = s1' := hv
  rcases s1.chain items with ⟨_ | inner, s2⟩
  · exact .pure (Meets.of_at (hat''.withState _) _)
  · exact .pure (Meets.of_at (hat''.withState _) _)

theorem funcDef_agrees (h : At cut p d s ts) :
    Agrees cut Ahead.out Step.parts (funcDef .limited toks p) (Parse.funcDef stop d s ts) := by
  rw [funcDef.eq_def, Parse.funcDef.eq_def]
  simp only [lift_limited]
  refine (type_agrees lay h).bind_at ((type_leaves toks).trans h.depth) fun b c hat1 hv => ?_
  obtain ⟨ret, q1, hq1⟩ := b
  obtain ⟨ret', r1, hr1⟩ := c
  obtain rfl : ret = ret' := hv
  dsimp only [Ahead.out, named] at hat1 ⊢
  refine (expectIdent_agrees lay hat1).bind_at ((expectIdent_leaves toks).trans hat1.depth)
    fun b c hat2 hv => ?_
  obtain ⟨name, q2, hq2⟩ := b
  obtain ⟨name', r2, hr2⟩ := c
  obtain rfl : name = name' := hv
  dsimp only [Ahead.out, named] at hat2 ⊢
  refine (expect_agrees lay hat2 _ _).bind_at ((expect_leaves toks _ _).trans hat2.depth)
    fun b c hat3 _ => ?_
  obtain ⟨u, q3, hq3⟩ := b
  obtain ⟨r3, hr3⟩ := c
  dsimp only [Ahead.out, Shorter.parts] at hat3 ⊢
  refine (formalsOrNone_agrees lay hat3).bind_at ((formalsOrNone_leaves toks q3).trans hat3.depth)
    fun b c hat4 hv => ?_
  obtain ⟨fs, q4, hq4⟩ := b
  obtain ⟨fs', s4, r4, hr4⟩ := c
  obtain rfl : fs = fs' := hv
  dsimp only [Along.out, Steps.parts] at hat4 ⊢
  obtain rfl : q4.state = s4 := hat4.state
  -- the function is declared, then its parameters in a scope of their own
  generalize Parse.declareParams fs (q4.state.declare name (.func ret (fs.map (·.ty)))).2.enter = ps
  refine (expect_agrees lay (hat4.withState ps.2) _ _).bind_at
    ((expect_leaves toks _ _).trans hat4.depth) fun b c hat5 _ => ?_
  obtain ⟨u', q5, hq5⟩ := b
  obtain ⟨r5, hr5⟩ := c
  dsimp only [Ahead.out, Shorter.parts] at hat5 ⊢
  have ha : toks.size - q5.position < toks.size - p.position := by
    simp only [withState_position] at hq5
    omega
  refine ((ih _ ha).block hat5).bind_at (((stmtKeeps toks q5).block).trans hat5.depth)
    fun b c hat6 hv => ?_
  obtain ⟨body, q6, hq6⟩ := b
  obtain ⟨body', s6, r6, hr6⟩ := c
  obtain rfl : body = body' := hv
  dsimp only [Ahead.out, Step.parts] at hat6 ⊢
  refine (exitScope_agrees hat6 _).bind_at (exitScope_leaves.trans hat6.depth)
    fun s7 s7' _ hv => ?_
  obtain rfl : s7 = s7' := hv
  -- the function's own entry, found again after its scope is closed
  rcases hl : s7.scopes.lookup name with _ | entry
  · exact .fail rfl rfl hat6.within
  · exact .pure (Meets.of_at (hat6.withState _) _)

-- Below the nesting limit the statement read one level deeper agrees with the list parse's
-- statement at the level above: both tell it by its first token.
theorem statementBody_agrees (hd : d < nestingLimit) (h : At cut p (d + 1) s ts) :
    Agrees cut Ahead.out Step.parts (statementBody .limited toks p)
      (Parse.statement stop d s ts) := by
  rw [statementBody.eq_def, Parse.statement.eq_def, if_pos hd]
  dsimp only
  rcases ts with _ | ⟨⟨k, pos⟩, r⟩
  · rw [dif_pos (by rw [lay.peek_at h]; rfl)]
    exact exprStatement_agrees lay h
  have hpk : peek toks p = ⟨k, pos⟩ := lay.peek_at h
  have ha : toks.size - (advance toks p).position < toks.size - p.position :=
    advance_ahead (by rw [hpk]; exact lay.head_ne_eof h)
  have h1 := lay.advance_at h
  rw [dif_neg (by rw [hpk]; exact lay.head_ne_eof h)]
  simp only [hpk, lift_limited]
  cases k with
  | num v => exact exprStatement_agrees lay h
  | ident name =>
    -- an assignment when the token after the name is =
    dsimp only
    rw [lay.peekAhead_at h]
    rcases r with _ | ⟨a, r'⟩
    · rw [if_neg (by simp [Parse.peek])]
      exact exprStatement_agrees lay h
    dsimp only
    by_cases hk : a.kind = .punct .assign
    · rw [if_pos (by simp [Parse.peek, hk]), if_pos hk, bind_map]
      refine Agrees.map_right (Agrees.repack ?_ fun b => rfl) fun c => rfl
      exact assignment_agrees lay name pos _ (lay.advance_at h1)
    · rw [if_neg (by simp [Parse.peek, hk]), if_neg hk]
      exact exprStatement_agrees lay h
  | keyword kw =>
    cases kw with
    | intKw | voidKw | constKw =>
      -- both ask whether the tokens start a function definition, from the same place
      dsimp only
      rw [isFunctionDefinition_agrees lay h]
      split
      next hf =>
        simp only [hf]
        exact funcDef_agrees (p := (isFunctionDefinition toks p).2) lay ih h.restored
      next hf =>
        simp only [hf]
        exact declaration_agrees lay h.restored
    | ifKw =>
      dsimp only
      refine (expect_agrees lay h1 _ _).bind_at ((expect_leaves toks _ _).trans h1.depth)
        fun b c hat1 _ => ?_
      obtain ⟨u, q1, hq1⟩ := b
      obtain ⟨r1, hr1⟩ := c
      dsimp only [Ahead.out, Shorter.parts] at hat1 ⊢
      refine ((exprAgrees lay q1).expression hat1).bind_at
        ((expression_leaves toks q1).trans hat1.depth) fun b c hat2 hv => ?_
      obtain ⟨cond, q2, hq2⟩ := b
      obtain ⟨cond', s2, r2, hr2⟩ := c
      obtain rfl : cond = cond' := hv
      dsimp only [Ahead.out, Step.parts] at hat2 ⊢
      refine (expect_agrees lay hat2 _ _).bind_at ((expect_leaves toks _ _).trans hat2.depth)
        fun b c hat3 _ => ?_
      obtain ⟨u', q3, hq3⟩ := b
      obtain ⟨r3, hr3⟩ := c
      dsimp only [Ahead.out, Shorter.parts] at hat3 ⊢
      have h3 : toks.size - q3.position < toks.size - p.position := by omega
      refine ((ih q3 h3).statement hat3).bind_at ((stmtKeeps toks q3).statement.trans hat3.depth)
        fun b c hat4 hv => ?_
      obtain ⟨th, q4, hq4⟩ := b
      obtain ⟨th', s4, r4, hr4⟩ := c
      obtain rfl : th = th' := hv
      dsimp only [Ahead.out, Step.parts] at hat4 ⊢
      obtain rfl : q4.state = s4 := hat4.state
      have hpk4 := lay.peek_at hat4
      -- an else after the first branch is read by both
      rcases r4 with _ | ⟨⟨k, pos'⟩, r5⟩
      · rw [dif_neg (by rw [hpk4]; simp [Parse.peek])]
        exact .pure (Meets.of_at (hat4.withState _) _)
      by_cases hk : k = .keyword .elseKw
      · subst hk
        rw [dif_pos (by rw [hpk4]; rfl)]
        have h5 : toks.size - (advance toks q4).position < toks.size - p.position :=
          Nat.lt_trans (advance_ahead (by simp [hpk4, Parse.peek])) (Nat.lt_trans hq4 h3)
        refine ((ih _ h5).statement (lay.advance_at hat4)).bind_at
          ((stmtKeeps toks _).statement.trans (advance_depth.trans hat4.depth))
          fun b c hat5 hv => ?_
        obtain ⟨el, q5, hq5⟩ := b
        obtain ⟨el', s5, r6, hr6⟩ := c
        obtain rfl : el = el' := hv
        dsimp only [Ahead.out, Step.parts] at hat5 ⊢
        obtain rfl : q5.state = s5 := hat5.state
        exact .pure (Meets.of_at (hat5.withState _) _)
      · rw [dif_neg (by rw [hpk4]; exact hk)]
        split
        · rename_i heq _
          exact absurd (congrArg Token.kind (List.cons.inj heq).1) hk
        · exact .pure (Meets.of_at (hat4.withState _) _)
    | whileKw =>
      dsimp only
      refine (expect_agrees lay h1 _ _).bind_at ((expect_leaves toks _ _).trans h1.depth)
        fun b c hat1 _ => ?_
      obtain ⟨u, q1, hq1⟩ := b
      obtain ⟨r1, hr1⟩ := c
      dsimp only [Ahead.out, Shorter.parts] at hat1 ⊢
      refine ((exprAgrees lay q1).expression hat1).bind_at
        ((expression_leaves toks q1).trans hat1.depth) fun b c hat2 hv => ?_
      obtain ⟨cond, q2, hq2⟩ := b
      obtain ⟨cond', s2, r2, hr2⟩ := c
      obtain rfl : cond = cond' := hv
      dsimp only [Ahead.out, Step.parts] at hat2 ⊢
      refine (expect_agrees lay hat2 _ _).bind_at ((expect_leaves toks _ _).trans hat2.depth)
        fun b c hat3 _ => ?_
      obtain ⟨u', q3, hq3⟩ := b
      obtain ⟨r3, hr3⟩ := c
      dsimp only [Ahead.out, Shorter.parts] at hat3 ⊢
      have h3 : toks.size - q3.position < toks.size - p.position := by omega
      refine ((ih q3 h3).statement hat3).bind_at ((stmtKeeps toks q3).statement.trans hat3.depth)
        fun b c hat4 hv => ?_
      obtain ⟨body, q4, hq4⟩ := b
      obtain ⟨body', s4, r4, hr4⟩ := c
      obtain rfl : body = body' := hv
      dsimp only [Ahead.out, Step.parts] at hat4 ⊢
      obtain rfl : q4.state = s4 := hat4.state
      exact .pure (Meets.of_at (hat4.withState _) _)
    | returnKw =>
      dsimp only
      refine Agrees.map_right ?_ fun c => rfl
      rw [Parse.jump.eq_def]
      refine ((exprAgrees lay _).expression h1).bind_at
        ((expression_leaves toks _).trans h1.depth) fun b c hat1 hv => ?_
      obtain ⟨e, q1, hq1⟩ := b
      obtain ⟨e', s1, r1, hr1⟩ := c
      obtain rfl : e = e' := hv
      dsimp only [Ahead.out, Step.parts] at hat1 ⊢
      refine (expect_agrees lay hat1 _ _).bind_at (expect_leaves toks _ _) fun b c hat2 _ => ?_
      obtain ⟨u, q2, hq2⟩ := b
      obtain ⟨r2, hr2⟩ := c
      obtain rfl : q2.state = s1 := hat2.state
      exact .pure (Meets.of_at (hat2.withState _) _)
    | breakKw | continueKw =>
      dsimp only
      refine Agrees.map_right ?_ fun c => rfl
      rw [Parse.jump.eq_def]
      refine (expect_agrees lay h1 _ _).bind_at (expect_leaves toks _ _) fun b c hat1 _ => ?_
      obtain ⟨u, q1, hq1⟩ := b
      obtain ⟨r1, hr1⟩ := c
      obtain rfl : q1.state = s := hat1.state
      exact .pure (Meets.of_at (hat1.withState _) _)
    | elseKw => exact exprStatement_agrees lay h
  | punct q =>
    cases q
    case lbrace => exact block_agrees lay ih h
    case semicolon =>
      obtain rfl : p.state = s := h.state
      exact .pure (Meets.of_at (h1.withState _) _)
    all_goals exact exprStatement_agrees lay h
  | eof => exact exprStatement_agrees lay h

theorem statement_agrees (h : At cut p d s ts) :
    Agrees cut Ahead.out Step.parts (statement .limited toks p) (Parse.statement stop d s ts) := by
  rw [statement.eq_def]
  by_cases hd : d < nestingLimit
  · exact nested_pass (h.depth ▸ hd) (statementBody_agrees (p := p.deeper) lay ih hd h.deeper)
  · rw [Parse.statement.eq_def, if_neg hd]
    exact nested_refuse lay h hd

theorem blockItems_agrees (h : At cut p d s ts) :
    Agrees cut Along.out Steps.parts (blockItems .limited toks p)
      (Parse.blockItems stop d s ts) := by
  rw [blockItems.eq_def, Parse.blockItems.eq_def]
  have hpk := lay.peek_at h
  -- the items end at a closing brace or at the end of the input
  rcases ts with _ | ⟨⟨k, pos⟩, r⟩
  · rw [if_pos (by simp [atEnd, hpk, Parse.peek])]
    exact .pure (Meets.of_at h _)
  dsimp only
  by_cases hk : k = .punct .rbrace
  · rw [if_pos (by simp [check, hpk, Parse.peek, hk]), if_pos hk]
    exact .pure (Meets.of_at h _)
  rw [if_neg (by simp [check, atEnd, hpk, Parse.peek, hk, lay.head_ne_eof h]), if_neg hk]
  refine (statement_agrees lay ih h).bind_at ((stmtKeeps toks p).statement.trans h.depth)
    fun b c hat hv => ?_
  obtain ⟨st, q, hq⟩ := b
  obtain ⟨st', s', r', hr'⟩ := c
  obtain rfl : st = st' := hv
  dsimp only [Ahead.out, Step.parts] at hat ⊢
  refine ((ih q hq).blockItems hat).bind_at ((stmtKeeps toks q).blockItems.trans hat.depth)
    fun b c hat' hv => ?_
  obtain ⟨more, q', hq'⟩ := b
  obtain ⟨more', s'', r'', hr''⟩ := c
  obtain rfl : more = more' := hv
  exact .pure (Meets.of_at hat' _)

end Statements

theorem stmtAgrees (lay : Layout toks cut stop) (p : Parser) : StmtAgrees toks cut stop p := by
  induction p using position_induction with
  | ahead p ih =>
    exact ⟨statement_agrees lay ih, block_agrees lay ih, blockItems_agrees lay ih,
      funcDef_agrees lay ih⟩

-- The statements of a program, from nesting depth 0, by induction on the position, as each
-- statement reads at least one token.
theorem programItems_agrees (lay : Layout toks cut stop) (p : Parser) {s : ParseState}
    {ts : List Token} (h : At cut p 0 s ts) :
    Agrees cut Along.out Steps.parts (programItems .limited toks p)
      (Parse.programItems stop s ts) := by
  induction p using position_induction generalizing s ts with
  | ahead p ih =>
    rw [programItems.eq_def, Parse.programItems.eq_def]
    have hpk := lay.peek_at h
    rcases ts with _ | ⟨t, r⟩
    · rw [if_pos (by simp [atEnd, hpk, Parse.peek])]
      exact .pure (Meets.of_at h _)
    rw [if_neg (by simp [atEnd, hpk, Parse.peek, lay.head_ne_eof h])]
    refine ((stmtAgrees lay p).statement h).bind_at ((stmtKeeps toks p).statement.trans h.depth)
      fun b c hat hv => ?_
    obtain ⟨st, q, hq⟩ := b
    obtain ⟨st', s', r', hr'⟩ := c
    obtain rfl : st = st' := hv
    dsimp only [Ahead.out, Step.parts] at hat ⊢
    refine (ih q hq hat).bind_at ((programItems_leaves toks q).trans hat.depth)
      fun b c hat' hv => ?_
    obtain ⟨more, q', hq'⟩ := b
    obtain ⟨more', s'', r'', hr''⟩ := c
    obtain rfl : more = more' := hv
    exact .pure (Meets.of_at hat' _)

end Parser

end ScopedC

import ScopedC.Proofs.Soundness.Expr
namespace ScopedC

open Parse

-- A failure that a phrase of the grammar may still meet: the nesting limit, with at most
-- `bound - nestingLimit` tokens left, or, when the phrase does not resolve, a name that no
-- scope binds.
def Admissible (resolvable : Prop) (bound : Nat) (e : Failure) : Prop :=
  (∃ pos, e.error = .malformed .tooDeep pos) ∧ nestingLimit + e.rest.length ≤ bound ∨
    (∃ name pos, e.error = .undefined name pos) ∧ ¬ resolvable

-- A parse of a phrase of the grammar: it succeeds as `good` says, or fails admissibly.
def Completes {β : Type} (resolvable : Prop) (bound : Nat) (good : β → Prop)
    (x : Except Failure β) : Prop :=
  (∃ b, x = .ok b ∧ good b) ∨ ∃ e, x = .error e ∧ Admissible resolvable bound e

-- A parse that read exactly up to `rest`, ended with the scopes `env` and the declaration number
-- `d`, and gave a value that `R` accepts.
def Lands {β : Type} (env : Scopes Entry) (d : Nat) (rest : List Token) (R : β → Prop) (v : β)
    (s' : ParseState) (rest' : List Token) : Prop :=
  rest' = rest ∧ s'.scopes = env ∧ s'.decls = d ∧ R v

section

variable {α β : Type} {P Q : Prop} {B : Nat} {e : Failure}

theorem Admissible.mono (h : Admissible P B e) (hQP : Q → P) : Admissible Q B e :=
  h.imp id fun ⟨hu, hn⟩ => ⟨hu, fun hq => hn (hQP hq)⟩

theorem Completes.ok {g : β → Prop} {b : β} (h : g b) : Completes P B g (.ok b) :=
  .inl ⟨b, rfl, h⟩

theorem Completes.mono {g g' : β → Prop} {x : Except Failure β} (h : Completes P B g x)
    (hQP : Q → P) (hg : ∀ b, g b → g' b) : Completes Q B g' x := by
  rcases h with ⟨b, hx, hb⟩ | ⟨e, hx, he⟩
  · exact .inl ⟨b, hx, hg b hb⟩
  · exact .inr ⟨e, hx, he.mono hQP⟩

-- A parse made of two: the first completes, and from each good result the rest completes; a
-- phrase that resolves has a first part that resolves.
theorem Completes.bind {x : Except Failure α} {f : α → Except Failure β} {g₁ : α → Prop}
    {g₂ : β → Prop} (hx : Completes P B g₁ x) (hQP : Q → P)
    (hf : ∀ a, g₁ a → Completes Q B g₂ (f a)) : Completes Q B g₂ (x >>= f) := by
  rcases hx with ⟨a, rfl, ha⟩ | ⟨e, rfl, he⟩
  · exact hf a ha
  · exact .inr ⟨e, rfl, he.mono hQP⟩

theorem Completes.pure {g : β → Prop} {b : β} (h : g b) : Completes P B g (pure b) :=
  .inl ⟨b, rfl, h⟩

theorem Completes.map {x : Except Failure α} {f : α → β} {g₁ : α → Prop} {g₂ : β → Prop}
    (hx : Completes P B g₁ x) (hf : ∀ a, g₁ a → g₂ (f a)) : Completes P B g₂ (x.map f) := by
  rcases hx with ⟨a, rfl, ha⟩ | ⟨e, rfl, he⟩
  · exact .inl ⟨f a, rfl, hf a ha⟩
  · exact .inr ⟨e, rfl, he⟩

end

section

variable {stop : Pos} {depth : Nat} {s : ParseState} {ts : List Token} {P : Prop} {B : Nat}

-- Refused, a nesting level is refused at the depth the limit counts.
theorem deeper_completes (hB : depth + ts.length ≤ B) :
    Completes P B (· = depth + 1) (deeper stop depth s ts) := by
  unfold deeper
  split
  · exact .ok rfl
  · rename_i hlimit
    exact .inr ⟨_, rfl, .inl ⟨⟨_, rfl⟩, by dsimp only [failAt]; omega⟩⟩

-- A name is resolved, or fails to be only when the phrase it stands in does not resolve.
theorem resolve_completes {name : String} {pos : Pos}
    (hP : P → ∃ e, s.scopes.lookup name = some e) :
    Completes P B (fun e => s.scopes.lookup name = some e) (s.resolve name pos ts) := by
  unfold ParseState.resolve
  split
  · rename_i e he
    exact .ok he
  · rename_i hnone
    refine .inr ⟨_, rfl, .inr ⟨⟨name, pos, rfl⟩, fun hp => ?_⟩⟩
    obtain ⟨e, he⟩ := hP hp
    rw [hnone] at he
    cases he

end

-- The token after a phrase whose operators have height below `h` ends it: it is no such
-- operator, and no `(` that would make a call of a name before it.
def Ends (h : Nat) : List Token → Prop
  | [] => True
  | t :: _ => (∀ l : Level, l.height < h → l.binOp? t.kind = none) ∧ t.kind ≠ .punct .lparen

theorem Ends.mono {h h' : Nat} {rest : List Token} (hend : Ends h rest) (hle : h' ≤ h) :
    Ends h' rest := by
  cases rest with
  | nil => trivial
  | cons t r => exact ⟨fun l hl => hend.1 l (by omega), hend.2⟩

-- A mark that is no operator and no `(` ends every phrase.
theorem ends_of_punct {h : Nat} {p : Punct} {q : Pos} {r : List Token}
    (hop : ∀ l : Level, l.binOp? (.punct p) = none) (hp : p ≠ .lparen) :
    Ends h (⟨.punct p, q⟩ :: r) :=
  ⟨fun l _ => hop l, fun heq => hp (TokenKind.punct.inj heq)⟩

-- The marks that close a phrase: `,`, `;` and `)`.
def Punct.closes : Punct → Bool
  | .comma | .semicolon | .rparen => true
  | _ => false

theorem ends_of_closes {h : Nat} {p : Punct} {q : Pos} {r : List Token} (hp : p.closes = true) :
    Ends h (⟨.punct p, q⟩ :: r) := by
  refine ends_of_punct (fun l => ?_) ?_
  · cases p <;> cases l <;> simp_all [Punct.closes, Level.binOp?]
  · rintro rfl
    cases hp

theorem ends_of_rparen {h : Nat} {rest : List Token} (hr : ∃ q r, rest = ⟨.punct .rparen, q⟩ :: r) :
    Ends h rest := by
  obtain ⟨q, r, rfl⟩ := hr
  exact ends_of_closes rfl

-- Each operator belongs to one level only.
theorem Level.binOp?_of_ne {l l' : Level} {k : TokenKind} {op : BinOp} (h : l.binOp? k = some op)
    (hne : l' ≠ l) : l'.binOp? k = none := by
  unfold Level.binOp? at h
  split at h <;> cases h <;> cases l' <;> simp_all [Level.binOp?]

-- Links end at once before a token that ends the chain.
theorem links_of_ends {stop : Pos} {depth : Nat} {lvl : Level} {left : Expr} {s : ParseState}
    {ts : List Token} (hend : Ends (lvl.height + 1) ts) :
    links stop depth lvl left s ts = .ok ⟨left, s, ts, Nat.le_refl _⟩ := by
  cases ts with
  | nil => rw [links.eq_2]; rfl
  | cons t r => rw [links.eq_1, hend.1 lvl (by omega)]; rfl

namespace Gram

theorem Links.ends {lvl : Level} {acc e : Raw.Expr} {r rest : List Token}
    (g : Links lvl acc r e rest) (hend : Ends (lvl.height + 1) rest) : Ends lvl.height r := by
  cases g with
  | nil => exact hend.mono (by omega)
  | cons hop _ _ =>
    refine ⟨fun l hl => Level.binOp?_of_ne hop (by rintro rfl; omega), fun heq => ?_⟩
    rw [heq] at hop
    cases lvl <;> simp [Level.binOp?] at hop

-- The links after an operand resolve only if what they start from resolves.
theorem Links.resolvable_acc {env : Scopes Entry} {lvl : Level} {acc e : Raw.Expr}
    {ts rest : List Token} :
    Links lvl acc ts e rest → (∃ v, ResolvedExpr env e v) → ∃ v, ResolvedExpr env acc v
  | .nil, h => h
  | .cons _ _ l, h => by
    obtain ⟨v, hv⟩ := l.resolvable_acc h
    cases hv with
    | binary ha _ => exact ⟨_, ha⟩

theorem Args.head {ts rest : List Token} {args : List Raw.Expr} (g : Args ts args rest) :
    ∃ t r, ts = t :: r ∧ startsExpr t.kind = true := by
  cases g with
  | one c => exact c.head
  | cons c _ => exact c.head

variable {stop : Pos} {B : Nat}

mutual

theorem Chain.completes {lvl : Level} {ts rest : List Token} {e : Raw.Expr}
    (g : Chain lvl ts e rest) (hend : Ends (lvl.height + 1) rest) (depth : Nat)
    (hB : depth + ts.length ≤ B) (s : ParseState) {env : Scopes Entry} {d : Nat}
    (hs : s.scopes = env) (hd : s.decls = d) :
    Completes (∃ v, ResolvedExpr env e v) B
      (fun r : Step ts Expr => Lands env d rest (ResolvedExpr env e) r.value r.state r.rest)
      (chain stop depth lvl s ts) := by
  match g with
  | .mk o l =>
    have operand := o.completes (l.ends hend) depth hB s hs hd
    have links := l.completes hend depth (by have := o.suffix.length_le; omega)
    rw [chain.eq_def]
    refine operand.bind l.resolvable_acc ?_
    rintro ⟨left, s1, r1, hr1⟩ ⟨rfl, hs1, hd1, hres⟩
    dsimp only
    refine (links s1 left hs1 hd1 hres).bind id ?_
    rintro ⟨e', s2, r2, hr2⟩ hland
    exact .ok hland

theorem Links.completes {lvl : Level} {acc e : Raw.Expr} {ts rest : List Token}
    (g : Links lvl acc ts e rest) (hend : Ends (lvl.height + 1) rest) (depth : Nat)
    (hB : depth + ts.length ≤ B) (s : ParseState) (left : Expr) {env : Scopes Entry} {d : Nat}
    (hs : s.scopes = env) (hd : s.decls = d) (hacc : ResolvedExpr env acc left) :
    Completes (∃ v, ResolvedExpr env e v) B
      (fun r : Steps ts Expr => Lands env d rest (ResolvedExpr env e) r.value r.state r.rest)
      (links stop depth lvl left s ts) := by
  match g with
  | .nil =>
    rw [links_of_ends hend]
    exact .ok ⟨rfl, hs, hd, hacc⟩
  | .cons hop o l =>
    -- each further operand nests one level deeper, after its operator
    simp only [List.length_cons] at hB
    have operand := o.completes (l.ends hend) (depth + 1) (by omega) s hs hd
    have more := l.completes hend (depth + 1) (by have := o.suffix.length_le; omega)
    rw [links.eq_def]
    dsimp only
    rw [hop]
    dsimp only
    refine (deeper_completes (by omega)).bind id ?_
    rintro depth' rfl
    refine operand.bind (fun hq => ?_) ?_
    · -- an expression that resolves has operands that resolve
      obtain ⟨v, hv⟩ := l.resolvable_acc hq
      cases hv with
      | binary _ hb => exact ⟨_, hb⟩
    rintro ⟨right, s1, r1, hr1⟩ ⟨rfl, hs1, hd1, hres⟩
    dsimp only
    refine (more _ _ (by simpa using hs1) (by simpa using hd1) (.binary hacc hres)).bind id ?_
    rintro ⟨e', s2, r2, hr2⟩ hland
    exact .ok hland

theorem Operand.completes {lvl : Level} {ts rest : List Token} {e : Raw.Expr}
    (g : Operand lvl ts e rest) (hend : Ends lvl.height rest) (depth : Nat)
    (hB : depth + ts.length ≤ B) (s : ParseState) {env : Scopes Entry} {d : Nat}
    (hs : s.scopes = env) (hd : s.decls = d) :
    Completes (∃ v, ResolvedExpr env e v) B
      (fun r : Step ts Expr => Lands env d rest (ResolvedExpr env e) r.value r.state r.rest)
      (operand stop depth lvl s ts) := by
  match g with
  | .tighter hl c =>
    have chain := c.completes (hend.mono (by have := Level.height_of_tighter? hl; omega)) depth hB
      s hs hd
    rw [operand.eq_def]
    split
    · rename_i l' hl'
      rw [hl] at hl'
      cases hl'
      exact chain
    · rename_i hnone
      rw [hl] at hnone
      cases hnone
  | .unary hl u =>
    have unary := u.completes (hend.mono (Nat.zero_le _)) depth hB s hs hd
    rw [operand.eq_def]
    split
    · rename_i l' hl'
      rw [hl] at hl'
      cases hl'
    · exact unary

theorem Unary.completes {ts rest : List Token} {e : Raw.Expr} (g : Unary ts e rest)
    (hend : Ends 0 rest) (depth : Nat) (hB : depth + ts.length ≤ B) (s : ParseState)
    {env : Scopes Entry} {d : Nat} (hs : s.scopes = env) (hd : s.decls = d) :
    Completes (∃ v, ResolvedExpr env e v) B
      (fun r : Step ts Expr => Lands env d rest (ResolvedExpr env e) r.value r.state r.rest)
      (unary stop depth s ts) := by
  match g with
  | .prefixed hop u =>
    simp only [List.length_cons] at hB
    have arg := u.completes hend (depth + 1) (by omega) s hs hd
    rw [unary.eq_def]
    dsimp only
    rw [hop]
    dsimp only
    refine (deeper_completes (by omega)).bind id ?_
    rintro depth' rfl
    refine arg.bind (fun hq => ?_) ?_
    · obtain ⟨v, hv⟩ := hq
      cases hv with
      | unary ha => exact ⟨_, ha⟩
    rintro ⟨a, s1, r1, hr1⟩ ⟨rfl, hs1, hd1, hres⟩
    exact .ok ⟨rfl, by simpa using hs1, by simpa using hd1, .unary hres⟩
  | .primary p =>
    have primary := p.completes hend depth hB s hs hd
    obtain ⟨t, r, rfl, -, hnone⟩ := p.head
    rw [unary.eq_def]
    dsimp only
    rw [hnone]
    exact primary

theorem Primary.completes {ts rest : List Token} {e : Raw.Expr} (g : Primary ts e rest)
    (hend : Ends 0 rest) (depth : Nat) (hB : depth + ts.length ≤ B) (s : ParseState)
    {env : Scopes Entry} {d : Nat} (hs : s.scopes = env) (hd : s.decls = d) :
    Completes (∃ v, ResolvedExpr env e v) B
      (fun r : Step ts Expr => Lands env d rest (ResolvedExpr env e) r.value r.state r.rest)
      (primary stop depth s ts) := by
  match g with
  | .lit =>
    rw [primary.eq_def]
    exact .ok ⟨rfl, hs, hd, .lit⟩
  | .name =>
    -- no `(` follows, so the name is read as a name and not as a callee
    rw [primary.eq_3 _ _ _ _ _ _ fun q r h => by subst h; exact hend.2 rfl]
    refine (resolve_completes fun hq => ?_).bind id ?_
    · obtain ⟨v, hv⟩ := hq
      cases hv with
      | name he => exact ⟨_, hs ▸ he⟩
    intro entry hentry
    exact .pure ⟨rfl, hs, hd, .name (hs ▸ hentry)⟩
  | .call a =>
    simp only [List.length_cons] at hB
    have args := a.completes depth (by omega)
    rw [primary.eq_2]
    refine (resolve_completes fun hq => ?_).bind id ?_
    · obtain ⟨v, hv⟩ := hq
      cases hv with
      | call hf _ => exact ⟨_, hs ▸ hf⟩
    intro callee hcallee
    refine (args callee s hs hd).bind (fun hq => ?_) ?_
    · obtain ⟨v, hv⟩ := hq
      cases hv with
      | call _ ha => exact ⟨_, ha⟩
    rintro ⟨v, s1, r1, hr1⟩ ⟨rfl, hs1, hd1, n, args', rfl, hres⟩
    exact .ok ⟨rfl, hs1, hd1, .call (hs ▸ hcallee) hres⟩
  | .paren c =>
    -- the parenthesized expression nests one level deeper, after its `(`
    simp only [List.length_cons] at hB
    have inner := c.completes (ends_of_rparen ⟨_, _, rfl⟩) (depth + 1) (by omega) s hs hd
    rw [primary.eq_def]
    dsimp only
    rw [expression.eq_def]
    refine ((deeper_completes (by omega)).bind id fun depth' h => h ▸ inner).bind id ?_
    rintro ⟨v, s1, r1, hr1⟩ ⟨rfl, hs1, hd1, hres⟩
    dsimp only
    rw [expect_cons]
    exact .ok ⟨rfl, hs1, hd1, hres⟩

theorem CallArgs.completes {ts rest : List Token} {args : List Raw.Expr}
    (g : CallArgs ts args rest) (depth : Nat) (hB : depth + 1 + ts.length ≤ B) (callee : Entry)
    (s : ParseState) {env : Scopes Entry} {d : Nat} (hs : s.scopes = env) (hd : s.decls = d) :
    Completes (∃ args', ResolvedArgs env args args') B
      (fun r : Step ts Expr => Lands env d rest
        (fun v => ∃ n args', v = .call n callee args' ∧ ResolvedArgs env args args')
        r.value r.state r.rest)
      (call stop depth callee s ts) := by
  match g with
  | .none =>
    rw [call.eq_def]
    exact .ok ⟨rfl, hs, hd, _, [], rfl, .nil⟩
  | .some a =>
    have arguments := a.completes ⟨_, _, rfl⟩ depth hB s hs hd
    obtain ⟨t, r, rfl, hstart⟩ := a.head
    -- an argument cannot start with `)`, so the call has arguments
    have hne : ∀ q r', t :: r = ⟨.punct .rparen, q⟩ :: r' → False := by
      rintro q r' h
      cases h
      simp [startsExpr, prefixOp?] at hstart
    rw [call.eq_2 _ _ _ _ _ hne]
    refine arguments.bind id ?_
    rintro ⟨as, s1, r1, hr1⟩ ⟨rfl, hs1, hd1, hres⟩
    dsimp only
    rw [expect_cons]
    exact .ok ⟨rfl, by simpa using hs1, by simpa using hd1, _, _, rfl, hres⟩

theorem Args.completes {ts rest : List Token} {args : List Raw.Expr} (g : Args ts args rest)
    (hr : ∃ q r, rest = ⟨.punct .rparen, q⟩ :: r) (depth : Nat) (hB : depth + 1 + ts.length ≤ B)
    (s : ParseState) {env : Scopes Entry} {d : Nat} (hs : s.scopes = env) (hd : s.decls = d) :
    Completes (∃ args', ResolvedArgs env args args') B
      (fun r : Step ts (List Expr) => Lands env d rest (ResolvedArgs env args) r.value r.state
        r.rest)
      (arguments stop depth s ts) := by
  match g with
  | .one c =>
    have first := c.completes (ends_of_rparen hr) (depth + 1) (by omega) s hs hd
    obtain ⟨q, r, rfl⟩ := hr
    rw [arguments.eq_def, expression.eq_def]
    refine ((deeper_completes (by omega)).bind id fun depth' h => h ▸ first).bind
      (fun hq => ?_) ?_
    · obtain ⟨v, hv⟩ := hq
      cases hv with
      | cons ha _ => exact ⟨_, ha⟩
    rintro ⟨v, s1, r1, hr1⟩ ⟨rfl, hs1, hd1, hres⟩
    exact .ok ⟨rfl, hs1, hd1, .cons hres .nil⟩
  | .cons c a =>
    have first := c.completes (ends_of_punct (by intro l; cases l <;> rfl) (by decide)) (depth + 1)
      (by omega) s hs hd
    have more := a.completes hr depth
      (by have := c.suffix.length_le; simp only [List.length_cons] at this; omega)
    rw [arguments.eq_def, expression.eq_def]
    refine ((deeper_completes (by omega)).bind id fun depth' h => h ▸ first).bind
      (fun hq => ?_) ?_
    · obtain ⟨v, hv⟩ := hq
      cases hv with
      | cons ha _ => exact ⟨_, ha⟩
    rintro ⟨v, s1, r1, hr1⟩ ⟨rfl, hs1, hd1, hres⟩
    dsimp only
    refine (more s1 hs1 hd1).bind (fun hq => ?_) ?_
    · obtain ⟨v, hv⟩ := hq
      cases hv with
      | cons _ ha => exact ⟨_, ha⟩
    rintro ⟨vs, s2, r2, hr2⟩ ⟨rfl, hs2, hd2, hress⟩
    exact .ok ⟨rfl, hs2, hd2, .cons hres hress⟩

end

-- An expression: one nesting level, then a chain of the loosest level.
theorem Chain.expression_completes {ts rest : List Token} {e : Raw.Expr} (c : Chain .or ts e rest)
    (hend : Ends (Level.or.height + 1) rest) (depth : Nat) (hB : depth + 1 + ts.length ≤ B)
    (s : ParseState) {env : Scopes Entry} {d : Nat} (hs : s.scopes = env) (hd : s.decls = d) :
    Completes (∃ v, ResolvedExpr env e v) B
      (fun r : Step ts Expr => Lands env d rest (ResolvedExpr env e) r.value r.state r.rest)
      (expression stop depth s ts) := by
  rw [expression.eq_def]
  exact (deeper_completes (by omega)).bind id fun _ h => h ▸ c.completes hend (depth + 1) hB s hs hd

end Gram

end ScopedC

import ScopedC.Proofs.Failures
namespace ScopedC

open Parse

-- What a parse step gave and where it stopped.
def Step.out {ts : List Token} {α : Type} (b : Step ts α) : (α × ParseState) × List Token :=
  ((b.value, b.state), b.rest)

def Steps.out {ts : List Token} {α : Type} (b : Steps ts α) : (α × ParseState) × List Token :=
  ((b.value, b.state), b.rest)

section Agreement

variable {ε α β₁ β₂ γ δ₁ δ₂ ζ : Type} {u₁ u₂ : List Token}

-- Two parses, of `c ++ u₁` and of `c ++ u₂`, agree inside `c`: wherever the first ends before
-- tokens `d ++ u₁` with `d` not empty, with a value or with a syntax error other than the nesting
-- limit, the second ends the same way before `d ++ u₂`.
def Agrees (out₁ : β₁ → γ × List Token) (out₂ : β₂ → γ × List Token) (u₁ u₂ : List Token)
    (x₁ : Except Failure β₁) (x₂ : Except Failure β₂) : Prop :=
  ∀ d : List Token, d ≠ [] →
    (∀ g, x₁.map out₁ = .ok (g, d ++ u₁) → x₂.map out₂ = .ok (g, d ++ u₂)) ∧
    ∀ se pos st, se ≠ .tooDeep → x₁ = .error ⟨.malformed se pos, st, d ++ u₁⟩ →
      x₂ = .error ⟨.malformed se pos, st, d ++ u₂⟩

-- The failures that another input may meet differently at the same place: the nesting limit,
-- a name that no scope binds, and the internal ones.
def Excluded (e : Failure) : Prop := ∀ se pos, e.error = .malformed se pos → se = .tooDeep

-- Every way a parse ends leaves a suffix of `ρ`, but for the excluded failures.
def Within {β γ : Type} (out : β → γ × List Token) (ρ : List Token) (x : Except Failure β) :
    Prop :=
  (∀ b, x = .ok b → (out b).2 <:+ ρ) ∧ ∀ e, x = .error e → e.rest <:+ ρ ∨ Excluded e

-- A step that reads no token: it gives the same in both parses, or fails with an excluded
-- failure.
def Fixed {α : Type} (x₁ x₂ : Except Failure α) : Prop :=
  (∀ a, x₁ = .ok a → x₂ = .ok a) ∧ ∀ e, x₁ = .error e → Excluded e

-- A tail is never `d ++ u₁` with `d` not empty inside `u₁`.
theorem not_inside {d ρ : List Token} (hd : d ≠ []) (h : d ++ u₁ <:+ ρ) (hρ : ρ <:+ u₁) : False := by
  have := (h.trans hρ).length_le
  simp only [List.length_append] at this
  exact hd (List.eq_nil_of_length_eq_zero (by omega))

theorem not_excluded {se : SyntaxError} {pos : Pos} {st : ParseState} {r : List Token}
    (hse : se ≠ .tooDeep) : ¬ Excluded ⟨.malformed se pos, st, r⟩ :=
  fun h => hse (h se pos rfl)

-- A parse that stays in the tail agrees with any other.
theorem Agrees.of_within {out₁ : β₁ → γ × List Token} {out₂ : β₂ → γ × List Token}
    {x₁ : Except Failure β₁} {x₂ : Except Failure β₂} (h : Within out₁ u₁ x₁) :
    Agrees out₁ out₂ u₁ u₂ x₁ x₂ := by
  intro d hd
  refine ⟨fun g hx => ?_, fun se pos st hse hx => ?_⟩
  · cases x₁ with
    | error e => cases hx
    | ok b =>
      simp only [Except.map, Except.ok.injEq] at hx
      have := h.1 b rfl
      rw [hx] at this
      exact (not_inside hd List.suffix_rfl this).elim
  · rcases h.2 _ hx with hr | hr
    · exact (not_inside hd List.suffix_rfl hr).elim
    · exact (not_excluded hse hr).elim

theorem same_tail {c d : List Token} (h : c ++ u₁ = d ++ u₁) : c ++ u₂ = d ++ u₂ := by
  rw [List.append_cancel_right h]

-- Two parses that fail alike at the same token agree.
theorem Agrees.error_here {out₁ : β₁ → γ × List Token} {out₂ : β₂ → γ × List Token}
    {c : List Token} {err : ParseError} {st : ParseState} :
    Agrees out₁ out₂ u₁ u₂ (.error ⟨err, st, c ++ u₁⟩) (.error ⟨err, st, c ++ u₂⟩) := by
  intro d _
  refine ⟨fun g h => (by cases h), fun se pos st' _ h => ?_⟩
  simp only [Except.error.injEq, Failure.mk.injEq] at h
  obtain ⟨rfl, rfl, h⟩ := h
  rw [List.append_cancel_right h]

theorem Within.bind {out : β₁ → γ × List Token} {o : δ₁ → ζ × List Token} {ρ : List Token}
    {x : Except Failure β₁} {k : β₁ → Except Failure δ₁} (hx : Within out ρ x)
    (hk : ∀ b, x = .ok b → Within o (out b).2 (k b)) : Within o ρ (x >>= k) := by
  cases x with
  | error e =>
    refine ⟨fun b h => (by cases h), fun e' h => ?_⟩
    cases h
    exact hx.2 e rfl
  | ok b =>
    exact ⟨fun b' h => ((hk b rfl).1 b' h).trans (hx.1 b rfl),
      fun e h => ((hk b rfl).2 e h).imp_left (·.trans (hx.1 b rfl))⟩

theorem Within.bind_fixed {o : δ₁ → ζ × List Token} {ρ : List Token} {x : Except Failure α}
    {k : α → Except Failure δ₁} (hx : ∀ e, x = .error e → Excluded e)
    (hk : ∀ a, x = .ok a → Within o ρ (k a)) : Within o ρ (x >>= k) := by
  cases x with
  | error e => exact ⟨fun b h => (by cases h), fun e' h => by cases h; exact .inr (hx e rfl)⟩
  | ok a => exact hk a rfl

theorem Within.pure {o : δ₁ → ζ × List Token} {ρ : List Token} {b : δ₁} (h : (o b).2 <:+ ρ) :
    Within o ρ (Pure.pure b : Except Failure δ₁) := by
  refine ⟨fun b' hb => ?_, fun e he => (by cases he)⟩
  cases hb
  exact h

theorem Within.map {out : β₁ → γ × List Token} {o : δ₁ → ζ × List Token} {ρ : List Token}
    {x : Except Failure β₁} {f : β₁ → δ₁} (hx : Within out ρ x) (hf : ∀ b, (o (f b)).2 = (out b).2) :
    Within o ρ (x.map f) := by
  cases x with
  | error e =>
    refine ⟨fun b h => (by cases h), fun e' h => ?_⟩
    cases h
    exact hx.2 e rfl
  | ok b =>
    refine ⟨fun b' h => ?_, fun e h => (by cases h)⟩
    cases h
    rw [hf]
    exact hx.1 b rfl

-- A parse continued by only repacking what it gave.
theorem Within.bind_pure {out : β₁ → γ × List Token} {o : δ₁ → ζ × List Token} {ρ : List Token}
    {x : Except Failure β₁} {k : β₁ → Except Failure δ₁} (hx : Within out ρ x)
    (hk : ∀ b, ∃ b', k b = Pure.pure b' ∧ (o b').2 = (out b).2) : Within o ρ (x >>= k) := by
  refine hx.bind fun b _ => ?_
  obtain ⟨b', hb, ho⟩ := hk b
  rw [hb]
  exact .pure (ho ▸ List.suffix_refl _)

-- A parse whose every end lies in `t :: u` and that reads at least `t`, stays in `u` but for
-- its failures at `t`.
theorem Within.of_consumes {out : β₁ → γ × List Token} {x : Except Failure β₁} {t : Token}
    (h : Within out (t :: u₁) x) (hlen : ∀ b, x = .ok b → (out b).2.length < (t :: u₁).length)
    (herr : ∀ e, x = .error e → e.rest = t :: u₁ → Excluded e) : Within out u₁ x := by
  refine ⟨fun b hb => ?_, fun e he => ?_⟩
  · rcases List.suffix_cons_iff.1 (h.1 b hb) with heq | hs
    · exact absurd (hlen b hb) (by rw [heq]; exact Nat.lt_irrefl _)
    · exact hs
  · rcases h.2 e he with hs | hx
    · rcases List.suffix_cons_iff.1 hs with heq | hs
      · exact .inr (herr e he heq)
      · exact .inl hs
    · exact .inr hx

-- Sequencing: the first parts agree, and so do the rests wherever the first part of the first
-- parse ended inside `c`; the rest of the first parse consumes from where its first part ended.
theorem Agrees.bind {out₁ : β₁ → γ × List Token} {out₂ : β₂ → γ × List Token}
    {o₁ : δ₁ → ζ × List Token} {o₂ : δ₂ → ζ × List Token}
    {x₁ : Except Failure β₁} {x₂ : Except Failure β₂}
    {k₁ : β₁ → Except Failure δ₁} {k₂ : β₂ → Except Failure δ₂}
    (hx : Agrees out₁ out₂ u₁ u₂ x₁ x₂)
    (hw : ∀ b₁, x₁ = .ok b₁ → Within o₁ (out₁ b₁).2 (k₁ b₁))
    (hk : ∀ b₁ b₂ d, x₁ = .ok b₁ → x₂ = .ok b₂ → d ≠ [] → (out₁ b₁).2 = d ++ u₁ →
      (out₂ b₂).2 = d ++ u₂ → (out₁ b₁).1 = (out₂ b₂).1 → Agrees o₁ o₂ u₁ u₂ (k₁ b₁) (k₂ b₂)) :
    Agrees o₁ o₂ u₁ u₂ (x₁ >>= k₁) (x₂ >>= k₂) := by
  intro d hd
  cases x₁ with
  | error e =>
    refine ⟨fun g h => (by cases h), fun se pos st hse h => ?_⟩
    cases h
    rw [(hx d hd).2 se pos st hse rfl]
    rfl
  | ok b₁ =>
    -- the first part ended before the rest's end, so inside `c` when that is
    have inner : ∀ ρ, ρ <:+ (out₁ b₁).2 → ρ = d ++ u₁ →
        ∃ b₂, x₂ = .ok b₂ ∧ Agrees o₁ o₂ u₁ u₂ (k₁ b₁) (k₂ b₂) := by
      rintro ρ hρ rfl
      obtain ⟨p, hp⟩ := hρ
      have hpd : p ++ d ≠ [] := by simp [hd]
      have hmap := (hx (p ++ d) hpd).1 (out₁ b₁).1
        (by show Except.ok (out₁ b₁) = _; rw [List.append_assoc, hp])
      cases x₂ with
      | error e => cases hmap
      | ok b₂ =>
        simp only [Except.map, Except.ok.injEq] at hmap
        refine ⟨b₂, rfl, hk b₁ b₂ (p ++ d) rfl rfl hpd ?_ (by rw [hmap]) (by rw [hmap])⟩
        rw [← hp, List.append_assoc]
    refine ⟨fun g h => ?_, fun se pos st hse h => ?_⟩
    · rcases hk₁ : k₁ b₁ with e | r
      · erw [pure_bind, hk₁] at h
        cases h
      · erw [pure_bind, hk₁] at h
        simp only [Except.map, Except.ok.injEq] at h
        obtain ⟨b₂, rfl, hagree⟩ := inner _ ((hw b₁ rfl).1 r hk₁) (by rw [h])
        erw [pure_bind]
        exact (hagree d hd).1 g (by rw [hk₁]; simp only [Except.map, h])
    · erw [pure_bind] at h
      rcases (hw b₁ rfl).2 _ h with hρ | hρ
      · obtain ⟨b₂, rfl, hagree⟩ := inner _ hρ rfl
        erw [pure_bind]
        exact (hagree d hd).2 se pos st hse h
      · exact (not_excluded hse hρ).elim

-- A first part that reads no token.
theorem Agrees.bind_fixed {o₁ : δ₁ → ζ × List Token} {o₂ : δ₂ → ζ × List Token}
    {x₁ x₂ : Except Failure α} {k₁ : α → Except Failure δ₁} {k₂ : α → Except Failure δ₂}
    (hx : Fixed x₁ x₂) (hk : ∀ a, x₁ = .ok a → Agrees o₁ o₂ u₁ u₂ (k₁ a) (k₂ a)) :
    Agrees o₁ o₂ u₁ u₂ (x₁ >>= k₁) (x₂ >>= k₂) := by
  cases x₁ with
  | error e =>
    intro d hd
    refine ⟨fun g h => (by cases h), fun se pos st hse h => ?_⟩
    cases h
    exact (not_excluded hse (hx.2 _ rfl)).elim
  | ok a =>
    rw [hx.1 a rfl]
    erw [pure_bind, pure_bind]
    exact hk a rfl

theorem Agrees.pure {out₁ : β₁ → γ × List Token} {out₂ : β₂ → γ × List Token} {b₁ : β₁} {b₂ : β₂}
    (hv : (out₁ b₁).1 = (out₂ b₂).1) (hr : ∀ d, (out₁ b₁).2 = d ++ u₁ → (out₂ b₂).2 = d ++ u₂) :
    Agrees out₁ out₂ u₁ u₂ (Pure.pure b₁ : Except Failure β₁) (Pure.pure b₂) := by
  intro d hd
  refine ⟨fun g h => ?_, fun se pos st _ h => (by cases h)⟩
  simp only [Pure.pure, Except.pure, Except.map, Except.ok.injEq] at h ⊢
  exact Prod.ext (by rw [← hv, h]) (hr d (by rw [h]))

theorem Agrees.map {out₁ : β₁ → γ × List Token} {out₂ : β₂ → γ × List Token}
    {o₁ : δ₁ → γ × List Token} {o₂ : δ₂ → γ × List Token}
    {x₁ : Except Failure β₁} {x₂ : Except Failure β₂} {f₁ : β₁ → δ₁} {f₂ : β₂ → δ₂}
    (hx : Agrees out₁ out₂ u₁ u₂ x₁ x₂) (hf₁ : ∀ b, o₁ (f₁ b) = out₁ b)
    (hf₂ : ∀ b, o₂ (f₂ b) = out₂ b) : Agrees o₁ o₂ u₁ u₂ (x₁.map f₁) (x₂.map f₂) := by
  intro d hd
  refine ⟨fun g h => ?_, fun se pos st hse h => ?_⟩
  · have : x₁.map out₁ = .ok (g, d ++ u₁) := by
      cases x₁ <;> simp_all [Except.map]
    have h₂ := (hx d hd).1 g this
    cases x₂ <;> simp_all [Except.map]
  · cases x₁ with
    | error e =>
      cases h
      rw [(hx d hd).2 se pos st hse rfl]
      rfl
    | ok b => cases h

-- A parse continued by only repacking what it gave, alike in both parses.
theorem Agrees.bind_pure {out₁ : β₁ → γ × List Token} {out₂ : β₂ → γ × List Token}
    {o₁ : δ₁ → ζ × List Token} {o₂ : δ₂ → ζ × List Token}
    {x₁ : Except Failure β₁} {x₂ : Except Failure β₂}
    {k₁ : β₁ → Except Failure δ₁} {k₂ : β₂ → Except Failure δ₂}
    (hx : Agrees out₁ out₂ u₁ u₂ x₁ x₂)
    (hk₁ : ∀ b, ∃ b', k₁ b = Pure.pure b' ∧ (o₁ b').2 = (out₁ b).2)
    (hk₂ : ∀ b, ∃ b', k₂ b = Pure.pure b' ∧ (o₂ b').2 = (out₂ b).2)
    (hv : ∀ b₁ b₂ b₁' b₂', (out₁ b₁).1 = (out₂ b₂).1 → k₁ b₁ = Pure.pure b₁' →
      k₂ b₂ = Pure.pure b₂' → (o₁ b₁').1 = (o₂ b₂').1) :
    Agrees o₁ o₂ u₁ u₂ (x₁ >>= k₁) (x₂ >>= k₂) := by
  refine hx.bind (fun b₁ _ => ?_) fun b₁ b₂ d _ _ _ h₁ h₂ hv' => ?_
  · obtain ⟨b', hb, ho⟩ := hk₁ b₁
    rw [hb]
    exact .pure (ho ▸ List.suffix_refl _)
  · obtain ⟨b₁', hb₁, ho₁⟩ := hk₁ b₁
    obtain ⟨b₂', hb₂, ho₂⟩ := hk₂ b₂
    rw [hb₁, hb₂]
    refine .pure (hv b₁ b₂ b₁' b₂' hv' hb₁ hb₂) fun d' h => ?_
    rw [ho₁, h₁] at h
    rw [ho₂, h₂]
    exact same_tail h

end Agreement

-- What a reader of one mark, or of a name or a type, gave and where it stopped.
def shorterOut {ts : List Token} (r : Shorter ts) : Unit × List Token := ((), r.val)

def readOut {ts : List Token} {α : Type} (b : α × Shorter ts) : α × List Token := (b.1, b.2.val)

section Shapes

variable {α δ₁ δ₂ ζ : Type} {u₁ u₂ ts₁ ts₂ : List Token}
  {o₁ : δ₁ → ζ × List Token} {o₂ : δ₂ → ζ × List Token}

-- Sequencing after a first part that gives a parse step, a loop's result, a mark or a read
-- token: the rests are taken apart once here, for every parser that sequences such a part.
theorem Agrees.bind_step {x₁ : Except Failure (Step ts₁ α)} {x₂ : Except Failure (Step ts₂ α)}
    {k₁ : Step ts₁ α → Except Failure δ₁} {k₂ : Step ts₂ α → Except Failure δ₂}
    (hx : Agrees Step.out Step.out u₁ u₂ x₁ x₂)
    (hw : ∀ v st r h, Within o₁ r (k₁ ⟨v, st, r, h⟩))
    (hk : ∀ v st d h₁ h₂, d ≠ [] → Agrees o₁ o₂ u₁ u₂ (k₁ ⟨v, st, d ++ u₁, h₁⟩)
      (k₂ ⟨v, st, d ++ u₂, h₂⟩)) :
    Agrees o₁ o₂ u₁ u₂ (x₁ >>= k₁) (x₂ >>= k₂) := by
  refine hx.bind (fun b _ => hw b.value b.state b.rest b.shorter) fun b₁ b₂ d _ _ hd h₁ h₂ hv => ?_
  obtain ⟨v, st, r, h⟩ := b₁
  obtain ⟨v', st', r', h'⟩ := b₂
  simp only [Step.out, Prod.mk.injEq] at h₁ h₂ hv
  obtain ⟨rfl, rfl⟩ := hv
  subst h₁ h₂
  exact hk v st d h h' hd

theorem Agrees.bind_steps {x₁ : Except Failure (Steps ts₁ α)} {x₂ : Except Failure (Steps ts₂ α)}
    {k₁ : Steps ts₁ α → Except Failure δ₁} {k₂ : Steps ts₂ α → Except Failure δ₂}
    (hx : Agrees Steps.out Steps.out u₁ u₂ x₁ x₂)
    (hw : ∀ v st r h, Within o₁ r (k₁ ⟨v, st, r, h⟩))
    (hk : ∀ v st d h₁ h₂, d ≠ [] → Agrees o₁ o₂ u₁ u₂ (k₁ ⟨v, st, d ++ u₁, h₁⟩)
      (k₂ ⟨v, st, d ++ u₂, h₂⟩)) :
    Agrees o₁ o₂ u₁ u₂ (x₁ >>= k₁) (x₂ >>= k₂) := by
  refine hx.bind (fun b _ => hw b.value b.state b.rest b.le) fun b₁ b₂ d _ _ hd h₁ h₂ hv => ?_
  obtain ⟨v, st, r, h⟩ := b₁
  obtain ⟨v', st', r', h'⟩ := b₂
  simp only [Steps.out, Prod.mk.injEq] at h₁ h₂ hv
  obtain ⟨rfl, rfl⟩ := hv
  subst h₁ h₂
  exact hk v st d h h' hd

theorem Agrees.bind_shorter {x₁ : Except Failure (Shorter ts₁)} {x₂ : Except Failure (Shorter ts₂)}
    {k₁ : Shorter ts₁ → Except Failure δ₁} {k₂ : Shorter ts₂ → Except Failure δ₂}
    (hx : Agrees shorterOut shorterOut u₁ u₂ x₁ x₂)
    (hw : ∀ r h, Within o₁ r (k₁ ⟨r, h⟩))
    (hk : ∀ d h₁ h₂, d ≠ [] → Agrees o₁ o₂ u₁ u₂ (k₁ ⟨d ++ u₁, h₁⟩) (k₂ ⟨d ++ u₂, h₂⟩)) :
    Agrees o₁ o₂ u₁ u₂ (x₁ >>= k₁) (x₂ >>= k₂) := by
  refine hx.bind (fun b _ => hw b.val b.property) fun b₁ b₂ d _ _ hd h₁ h₂ _ => ?_
  obtain ⟨r, h⟩ := b₁
  obtain ⟨r', h'⟩ := b₂
  simp only [shorterOut] at h₁ h₂
  subst h₁ h₂
  exact hk d h h' hd

theorem Agrees.bind_read {x₁ : Except Failure (α × Shorter ts₁)}
    {x₂ : Except Failure (α × Shorter ts₂)}
    {k₁ : α × Shorter ts₁ → Except Failure δ₁} {k₂ : α × Shorter ts₂ → Except Failure δ₂}
    (hx : Agrees readOut readOut u₁ u₂ x₁ x₂)
    (hw : ∀ a r h, Within o₁ r (k₁ (a, ⟨r, h⟩)))
    (hk : ∀ a d h₁ h₂, d ≠ [] → Agrees o₁ o₂ u₁ u₂ (k₁ (a, ⟨d ++ u₁, h₁⟩)) (k₂ (a, ⟨d ++ u₂, h₂⟩))) :
    Agrees o₁ o₂ u₁ u₂ (x₁ >>= k₁) (x₂ >>= k₂) := by
  refine hx.bind (fun b _ => hw b.1 b.2.val b.2.property) fun b₁ b₂ d _ _ hd h₁ h₂ hv => ?_
  obtain ⟨a, r, h⟩ := b₁
  obtain ⟨a', r', h'⟩ := b₂
  simp only [readOut] at h₁ h₂ hv
  subst h₁ h₂ hv
  exact hk a d h h' hd

theorem Within.bind_step {ρ : List Token} {x : Except Failure (Step ts₁ α)}
    {k : Step ts₁ α → Except Failure δ₁} (hx : Within Step.out ρ x)
    (hk : ∀ v st r h, Within o₁ r (k ⟨v, st, r, h⟩)) : Within o₁ ρ (x >>= k) :=
  hx.bind fun b _ => hk b.value b.state b.rest _

theorem Within.bind_steps {ρ : List Token} {x : Except Failure (Steps ts₁ α)}
    {k : Steps ts₁ α → Except Failure δ₁} (hx : Within Steps.out ρ x)
    (hk : ∀ v st r h, Within o₁ r (k ⟨v, st, r, h⟩)) : Within o₁ ρ (x >>= k) :=
  hx.bind fun b _ => hk b.value b.state b.rest _

theorem Within.bind_shorter {ρ : List Token} {x : Except Failure (Shorter ts₁)}
    {k : Shorter ts₁ → Except Failure δ₁} (hx : Within shorterOut ρ x)
    (hk : ∀ r h, Within o₁ r (k ⟨r, h⟩)) : Within o₁ ρ (x >>= k) :=
  hx.bind fun b _ => hk b.val b.property

theorem Within.bind_read {ρ : List Token} {x : Except Failure (α × Shorter ts₁)}
    {k : α × Shorter ts₁ → Except Failure δ₁} (hx : Within readOut ρ x)
    (hk : ∀ a r h, Within o₁ r (k (a, ⟨r, h⟩))) : Within o₁ ρ (x >>= k) :=
  hx.bind fun b _ => hk b.1 b.2.val b.2.property

end Shapes

section Readers

variable {stop : Pos} {s : ParseState} {ts : List Token} {u₁ u₂ : List Token}

theorem Within.mono {β γ : Type} {out : β → γ × List Token} {ρ ρ' : List Token}
    {x : Except Failure β} (h : Within out ρ x) (hρ : ρ <:+ ρ') : Within out ρ' x :=
  ⟨fun b hb => (h.1 b hb).trans hρ, fun e he => (h.2 e he).imp_left (·.trans hρ)⟩

theorem expect_within {p : Punct} {site : Site} : Within shorterOut ts (expect stop s p site ts) := by
  refine ⟨fun b h => ?_, fun e h => .inl (expect_located h).1⟩
  obtain ⟨r, hr⟩ := b
  obtain ⟨q, rfl⟩ := expect_ok h
  exact List.suffix_cons _ _

theorem expectIdent_within : Within readOut ts (expectIdent stop s ts) := by
  refine ⟨fun b h => ?_, fun e h => .inl (expectIdent_located h).1⟩
  obtain ⟨name, r, hr⟩ := b
  obtain ⟨q, rfl⟩ := expectIdent_ok h
  exact List.suffix_cons _ _

theorem type_within : Within readOut ts (type stop s ts) :=
  ⟨fun _ h => (type_ok h).suffix, fun _ h => .inl (type_located h).1⟩

theorem expect_agrees {p : Punct} {site : Site} (c : List Token) :
    Agrees shorterOut shorterOut u₁ u₂ (expect stop s p site (c ++ u₁))
      (expect stop s p site (c ++ u₂)) := by
  rcases c with _ | ⟨t, c₀⟩
  · exact .of_within expect_within
  · simp only [List.cons_append, expect]
    split
    · exact .pure rfl fun d h => same_tail h
    · exact .error_here (c := t :: c₀)

theorem expectIdent_agrees (c : List Token) :
    Agrees readOut readOut u₁ u₂ (expectIdent stop s (c ++ u₁)) (expectIdent stop s (c ++ u₂)) := by
  rcases c with _ | ⟨⟨k, p⟩, c₀⟩
  · exact .of_within expectIdent_within
  · cases k
    case ident name => exact .pure rfl fun d h => same_tail h
    all_goals exact .error_here (c := ⟨_, p⟩ :: c₀)

-- The type reader decides on the first token, and after `const` on the second.
theorem readType?_append (t : Token) (c₀ u : List Token) (h : t.kind = .keyword .constKw → c₀ ≠ []) :
    (readType? (t :: (c₀ ++ u))).map readOut =
      (readType? (t :: c₀)).map fun b => (b.1, b.2.val ++ u) := by
  obtain ⟨k, p⟩ := t
  cases k
  case keyword kw =>
    cases kw
    case constKw =>
      obtain ⟨⟨k', q⟩, c₁, rfl⟩ := List.exists_cons_of_ne_nil (h rfl)
      cases k'
      case keyword kw' => cases kw' <;> simp [readType?, readOut]
      all_goals simp [readType?, readOut]
    all_goals simp [readType?, readOut]
  all_goals simp [readType?]

theorem readType?_const {p : Pos} (r : List Token) :
    (readType? (⟨.keyword .constKw, p⟩ :: r)).isSome := by
  rcases r with _ | ⟨⟨k, q⟩, r⟩
  · simp [readType?]
  · cases k
    case keyword kw => cases kw <;> simp [readType?]
    all_goals simp [readType?]

theorem type_agrees (c : List Token) :
    Agrees readOut readOut u₁ u₂ (type stop s (c ++ u₁)) (type stop s (c ++ u₂)) := by
  rcases c with _ | ⟨t, c₀⟩
  · exact .of_within type_within
  by_cases hc : t.kind = .keyword .constKw → c₀ ≠ []
  · have e₁ := readType?_append t c₀ u₁ hc
    have e₂ := readType?_append t c₀ u₂ hc
    simp only [List.cons_append, type]
    rcases h₀ : readType? (t :: c₀) with _ | ⟨ty, r, hr⟩
    · rw [h₀, Option.map_none, Option.map_eq_none_iff] at e₁ e₂
      rw [e₁, e₂]
      exact .error_here (c := t :: c₀)
    · rw [h₀, Option.map_some, Option.map_eq_some_iff] at e₁ e₂
      obtain ⟨b₁, hb₁, hv₁⟩ := e₁
      obtain ⟨b₂, hb₂, hv₂⟩ := e₂
      rw [hb₁, hb₂]
      refine .pure (by simp only [hv₁, hv₂]) fun d hd => ?_
      rw [hv₂]
      rw [hv₁] at hd
      exact same_tail hd
  · -- after a lone `const` the tail decides whether an `int` belongs to the type; either way the
    -- type ends in the tail
    obtain ⟨k, p⟩ := t
    simp only [Classical.not_imp, not_not] at hc
    obtain ⟨hk, rfl⟩ := hc
    subst hk
    refine .of_within (type_within.of_consumes (fun b _ => b.2.2) fun e he _ => ?_)
    have := readType?_const (p := p) u₁
    simp only [type] at he
    split at he
    · cases he
    · simp_all

theorem deeper_excluded {depth : Nat} {e : Failure} (h : deeper stop depth s ts = .error e) :
    Excluded e := by
  unfold deeper at h
  split at h
  · cases h
  · cases h
    intro se pos he
    simp only [failAt, ParseError.malformed.injEq] at he
    exact he.1.symm

theorem resolve_excluded {name : String} {pos : Pos} {e : Failure}
    (h : s.resolve name pos ts = .error e) : Excluded e := by
  unfold ParseState.resolve at h
  split at h
  · cases h
  · cases h
    intro se pos he
    cases he

theorem exit_excluded {e : Failure} (h : s.exit ts = .error e) : Excluded e := by
  unfold ParseState.exit at h
  split at h
  · cases h
  · cases h
    intro se pos he
    cases he

theorem deeper_fixed {depth : Nat} {ts₁ ts₂ : List Token} :
    Fixed (deeper stop depth s ts₁) (deeper stop depth s ts₂) := by
  refine ⟨fun a h => ?_, fun e h => deeper_excluded h⟩
  unfold deeper at h ⊢
  split at h
  · rwa [if_pos (by assumption)]
  · cases h

theorem resolve_fixed {name : String} {pos : Pos} {ts₁ ts₂ : List Token} :
    Fixed (s.resolve name pos ts₁) (s.resolve name pos ts₂) := by
  refine ⟨fun a h => ?_, fun e h => resolve_excluded h⟩
  unfold ParseState.resolve at h ⊢
  split at h
  · exact h
  · cases h

theorem exit_fixed {ts₁ ts₂ : List Token} : Fixed (s.exit ts₁) (s.exit ts₂) := by
  refine ⟨fun a h => ?_, fun e h => exit_excluded h⟩
  unfold ParseState.exit at h ⊢
  split at h
  · exact h
  · cases h

end Readers

section ExprWithin

variable {stop : Pos} {depth : Nat} {s : ParseState} {ts : List Token}

theorem expression_within : Within Step.out ts (expression stop depth s ts) :=
  ⟨fun _ h => by obtain ⟨_, g, -⟩ := ((exprSound stop ts).expression h).phrase; exact g.suffix,
    fun _ h => .inl ((exprFails stop ts).expression h).1⟩

theorem unary_within : Within Step.out ts (unary stop depth s ts) :=
  ⟨fun _ h => by obtain ⟨_, g, -⟩ := ((exprSound stop ts).unary h).phrase; exact g.suffix,
    fun _ h => .inl ((exprFails stop ts).unary h).1⟩

theorem primary_within : Within Step.out ts (primary stop depth s ts) :=
  ⟨fun _ h => by obtain ⟨_, g, -⟩ := ((exprSound stop ts).primary h).phrase; exact g.suffix,
    fun _ h => .inl ((exprFails stop ts).primary h).1⟩

theorem call_within {callee : Entry} : Within Step.out ts (call stop depth callee s ts) :=
  ⟨fun _ h => by obtain ⟨_, g, -⟩ := ((exprSound stop ts).call h).phrase; exact g.suffix,
    fun _ h => .inl ((exprFails stop ts).call h).1⟩

theorem arguments_within : Within Step.out ts (arguments stop depth s ts) :=
  ⟨fun _ h => by obtain ⟨_, g, -⟩ := ((exprSound stop ts).arguments h).phrase; exact g.suffix,
    fun _ h => .inl ((exprFails stop ts).arguments h).1⟩

theorem links_within {lvl : Level} {left : Expr} :
    Within Steps.out ts (links stop depth lvl left s ts) := by
  refine ⟨fun b h => ?_, fun _ h => .inl ((exprFails stop ts).links h).1⟩
  -- each link reads an operator and an operand, and the links go on after them
  induction ts using tokens_induction generalizing depth left s with
  | shorter ts ih =>
    rw [links.eq_def] at h
    split at h
    · rename_i t rest
      split at h
      · obtain ⟨depth', -, h⟩ := bind_eq_ok h
        obtain ⟨⟨right, s1, r1, hr1⟩, hright, h⟩ := bind_eq_ok h
        obtain ⟨⟨e, s2, r2, hr2⟩, hlinks, h⟩ := bind_eq_ok h
        cases h
        obtain ⟨_, g, -⟩ := ((exprSound stop rest).operand hright).phrase
        have more := ih r1 (by simp only [List.length_cons]; omega) _ hlinks
        exact (more.trans g.suffix).trans (List.suffix_cons _ _)
      · cases h
        exact List.suffix_refl _
    · cases h
      exact List.suffix_refl _

end ExprWithin

-- The locality of every expression parser on the inputs that start with `c`.
structure ExprAgrees (stop : Pos) (c : List Token) : Prop where
  expression {depth : Nat} {s : ParseState} {u₁ u₂ : List Token} :
    Agrees Step.out Step.out u₁ u₂ (expression stop depth s (c ++ u₁))
      (expression stop depth s (c ++ u₂))
  chain {depth : Nat} {lvl : Level} {s : ParseState} {u₁ u₂ : List Token} :
    Agrees Step.out Step.out u₁ u₂ (chain stop depth lvl s (c ++ u₁))
      (chain stop depth lvl s (c ++ u₂))
  operand {depth : Nat} {lvl : Level} {s : ParseState} {u₁ u₂ : List Token} :
    Agrees Step.out Step.out u₁ u₂ (operand stop depth lvl s (c ++ u₁))
      (operand stop depth lvl s (c ++ u₂))
  links {depth : Nat} {lvl : Level} {left : Expr} {s : ParseState} {u₁ u₂ : List Token} :
    Agrees Steps.out Steps.out u₁ u₂ (links stop depth lvl left s (c ++ u₁))
      (links stop depth lvl left s (c ++ u₂))
  unary {depth : Nat} {s : ParseState} {u₁ u₂ : List Token} :
    Agrees Step.out Step.out u₁ u₂ (unary stop depth s (c ++ u₁)) (unary stop depth s (c ++ u₂))
  primary {depth : Nat} {s : ParseState} {u₁ u₂ : List Token} :
    Agrees Step.out Step.out u₁ u₂ (primary stop depth s (c ++ u₁))
      (primary stop depth s (c ++ u₂))
  call {depth : Nat} {callee : Entry} {s : ParseState} {u₁ u₂ : List Token} :
    Agrees Step.out Step.out u₁ u₂ (call stop depth callee s (c ++ u₁))
      (call stop depth callee s (c ++ u₂))
  arguments {depth : Nat} {s : ParseState} {u₁ u₂ : List Token} :
    Agrees Step.out Step.out u₁ u₂ (arguments stop depth s (c ++ u₁))
      (arguments stop depth s (c ++ u₂))

-- A parse that read at least one token of `c ++ u` and stopped before `d ++ u` had `d` shorter
-- than `c`.
theorem shorter_inside {c d u r ts : List Token} (hr : r.length < ts.length) (hts : ts = c ++ u)
    (h : r = d ++ u) : d.length < c.length := by
  subst hts h
  simp only [List.length_append] at hr
  omega

-- A failure of a primary on a name at the name itself is the name unbound.
theorem primary_name_failure {stop : Pos} {depth : Nat} {s : ParseState} {name : String}
    {pos : Pos} {r : List Token} {e : Failure}
    (h : primary stop depth s (⟨.ident name, pos⟩ :: r) = .error e)
    (he : e.rest = ⟨.ident name, pos⟩ :: r) : Excluded e := by
  by_cases hcall : ∃ q r', r = ⟨.punct .lparen, q⟩ :: r'
  · -- a call fails on its name only when the callee is unbound
    obtain ⟨q, r', rfl⟩ := hcall
    rw [primary.eq_2] at h
    rcases bind_eq_error h with h | ⟨callee, -, h⟩
    · exact resolve_excluded h
    rcases bind_eq_error h with h | ⟨_, -, h⟩
    · have := ((exprFails stop _).call h).1.length_le
      rw [he] at this
      simp only [List.length_cons] at this
      omega
    · cases h
  · rw [primary.eq_3 _ _ _ _ _ _ fun q r' hr => hcall ⟨q, r', hr⟩] at h
    rcases bind_eq_error h with h | ⟨_, -, h⟩
    · exact resolve_excluded h
    · cases h

-- A token that starts no primary is a syntax error there.
theorem primary_other {stop : Pos} {depth : Nat} {s : ParseState} {t : Token} {r : List Token}
    (hnum : ∀ v, t.kind ≠ .num v) (hident : ∀ x, t.kind ≠ .ident x)
    (hparen : t.kind ≠ .punct .lparen) :
    primary stop depth s (t :: r) = .error (unexpected stop s (t :: r) .expression) := by
  obtain ⟨k, p⟩ := t
  rw [primary.eq_5]
  · intro v _ _ h
    cases h
    exact hnum v rfl
  · intro x _ _ _ h
    cases h
    exact hident x rfl
  · intro x _ _ h
    cases h
    exact hident x rfl
  · intro _ _ h
    cases h
    exact hparen rfl

section ExprSameInput

variable {stop : Pos} {c u₁ u₂ : List Token}

theorem operand_agrees_of_chain {depth : Nat} {lvl : Level} {s : ParseState}
    (hchain : ∀ {l : Level} {depth : Nat} {s : ParseState}, lvl.tighter? = some l →
      Agrees Step.out Step.out u₁ u₂ (chain stop depth l s (c ++ u₁)) (chain stop depth l s (c ++ u₂)))
    (hunary : ∀ {depth : Nat} {s : ParseState}, Agrees Step.out Step.out u₁ u₂
      (unary stop depth s (c ++ u₁)) (unary stop depth s (c ++ u₂))) :
    Agrees Step.out Step.out u₁ u₂ (operand stop depth lvl s (c ++ u₁))
      (operand stop depth lvl s (c ++ u₂)) := by
  rw [operand.eq_def, operand.eq_def]
  split
  · rename_i l hl
    exact hchain hl
  · exact hunary

theorem expression_agrees_of_chain {depth : Nat} {s : ParseState}
    (hchain : ∀ {depth : Nat}, Agrees Step.out Step.out u₁ u₂ (chain stop depth .or s (c ++ u₁))
      (chain stop depth .or s (c ++ u₂))) :
    Agrees Step.out Step.out u₁ u₂ (expression stop depth s (c ++ u₁))
      (expression stop depth s (c ++ u₂)) := by
  rw [expression.eq_def, expression.eq_def]
  exact Agrees.bind_fixed deeper_fixed fun _ _ => hchain

end ExprSameInput

section ExprAgreement

variable {stop : Pos} {c u₁ u₂ : List Token}
variable (ih : ∀ c', c'.length < c.length → ExprAgrees stop c')
include ih

theorem links_agrees {depth : Nat} {lvl : Level} {left : Expr} {s : ParseState} :
    Agrees Steps.out Steps.out u₁ u₂ (links stop depth lvl left s (c ++ u₁))
      (links stop depth lvl left s (c ++ u₂)) := by
  rcases c with _ | ⟨t, c₀⟩
  · exact .of_within links_within
  simp only [List.cons_append, links.eq_1]
  cases hop : lvl.binOp? t.kind with
  | none => exact .pure rfl fun d h => same_tail (c := t :: c₀) h
  | some op =>
    refine Agrees.bind_fixed deeper_fixed fun depth' _ => ?_
    refine Agrees.bind (ih c₀ (by simp)).operand (fun b₁ _ => ?_)
      (fun b₁ b₂ d _ _ _ h₁ h₂ hv => ?_)
    · obtain ⟨right, s1, r1, hr1⟩ := b₁
      exact links_within.bind_pure fun _ => ⟨_, rfl, rfl⟩
    · obtain ⟨right, s1, r1, hr1⟩ := b₁
      obtain ⟨right', s1', r1', hr1'⟩ := b₂
      simp only [Step.out, Prod.mk.injEq] at h₁ h₂ hv
      obtain ⟨rfl, rfl⟩ := hv
      subst h₁ h₂
      have hd : d.length < (t :: c₀).length := by
        have := shorter_inside hr1 rfl rfl
        simp only [List.length_cons]
        omega
      exact (ih d hd).links.bind_pure (fun _ => ⟨_, rfl, rfl⟩)
        (fun _ => ⟨_, rfl, rfl⟩)
        fun b₁ b₂ _ _ hv h₁ h₂ => by cases b₁; cases b₂; cases hv; cases h₁; cases h₂; rfl

theorem primary_agrees {depth : Nat} {s : ParseState} :
    Agrees Step.out Step.out u₁ u₂ (primary stop depth s (c ++ u₁))
      (primary stop depth s (c ++ u₂)) := by
  rcases c with _ | ⟨⟨k, p⟩, c₀⟩
  · exact .of_within primary_within
  cases k
  case num v =>
    simp only [List.cons_append, primary.eq_1]
    exact .pure rfl fun d h => same_tail (c := c₀) h
  case ident name =>
    rcases c₀ with _ | ⟨a, c₁⟩
    · -- a lone name: the tail decides whether a call follows, and either way the primary ends in
      -- the tail unless the name is unbound
      exact .of_within (primary_within.of_consumes (fun b _ => b.shorter)
        fun e he hr => primary_name_failure he hr)
    by_cases hcall : ∃ q, a = ⟨.punct .lparen, q⟩
    · obtain ⟨q, rfl⟩ := hcall
      simp only [List.cons_append, primary.eq_2]
      refine Agrees.bind_fixed resolve_fixed fun callee _ => ?_
      exact (ih c₁ (by simp only [List.length_cons]; omega)).call.bind_pure (fun _ => ⟨_, rfl, rfl⟩)
        (fun _ => ⟨_, rfl, rfl⟩)
        fun b₁ b₂ _ _ hv h₁ h₂ => by cases b₁; cases b₂; cases hv; cases h₁; cases h₂; rfl
    · have hne : ∀ u q r', a :: (c₁ ++ u) = ⟨.punct .lparen, q⟩ :: r' → False :=
        fun _ q _ h => hcall ⟨q, (List.cons.inj h).1⟩
      simp only [List.cons_append]
      rw [primary.eq_3 _ _ _ _ _ _ (hne u₁), primary.eq_3 _ _ _ _ _ _ (hne u₂)]
      refine Agrees.bind_fixed resolve_fixed fun entry _ => ?_
      exact .pure rfl fun d h => same_tail (c := a :: c₁) h
  case punct pu =>
    by_cases hpu : pu = .lparen
    · subst hpu
      simp only [List.cons_append, primary.eq_4]
      refine Agrees.bind (ih c₀ (by simp)).expression (fun b₁ _ => ?_)
        fun b₁ b₂ d _ _ _ h₁ h₂ hv => ?_
      · obtain ⟨_, _, _, _⟩ := b₁
        exact expect_within.bind_pure fun _ => ⟨_, rfl, rfl⟩
      · obtain ⟨e, s1, r1, hr1⟩ := b₁
        obtain ⟨e', s1', r1', hr1'⟩ := b₂
        simp only [Step.out, Prod.mk.injEq] at h₁ h₂ hv
        obtain ⟨rfl, rfl⟩ := hv
        subst h₁ h₂
        exact (expect_agrees d).bind_pure (fun _ => ⟨_, rfl, rfl⟩) (fun _ => ⟨_, rfl, rfl⟩)
          fun b₁ b₂ _ _ _ h₁ h₂ => by cases b₁; cases b₂; cases h₁; cases h₂; rfl
    · have hk : TokenKind.punct pu ≠ .punct .lparen := by simpa using hpu
      simp only [List.cons_append]
      rw [primary_other (t := ⟨.punct pu, p⟩) (by simp) (by simp) hk,
        primary_other (t := ⟨.punct pu, p⟩) (by simp) (by simp) hk]
      exact .error_here (c := ⟨.punct pu, p⟩ :: c₀)
  case keyword kw =>
    simp only [List.cons_append]
    rw [primary_other (t := ⟨.keyword kw, p⟩) (by simp) (by simp) (by simp),
      primary_other (t := ⟨.keyword kw, p⟩) (by simp) (by simp) (by simp)]
    exact .error_here (c := ⟨.keyword kw, p⟩ :: c₀)
  case eof =>
    simp only [List.cons_append]
    rw [primary_other (t := ⟨.eof, p⟩) (by simp) (by simp) (by simp),
      primary_other (t := ⟨.eof, p⟩) (by simp) (by simp) (by simp)]
    exact .error_here (c := ⟨.eof, p⟩ :: c₀)

theorem unary_agrees {depth : Nat} {s : ParseState}
    (hprim : ∀ {depth : Nat} {s : ParseState}, Agrees Step.out Step.out u₁ u₂
      (primary stop depth s (c ++ u₁)) (primary stop depth s (c ++ u₂))) :
    Agrees Step.out Step.out u₁ u₂ (unary stop depth s (c ++ u₁)) (unary stop depth s (c ++ u₂)) := by
  rcases c with _ | ⟨t, c₀⟩
  · exact .of_within unary_within
  simp only [List.cons_append, unary.eq_1]
  cases hop : prefixOp? t.kind with
  | none => exact hprim
  | some op =>
    refine Agrees.bind_fixed deeper_fixed fun depth' _ => ?_
    exact (ih c₀ (by simp)).unary.bind_pure (fun _ => ⟨_, rfl, rfl⟩)
      (fun _ => ⟨_, rfl, rfl⟩)
      fun b₁ b₂ _ _ hv h₁ h₂ => by cases b₁; cases b₂; cases hv; cases h₁; cases h₂; rfl

theorem chain_agrees {depth : Nat} {lvl : Level} {s : ParseState}
    (hunary : ∀ {depth : Nat} {s : ParseState}, Agrees Step.out Step.out u₁ u₂
      (unary stop depth s (c ++ u₁)) (unary stop depth s (c ++ u₂))) :
    Agrees Step.out Step.out u₁ u₂ (chain stop depth lvl s (c ++ u₁))
      (chain stop depth lvl s (c ++ u₂)) := by
  -- by induction from the tightest level out: an operand is a chain one level tighter
  induction lvl using Level.tighter_induction generalizing depth s with
  | step lvl ihl =>
    rw [chain.eq_def, chain.eq_def]
    refine Agrees.bind (operand_agrees_of_chain (fun hl => ihl _ hl) hunary)
      (fun b₁ _ => ?_) fun b₁ b₂ d _ _ _ h₁ h₂ hv => ?_
    · obtain ⟨_, _, _, _⟩ := b₁
      exact links_within.bind_pure fun _ => ⟨_, rfl, rfl⟩
    · obtain ⟨left, s1, r1, hr1⟩ := b₁
      obtain ⟨left', s1', r1', hr1'⟩ := b₂
      simp only [Step.out, Prod.mk.injEq] at h₁ h₂ hv
      obtain ⟨rfl, rfl⟩ := hv
      subst h₁ h₂
      exact (ih d (shorter_inside hr1 rfl rfl)).links.bind_pure (fun _ => ⟨_, rfl, rfl⟩)
        (fun _ => ⟨_, rfl, rfl⟩)
        fun b₁ b₂ _ _ hv h₁ h₂ => by cases b₁; cases b₂; cases hv; cases h₁; cases h₂; rfl

theorem arguments_agrees_of_expression {depth : Nat} {s : ParseState}
    (hexpr : ∀ {s : ParseState}, Agrees Step.out Step.out u₁ u₂ (expression stop depth s (c ++ u₁))
      (expression stop depth s (c ++ u₂))) :
    Agrees Step.out Step.out u₁ u₂ (arguments stop depth s (c ++ u₁))
      (arguments stop depth s (c ++ u₂)) := by
  rw [arguments.eq_def, arguments.eq_def]
  refine Agrees.bind hexpr (fun b₁ _ => ?_) fun b₁ b₂ d _ _ hd h₁ h₂ hv => ?_
  · obtain ⟨e, s1, r1, hr1⟩ := b₁
    dsimp only
    split
    · exact Within.mono (arguments_within.bind_pure fun _ => ⟨_, rfl, rfl⟩)
        (List.suffix_cons _ _)
    · exact .pure (List.suffix_refl _)
  · obtain ⟨e, s1, r1, hr1⟩ := b₁
    obtain ⟨e', s1', r1', hr1'⟩ := b₂
    simp only [Step.out, Prod.mk.injEq] at h₁ h₂ hv
    obtain ⟨rfl, rfl⟩ := hv
    subst h₁ h₂
    -- the first argument ended inside `c`, so both parses see the same token after it
    obtain ⟨⟨k, q⟩, d₀, rfl⟩ := List.exists_cons_of_ne_nil hd
    by_cases hk : k = .punct .comma
    · subst hk
      have hd₀ : d₀.length < c.length := by
        have := shorter_inside hr1 rfl rfl
        simp only [List.length_cons] at this
        omega
      exact (ih d₀ hd₀).arguments.bind_pure (fun _ => ⟨_, rfl, rfl⟩)
        (fun _ => ⟨_, rfl, rfl⟩)
        fun b₁ b₂ _ _ hv h₁ h₂ => by cases b₁; cases b₂; cases hv; cases h₁; cases h₂; rfl
    · -- any other token ends the arguments in both parses
      dsimp only
      split
      · rename_i heq _
        simp only [List.cons_append, List.cons.injEq, Token.mk.injEq] at heq
        exact absurd heq.1.1 hk
      · split
        · rename_i heq _
          simp only [List.cons_append, List.cons.injEq, Token.mk.injEq] at heq
          exact absurd heq.1.1 hk
        · exact .pure rfl fun d' h => same_tail (c := ⟨k, q⟩ :: d₀) h

theorem call_agrees_of_arguments {depth : Nat} {callee : Entry} {s : ParseState}
    (hargs : ∀ {s : ParseState}, Agrees Step.out Step.out u₁ u₂ (arguments stop depth s (c ++ u₁))
      (arguments stop depth s (c ++ u₂))) :
    Agrees Step.out Step.out u₁ u₂ (call stop depth callee s (c ++ u₁))
      (call stop depth callee s (c ++ u₂)) := by
  rcases c with _ | ⟨⟨k, p⟩, c₀⟩
  · exact .of_within call_within
  simp only [List.cons_append]
  by_cases hk : k = .punct .rparen
  · subst hk
    rw [call.eq_1, call.eq_1]
    exact .pure rfl fun d h => same_tail (c := c₀) h
  have hne : ∀ u q r, ⟨k, p⟩ :: (c₀ ++ u) = ⟨.punct .rparen, q⟩ :: r → False :=
    fun _ _ _ h => hk (by cases h; rfl)
  rw [call.eq_2 _ _ _ _ _ (hne u₁), call.eq_2 _ _ _ _ _ (hne u₂)]
  refine Agrees.bind hargs (fun b₁ _ => ?_) fun b₁ b₂ d _ _ _ h₁ h₂ hv => ?_
  · obtain ⟨_, _, _, _⟩ := b₁
    exact expect_within.bind_pure fun _ => ⟨_, rfl, rfl⟩
  · obtain ⟨args, s1, r1, hr1⟩ := b₁
    obtain ⟨args', s1', r1', hr1'⟩ := b₂
    simp only [Step.out, Prod.mk.injEq] at h₁ h₂ hv
    obtain ⟨rfl, rfl⟩ := hv
    subst h₁ h₂
    exact (expect_agrees d).bind_pure (fun _ => ⟨_, rfl, rfl⟩) (fun _ => ⟨_, rfl, rfl⟩)
      fun b₁ b₂ _ _ _ h₁ h₂ => by cases b₁; cases b₂; cases h₁; cases h₂; rfl

theorem exprAgrees_of_shorter : ExprAgrees stop c :=
  have hunary : ∀ {depth : Nat} {s : ParseState} {u₁ u₂ : List Token}, Agrees Step.out Step.out
      u₁ u₂ (unary stop depth s (c ++ u₁)) (unary stop depth s (c ++ u₂)) :=
    unary_agrees ih (primary_agrees ih)
  have hexpr : ∀ {depth : Nat} {s : ParseState} {u₁ u₂ : List Token}, Agrees Step.out Step.out
      u₁ u₂ (expression stop depth s (c ++ u₁)) (expression stop depth s (c ++ u₂)) :=
    expression_agrees_of_chain (chain_agrees ih hunary)
  { expression := hexpr
    chain := chain_agrees ih hunary
    operand := operand_agrees_of_chain (fun _ => chain_agrees ih hunary) hunary
    links := links_agrees ih
    unary := hunary
    primary := primary_agrees ih
    call := call_agrees_of_arguments ih (arguments_agrees_of_expression ih hexpr)
    arguments := arguments_agrees_of_expression ih hexpr }

end ExprAgreement

-- Every expression parser is local on every input.
theorem exprAgrees (stop : Pos) (c : List Token) : ExprAgrees stop c := by
  induction c using tokens_induction with
  | shorter c ih => exact exprAgrees_of_shorter ih

end ScopedC

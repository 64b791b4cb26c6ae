import ScopedC.Proofs.Grammar
-- The one rule that looks past the end of its phrase is the if without else, which must not be
-- followed by else.
namespace ScopedC

namespace Gram

open Parse

-- A list between a phrase's start and its end is split by the tail the end is split by.
theorem tail_split {u mid rest d : List Token} (hrest : rest = d ++ u) (h : rest <:+ mid) :
    ∃ cm, mid = cm ++ u := by
  obtain ⟨p, hp⟩ := (hrest ▸ List.suffix_append d u).trans h
  exact ⟨p, hp.symm⟩

-- Tokens read before a split list are read before its front part.
theorem front_split {c c₀ p u : List Token} (h : c ++ u = p ++ (c₀ ++ u)) : c = p ++ c₀ :=
  List.append_cancel_right (h.trans (List.append_assoc p c₀ u).symm)

theorem startsElse_cons (t : Token) (l l' : List Token) :
    startsElse (t :: l) = startsElse (t :: l') := by
  obtain ⟨k, p⟩ := t
  cases k with
  | keyword kw => cases kw <;> rfl
  | _ => rfl

-- A statement that ends between a phrase's start and its end is followed by `else` in the new
-- tail only where it was in the old one.
theorem else_split {u z mid rest cm d : List Token} (hmid : mid = cm ++ u) (hrest : rest = d ++ u)
    (h : rest <:+ mid) (helse : startsElse (d ++ u) = false → startsElse (d ++ z) = false) :
    startsElse (cm ++ u) = false → startsElse (cm ++ z) = false := by
  cases cm with
  | nil =>
    -- the statement ends where the phrase does
    have hlen := h.length_le
    rw [hmid, hrest] at hlen
    simp only [List.nil_append, List.length_append] at hlen
    obtain rfl : d = [] := List.eq_nil_of_length_eq_zero (by omega)
    exact helse
  | cons t cm => intro h; rwa [List.cons_append, startsElse_cons t _ (cm ++ u)]

section

variable {u z : List Token}

mutual

theorem Chain.retail {lvl : Level} {ts rest : List Token} {e : Raw.Expr} (g : Chain lvl ts e rest)
    {c d : List Token} (hts : ts = c ++ u) (hrest : rest = d ++ u) :
    Chain lvl (c ++ z) e (d ++ z) :=
  match g with
  | .mk o l =>
    have ⟨_, hm⟩ := tail_split hrest l.suffix
    .mk (o.retail hts hm) (l.retail hm hrest)

theorem Links.retail {lvl : Level} {acc e : Raw.Expr} {ts rest : List Token}
    (g : Links lvl acc ts e rest) {c d : List Token} (hts : ts = c ++ u) (hrest : rest = d ++ u) :
    Links lvl acc (c ++ z) e (d ++ z) := by
  match g with
  | .nil =>
    rw [List.append_cancel_right (hts.symm.trans hrest)]
    exact .nil
  | .cons hop o l =>
    obtain ⟨cm, hm⟩ := tail_split hrest l.suffix
    obtain ⟨c₀, h₀⟩ := tail_split hm o.suffix
    have o' := o.retail h₀ hm
    have l' := l.retail hm hrest
    rw [front_split (p := [_]) (hts.symm.trans (congrArg (List.cons _) h₀))]
    exact .cons hop o' l'

theorem Operand.retail {lvl : Level} {ts rest : List Token} {e : Raw.Expr}
    (g : Operand lvl ts e rest) {c d : List Token} (hts : ts = c ++ u) (hrest : rest = d ++ u) :
    Operand lvl (c ++ z) e (d ++ z) :=
  match g with
  | .tighter hl ch => .tighter hl (ch.retail hts hrest)
  | .unary hl un => .unary hl (un.retail hts hrest)

theorem Unary.retail {ts rest : List Token} {e : Raw.Expr} (g : Unary ts e rest)
    {c d : List Token} (hts : ts = c ++ u) (hrest : rest = d ++ u) :
    Unary (c ++ z) e (d ++ z) := by
  match g with
  | .prefixed hop un =>
    obtain ⟨c₀, h₀⟩ := tail_split hrest un.suffix
    have un' := un.retail h₀ hrest
    rw [front_split (p := [_]) (hts.symm.trans (congrArg (List.cons _) h₀))]
    exact .prefixed hop un'
  | .primary pr => exact .primary (pr.retail hts hrest)

theorem Primary.retail {ts rest : List Token} {e : Raw.Expr} (g : Primary ts e rest)
    {c d : List Token} (hts : ts = c ++ u) (hrest : rest = d ++ u) :
    Primary (c ++ z) e (d ++ z) := by
  match g with
  | .lit =>
    rw [front_split (p := [_]) (hts.symm.trans (congrArg (List.cons _) hrest))]
    exact .lit
  | .name =>
    rw [front_split (p := [_]) (hts.symm.trans (congrArg (List.cons _) hrest))]
    exact .name
  | .call a =>
    obtain ⟨c₀, h₀⟩ := tail_split hrest a.suffix
    have a' := a.retail h₀ hrest
    rw [front_split (p := [_, _]) (hts.symm.trans (congrArg (fun l => _ :: _ :: l) h₀))]
    exact .call a'
  | .paren ch =>
    obtain ⟨c₀, h₀⟩ := tail_split (d := _ :: d) (congrArg (List.cons _) hrest) ch.suffix
    have ch' := ch.retail (d := _ :: d) h₀ (congrArg (List.cons _) hrest)
    rw [front_split (p := [_]) (hts.symm.trans (congrArg (List.cons _) h₀))]
    exact .paren ch'

theorem CallArgs.retail {ts rest : List Token} {args : List Raw.Expr} (g : CallArgs ts args rest)
    {c d : List Token} (hts : ts = c ++ u) (hrest : rest = d ++ u) :
    CallArgs (c ++ z) args (d ++ z) := by
  match g with
  | .none =>
    rw [front_split (p := [_]) (hts.symm.trans (congrArg (List.cons _) hrest))]
    exact .none
  | .some a => exact .some (a.retail (d := _ :: d) hts (congrArg (List.cons _) hrest))

theorem Args.retail {ts rest : List Token} {args : List Raw.Expr} (g : Args ts args rest)
    {c d : List Token} (hts : ts = c ++ u) (hrest : rest = d ++ u) :
    Args (c ++ z) args (d ++ z) := by
  match g with
  | .one ch => exact .one (ch.retail hts hrest)
  | .cons ch a =>
    obtain ⟨cm, hm⟩ := tail_split hrest a.suffix
    have ch' := ch.retail (d := _ :: cm) hts (congrArg (List.cons _) hm)
    exact .cons ch' (a.retail hm hrest)

end

theorem TypeName.retail {ts rest : List Token} {ty : Ty} (g : TypeName ts ty rest)
    {c d : List Token} (hts : ts = c ++ u) (hrest : rest = d ++ u) :
    TypeName (c ++ z) ty (d ++ z) := by
  cases g with
  | int =>
    rw [front_split (p := [_]) (hts.symm.trans (congrArg (List.cons _) hrest))]
    exact .int
  | void =>
    rw [front_split (p := [_]) (hts.symm.trans (congrArg (List.cons _) hrest))]
    exact .void
  | const =>
    rw [front_split (p := [_]) (hts.symm.trans (congrArg (List.cons _) hrest))]
    exact .const
  | constInt =>
    rw [front_split (p := [_, _]) (hts.symm.trans (congrArg (fun l => _ :: _ :: l) hrest))]
    exact .constInt

theorem Init.retail {ts rest : List Token} {i : Option Raw.Expr} (g : Init ts i rest)
    {c d : List Token} (hts : ts = c ++ u) (hrest : rest = d ++ u) :
    Init (c ++ z) i (d ++ z) := by
  cases g with
  | none =>
    rw [List.append_cancel_right (hts.symm.trans hrest)]
    exact .none
  | some ch =>
    obtain ⟨c₀, h₀⟩ := tail_split hrest ch.suffix
    rw [front_split (p := [_]) (hts.symm.trans (congrArg (List.cons _) h₀))]
    exact .some (ch.retail h₀ hrest)

theorem Declarators.retail {ts rest : List Token} {ds : List (String × Option Raw.Expr)}
    (g : Declarators ts ds rest) {c d : List Token} (hts : ts = c ++ u) (hrest : rest = d ++ u) :
    Declarators (c ++ z) ds (d ++ z) := by
  induction g generalizing c with
  | one i =>
    obtain ⟨c₀, h₀⟩ := tail_split hrest i.suffix
    rw [front_split (p := [_]) (hts.symm.trans (congrArg (List.cons _) h₀))]
    exact .one (i.retail h₀ hrest)
  | cons i more ih =>
    obtain ⟨cm, hm⟩ := tail_split hrest more.suffix
    obtain ⟨c₀, h₀⟩ := tail_split (d := _ :: cm) (congrArg (List.cons _) hm) i.suffix
    rw [front_split (p := [_]) (hts.symm.trans (congrArg (List.cons _) h₀))]
    exact .cons (i.retail (d := _ :: cm) h₀ (congrArg (List.cons _) hm)) (ih hm hrest)

theorem Params.retail {ts rest : List Token} {ps : List Raw.Param} (g : Params ts ps rest)
    {c d : List Token} (hts : ts = c ++ u) (hrest : rest = d ++ u) :
    Params (c ++ z) ps (d ++ z) := by
  induction g generalizing c with
  | one ty i =>
    obtain ⟨c₀, h₀⟩ := tail_split hrest i.suffix
    exact .one (ty.retail (d := _ :: c₀) hts (congrArg (List.cons _) h₀)) (i.retail h₀ hrest)
  | cons ty i ps ih =>
    obtain ⟨cm, hm⟩ := tail_split hrest ps.suffix
    obtain ⟨c₀, h₀⟩ := tail_split (d := _ :: cm) (congrArg (List.cons _) hm) i.suffix
    exact .cons (ty.retail (d := _ :: c₀) hts (congrArg (List.cons _) h₀)) (i.retail (d := _ :: cm) h₀ (congrArg (List.cons _) hm))
      (ih hm hrest)

theorem ParamList.retail {ts rest : List Token} {ps : List Raw.Param} {q : Pos}
    (g : ParamList ts ps (⟨.punct .rparen, q⟩ :: rest)) {c d : List Token} (hts : ts = c ++ u)
    (hrest : rest = d ++ u) : ParamList (c ++ z) ps (⟨.punct .rparen, q⟩ :: d ++ z) := by
  cases g with
  | none =>
    rw [front_split (p := [_]) (hts.symm.trans (congrArg (List.cons _) hrest))]
    exact .none
  | some p => exact .some (p.retail (d := _ :: d) hts (congrArg (List.cons _) hrest))

mutual

theorem Statement.retail {ts rest : List Token} {st : Raw.Stmt} (g : Statement ts st rest)
    {c d : List Token} (hts : ts = c ++ u) (hrest : rest = d ++ u)
    (helse : startsElse (d ++ u) = false → startsElse (d ++ z) = false) :
    Statement (c ++ z) st (d ++ z) := by
  match g with
  | .decl ty ds =>
    obtain ⟨cm, hm⟩ := tail_split (d := _ :: d) (congrArg (List.cons _) hrest) ds.suffix
    exact .decl (ty.retail hts hm) (ds.retail (d := _ :: d) hm (congrArg (List.cons _) hrest))
  | .funcDef ty ps b =>
    obtain ⟨cb, hb⟩ := tail_split hrest b.suffix
    obtain ⟨cp, hp⟩ := tail_split (d := _ :: cb) (congrArg (List.cons _) hb) ps.suffix
    have b' := b.retail hb hrest
    exact .funcDef (ty.retail (d := _ :: _ :: cp) hts (congrArg (fun l => _ :: _ :: l) hp))
      (ps.retail hp hb) b'
  | .block b => exact .block (b.retail hts hrest)
  | .ifThen ch t noElse =>
    obtain ⟨cm, hm⟩ := tail_split hrest t.suffix
    obtain ⟨c₀, h₀⟩ := tail_split (d := _ :: cm) (congrArg (List.cons _) hm) ch.suffix
    have t' := t.retail hm hrest helse
    rw [front_split (p := [_, _]) (hts.symm.trans (congrArg (fun l => _ :: _ :: l) h₀))]
    exact .ifThen (ch.retail (d := _ :: cm) h₀ (congrArg (List.cons _) hm)) t' (helse (hrest ▸ noElse))
  | .ifElse ch t e =>
    obtain ⟨ce, he⟩ := tail_split hrest e.suffix
    obtain ⟨cm, hm⟩ := tail_split (d := _ :: ce) (congrArg (List.cons _) he) t.suffix
    obtain ⟨c₀, h₀⟩ := tail_split (d := _ :: cm) (congrArg (List.cons _) hm) ch.suffix
    -- the `then` branch is followed by the `else` in both
    have t' := t.retail (d := _ :: ce) hm (congrArg (List.cons _) he)
      (fun h => by simp [startsElse] at h)
    have e' := e.retail he hrest helse
    rw [front_split (p := [_, _]) (hts.symm.trans (congrArg (fun l => _ :: _ :: l) h₀))]
    exact .ifElse (ch.retail (d := _ :: cm) h₀ (congrArg (List.cons _) hm)) t' e'
  | .whileLoop ch b =>
    obtain ⟨cm, hm⟩ := tail_split hrest b.suffix
    obtain ⟨c₀, h₀⟩ := tail_split (d := _ :: cm) (congrArg (List.cons _) hm) ch.suffix
    have b' := b.retail hm hrest helse
    rw [front_split (p := [_, _]) (hts.symm.trans (congrArg (fun l => _ :: _ :: l) h₀))]
    exact .whileLoop (ch.retail (d := _ :: cm) h₀ (congrArg (List.cons _) hm)) b'
  | .returnValue ch =>
    obtain ⟨c₀, h₀⟩ := tail_split (d := _ :: d) (congrArg (List.cons _) hrest) ch.suffix
    rw [front_split (p := [_]) (hts.symm.trans (congrArg (List.cons _) h₀))]
    exact .returnValue (ch.retail (d := _ :: d) h₀ (congrArg (List.cons _) hrest))
  | .breakLoop =>
    rw [front_split (p := [_, _]) (hts.symm.trans (congrArg (fun l => _ :: _ :: l) hrest))]
    exact .breakLoop
  | .continueLoop =>
    rw [front_split (p := [_, _]) (hts.symm.trans (congrArg (fun l => _ :: _ :: l) hrest))]
    exact .continueLoop
  | .assign ch =>
    obtain ⟨c₀, h₀⟩ := tail_split (d := _ :: d) (congrArg (List.cons _) hrest) ch.suffix
    rw [front_split (p := [_, _]) (hts.symm.trans (congrArg (fun l => _ :: _ :: l) h₀))]
    exact .assign (ch.retail (d := _ :: d) h₀ (congrArg (List.cons _) hrest))
  | .exprStmt ch => exact .exprStmt (ch.retail (d := _ :: d) hts (congrArg (List.cons _) hrest))
  | .empty =>
    rw [front_split (p := [_]) (hts.symm.trans (congrArg (List.cons _) hrest))]
    exact .empty

theorem Block.retail {ts rest : List Token} {items : List Raw.Stmt} (g : Block ts items rest)
    {c d : List Token} (hts : ts = c ++ u) (hrest : rest = d ++ u) :
    Block (c ++ z) items (d ++ z) := by
  match g with
  | .mk i =>
    obtain ⟨c₀, h₀⟩ := tail_split (d := _ :: d) (congrArg (List.cons _) hrest) i.suffix
    have i' := i.retail (d := _ :: d) h₀ (congrArg (List.cons _) hrest) (fun _ => rfl)
    rw [front_split (p := [_]) (hts.symm.trans (congrArg (List.cons _) h₀))]
    exact .mk i'

theorem Items.retail {ts rest : List Token} {items : List Raw.Stmt} (g : Items ts items rest)
    {c d : List Token} (hts : ts = c ++ u) (hrest : rest = d ++ u)
    (helse : startsElse (d ++ u) = false → startsElse (d ++ z) = false) :
    Items (c ++ z) items (d ++ z) := by
  match g with
  | .nil =>
    rw [List.append_cancel_right (hts.symm.trans hrest)]
    exact .nil
  | .cons st more =>
    obtain ⟨cm, hm⟩ := tail_split hrest more.suffix
    have st' := st.retail hts hm (else_split hm hrest more.suffix helse)
    exact .cons st' (more.retail hm hrest helse)

end

end

end Gram

end ScopedC

import Mathlib.Data.List.Induction
import ScopedC.Ty
-- A written type is read most easily from its end: a function type ends with ), and before it
-- stand its parameters, the last one first.
namespace ScopedC

namespace Ty

theorem induction_on {P : Ty → Prop} (t : Ty) (int : P .int) (void : P .void) (const : P .const)
    (func : ∀ r ps, P r → (∀ p ∈ ps, P p) → P (.func r ps)) : P t :=
  @Ty.rec (fun t => P t) (fun ps => ∀ p ∈ ps, P p) int void const func (by simp)
    (fun p ps hp hps => by simpa using And.intro hp hps) t

def backText (t : Ty) : List Char := t.toText.toList.reverse

def backList (ps : List Ty) : List Char := (listText ps).toList.reverse

@[simp] theorem backText_int : backText .int = ['t', 'n', 'i'] := by simp [backText, toText]

@[simp] theorem backText_void : backText .void = ['d', 'i', 'o', 'v'] := by
  simp [backText, toText]

@[simp] theorem backText_const : backText .const = ['t', 's', 'n', 'o', 'c'] := by
  simp [backText, toText]

@[simp] theorem backText_func (r : Ty) (ps : List Ty) :
    backText (.func r ps) = ')' :: backList ps ++ '(' :: backText r := by
  simp [backText, backList, toText]

@[simp] theorem backList_nil : backList [] = [] := by simp [backList, listText]

-- A parameter after others is written after them and a separator.
theorem listText_concat {ps : List Ty} (h : ps ≠ []) (t : Ty) :
    (listText (ps ++ [t])).toList = (listText ps).toList ++ ',' :: ' ' :: t.toText.toList := by
  induction ps with
  | nil => exact absurd rfl h
  | cons p ps ih =>
    cases ps with
    | nil => simp [listText]
    | cons q qs =>
      have ih := ih (by simp)
      rw [List.cons_append] at ih
      rw [List.cons_append, List.cons_append, listText, String.toList_append, ih]
      · simp [listText]
      · simp

theorem backList_concat (ps : List Ty) (t : Ty) :
    backList (ps ++ [t]) = backText t ++ (if ps = [] then [] else ' ' :: ',' :: backList ps) := by
  by_cases h : ps = []
  · subst h
    simp [backList, backText, listText]
  · simp [backList, backText, listText_concat h, h]

theorem backText_head (t : Ty) : ∃ c u, c ≠ '(' ∧ backText t = c :: u := by
  cases t with
  | int => exact ⟨_, _, by decide, backText_int⟩
  | void => exact ⟨_, _, by decide, backText_void⟩
  | const => exact ⟨_, _, by decide, backText_const⟩
  | func r ps => exact ⟨_, _, by decide, backText_func r ps⟩

theorem backList_concat_ne_open (ps : List Ty) (t : Ty) (s : List Char) :
    backList (ps ++ [t]) ++ s ≠ '(' :: s' := by
  obtain ⟨c, u, hne, hc⟩ := backText_head t
  rw [backList_concat, hc]
  simp [hne]

def SplitsOnce (t : Ty) : Prop :=
  ∀ b s s', backText t ++ s = backText b ++ s' → t = b ∧ s = s'

theorem backList_splitsOnce {ps : List Ty} (hps : ∀ p ∈ ps, SplitsOnce p) {qs : List Ty}
    {s s' : List Char} (h : backList ps ++ '(' :: s = backList qs ++ '(' :: s') :
    ps = qs ∧ s = s' := by
  induction ps using List.reverseRecOn generalizing qs with
  | nil =>
    induction qs using List.reverseRecOn with
    | nil => simpa using h
    | append_singleton qs q _ => exact absurd h.symm (backList_concat_ne_open qs q _)
  | append_singleton ps t ih =>
    induction qs using List.reverseRecOn with
    | nil => exact absurd h (backList_concat_ne_open ps t _)
    | append_singleton qs q _ =>
      rw [backList_concat, backList_concat, List.append_assoc, List.append_assoc] at h
      -- the last parameters agree, then what stands before them
      obtain ⟨rfl, hbefore⟩ := hps t (by simp) q _ _ h
      have hps' : ∀ p ∈ ps, SplitsOnce p := fun p hp => hps p (by simp [hp])
      by_cases hp : ps = [] <;> by_cases hq : qs = []
      · subst hp hq
        simpa using hbefore
      · simp [hp, hq] at hbefore
      · simp [hp, hq] at hbefore
      · simp only [hp, hq, if_false, List.cons_append, List.cons.injEq, true_and] at hbefore
        obtain ⟨rfl, rfl⟩ := ih hps' hbefore
        exact ⟨rfl, rfl⟩

theorem backText_splitsOnce (t : Ty) : SplitsOnce t := by
  induction t using induction_on with
  | int => intro b s s' h; cases b <;> simp_all
  | void => intro b s s' h; cases b <;> simp_all
  | const => intro b s s' h; cases b <;> simp_all
  | func r ps hr hps =>
    intro b s s' h
    cases b with
    | func r' qs =>
      simp only [backText_func, List.cons_append, List.append_assoc, List.cons.injEq, true_and]
        at h
      obtain ⟨rfl, hret⟩ := backList_splitsOnce hps h
      obtain ⟨rfl, rfl⟩ := hr r' s s' hret
      exact ⟨rfl, rfl⟩
    | int | void | const => simp at h

theorem toText_injective : Function.Injective toText := by
  intro a b h
  exact (backText_splitsOnce a b [] [] (by simp [backText, h])).1

theorem toText_eq_iff_beq {a b : Ty} : a.toText = b.toText ↔ a.beq b = true :=
  toText_injective.eq_iff.trans beq_iff_eq.symm

example : (Ty.func (.func .int [.int]) [.int]).toText = "int(int)(int)" := by decide

end Ty

end ScopedC

import ScopedC.Proofs.Numbering.Shift
namespace ScopedC

def ParseState.prependNotes (n : Array Note) (s : ParseState) : ParseState :=
  { s with notes := n ++ s.notes }

def Failure.prependNotes (n : Array Note) (f : Failure) : Failure :=
  { f with state := f.state.prependNotes n }

def Program.prependNotes (n : Array Note) (p : Program) : Program :=
  ⟨p.root, p.state.prependNotes n⟩

def prepended {α β : Type} (n : Array Note) (g : α → β) : Except Failure α → Except Failure β
  | .ok a => .ok (g a)
  | .error e => .error (e.prependNotes n)

@[simp] theorem Note.shift_zero (x : Note) : x.shift 0 = x := by
  cases x <;> rfl

@[simp] theorem Expr.shift_zero (e : Expr) : e.shift 0 0 = e :=
  -- on a call's arguments, the list case says so of each argument
  @Expr.rec (fun e => e.shift 0 0 = e) (fun es => es.map (Expr.shift 0 0) = es)
    (fun n op l r label hl hr => by simp [Expr.shift, hl, hr])
    (fun n op a label ha => by simp [Expr.shift, ha])
    (fun i => rfl)
    (fun n callee args hargs => by simp [Expr.shift, hargs])
    (fun n v => rfl) rfl
    (fun e es he hes => by simp [he, hes]) e

@[simp] theorem Stmt.shift_zero (st : Stmt) : st.shift 0 0 = st := by
  have expr : Expr.shift 0 0 = id := funext Expr.shift_zero
  induction st with
  | decl n items =>
    simp only [Stmt.shift, Nat.add_zero, expr, Option.map_id]
    exact congrArg _ (List.map_id'' (fun _ => rfl) items)
  | funcDef n entry params body ih =>
    simp only [Stmt.shift, Nat.add_zero, expr, Option.map_id, ih]
    exact congrArg (Stmt.funcDef n entry · body) (List.map_id'' (fun _ => rfl) params)
  | _ => simp [Stmt.shift, *]

theorem relabels_prepend (n : Array Note) : Relabels 0 (n ++ ·) := fun a x => by
  rw [Note.shift_zero]
  exact Array.append_push

theorem prepended_eq_moved {n : Array Note} {x : Except Failure Program} :
    prepended n (Program.prependNotes n) x =
      moved 0 0 (n ++ ·) (Program.move 0 0 (n ++ ·)) x := by
  cases x with
  | error e => rfl
  | ok p =>
    simp only [prepended, moved, Program.prependNotes, Program.move, Stmt.shift_zero]
    rfl

theorem parseFrom_prependNotes (n : Array Note) (s : ParseState) (toks : List Token) :
    Program.parseFrom (s.prependNotes n) toks =
      prepended n (Program.prependNotes n) (Program.parseFrom s toks) := by
  rw [prepended_eq_moved]
  exact parseFrom_move (k := 0) (relabels_prepend n) s toks

end ScopedC

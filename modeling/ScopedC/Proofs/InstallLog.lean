import Mathlib.Data.List.Pairwise
import ScopedC.Scopes
-- A model of the scope chain that forgets nothing: every binding ever made, with the scope it went
-- into, and the scopes still open.
namespace ScopedC

namespace Scopes

variable {α : Type}

inductive Op (α : Type) where
  | enter
  | exit
  | install (name : String) (v : α)
  | seed (tag : Entry → α) (next : Nat)

def Op.isEnter : Op α → Bool
  | .enter => true
  | _ => false

def seedBindings (tag : Entry → α) (next : Nat) : List (String × α) :=
  builtins.zipIdx.map fun (b, i) => (b.1, tag (.ident (next + i) b.1 b.2 0))

-- A refused close leaves the chain as it is.
def step (s : Scopes α) : Op α → Scopes α
  | .enter => s.enter
  | .exit =>
    match s.exit with
    | .ok s' => s'
    | .error _ => s
  | .install name v => s.install name v
  | .seed tag next => (s.seedBuiltins tag next).1

def run (s : Scopes α) (ops : List (Op α)) : Scopes α := ops.foldl step s

@[simp] theorem run_nil (s : Scopes α) : s.run [] = s := rfl

@[simp] theorem run_cons (s : Scopes α) (op : Op α) (ops : List (Op α)) :
    s.run (op :: ops) = (s.step op).run ops := rfl

theorem seedBuiltins_fst (s : Scopes α) (tag : Entry → α) (next : Nat) :
    (s.seedBuiltins tag next).1 = (seedBindings tag next).foldl (fun s b => s.install b.1 b.2) s :=
  rfl

theorem exit_refused_iff (s : Scopes α) : (∃ e, s.exit = .error e) ↔ s.level = 0 := by
  rcases s with ⟨top, _ | ⟨f, fs⟩⟩
  · exact ⟨fun _ => rfl, fun _ => ⟨.rootExit, rfl⟩⟩
  · simp [exit, level]

theorem step_exit_of_root {s : Scopes α} (h : s.level = 0) : s.step .exit = s := by
  rcases s with ⟨top, _ | ⟨f, fs⟩⟩
  · rfl
  · simp [level] at h

def Op.openAfter : Nat → List (Op α) → Option Nat
  | k, [] => some k
  | k, .enter :: ops => openAfter (k + 1) ops
  | 0, .exit :: _ => none
  | k + 1, .exit :: ops => openAfter k ops
  | k, .install _ _ :: ops => openAfter k ops
  | k, .seed _ _ :: ops => openAfter k ops

-- Binding names one after another only adds to the current frame.
theorem outer_foldl_install (bs : List (String × α)) (s : Scopes α) :
    (bs.foldl (fun s b => s.install b.1 b.2) s).outer = s.outer := by
  induction bs generalizing s with
  | nil => rfl
  | cons b bs ih => exact ih (s.install b.1 b.2)

-- The enclosing frames of the starting scope stay below whatever `ops` opens and closes.
theorem outer_run_of_openAfter {ops : List (Op α)} {k k' : Nat} (base : List (Frame α))
    (hops : Op.openAfter k ops = some k') (s : Scopes α) (above : List (Frame α))
    (hs : s.outer = above ++ base) (hk : above.length = k) :
    ∃ above', (s.run ops).outer = above' ++ base ∧ above'.length = k' := by
  induction ops generalizing k s above with
  | nil =>
    cases hops
    exact ⟨above, hs, hk⟩
  | cons op ops ih =>
    cases op with
    | enter =>
      exact ih hops (s.step .enter) (s.top :: above) (by simp [step, enter, hs]) (by simp [hk])
    | exit =>
      rcases above with _ | ⟨f, above⟩
      · subst hk
        cases hops
      · subst hk
        have hexit : s.step .exit = ⟨f, above ++ base⟩ := by simp [step, exit, hs]
        simp only [run_cons, hexit]
        exact ih hops _ above rfl rfl
    | install name v => exact ih hops (s.install name v) above hs hk
    | seed tag next =>
      rw [run_cons, step, seedBuiltins_fst]
      exact ih hops _ above (by rw [outer_foldl_install]; exact hs) hk

theorem exit_run_enter (s : Scopes α) {ops : List (Op α)} (hops : Op.openAfter 0 ops = some 0) :
    ((s.enter).run ops).exit = .ok s := by
  obtain ⟨above, houter, hlen⟩ :=
    outer_run_of_openAfter (s.top :: s.outer) hops s.enter [] rfl rfl
  rw [List.length_eq_zero_iff] at hlen
  subst hlen
  simp [exit, houter]

end Scopes

structure InstallLog (α : Type) where
  installs : List (String × α × Nat) := []
  opened : List Nat := []
  entered : Nat := 0
  closed : Nat := 0

namespace InstallLog

variable {α : Type}

def openScopes (g : InstallLog α) : List Nat := g.opened ++ [0]

def current (g : InstallLog α) : Nat := g.opened.headD 0

def record (g : InstallLog α) (name : String) (v : α) : InstallLog α :=
  { g with installs := (name, v, g.current) :: g.installs }

def step (g : InstallLog α) : Scopes.Op α → InstallLog α
  | .enter => { g with opened := (g.entered + 1) :: g.opened, entered := g.entered + 1 }
  | .exit =>
    match g.opened with
    | [] => g
    | _ :: rest => { g with opened := rest, closed := g.closed + 1 }
  | .install name v => g.record name v
  | .seed tag next => (Scopes.seedBindings tag next).foldl (fun g b => g.record b.1 b.2) g

def run (g : InstallLog α) (ops : List (Scopes.Op α)) : InstallLog α := ops.foldl step g

def lookup (g : InstallLog α) (name : String) : Option α :=
  (g.installs.find? fun b => b.1 == name && g.openScopes.contains b.2.2).map (·.2.1)

def frameOf (g : InstallLog α) (k : Nat) : Frame α :=
  (g.installs.filter (·.2.2 == k)).map fun b => (b.1, b.2.1)

def toScopes (g : InstallLog α) : Scopes α :=
  match g.opened with
  | [] => ⟨g.frameOf 0, []⟩
  | k :: ks => ⟨g.frameOf k, (ks ++ [0]).map g.frameOf⟩

@[simp] theorem run_nil (g : InstallLog α) : g.run [] = g := rfl

@[simp] theorem run_cons (g : InstallLog α) (op : Scopes.Op α) (ops : List (Scopes.Op α)) :
    g.run (op :: ops) = (g.step op).run ops := rfl

@[simp] theorem record_opened (g : InstallLog α) (name : String) (v : α) :
    (g.record name v).opened = g.opened := rfl

@[simp] theorem record_entered (g : InstallLog α) (name : String) (v : α) :
    (g.record name v).entered = g.entered := rfl

@[simp] theorem record_closed (g : InstallLog α) (name : String) (v : α) :
    (g.record name v).closed = g.closed := rfl

theorem toScopes_frames (g : InstallLog α) :
    g.toScopes.top :: g.toScopes.outer = g.openScopes.map g.frameOf := by
  unfold toScopes openScopes
  cases g.opened <;> rfl

theorem toScopes_level (g : InstallLog α) : g.toScopes.level = g.opened.length := by
  unfold toScopes Scopes.level
  cases g.opened <;> simp

structure Wf (g : InstallLog α) : Prop where
  opened_desc : g.opened.Pairwise (· > ·)
  opened_range : ∀ k ∈ g.opened, 0 < k ∧ k ≤ g.entered
  installs_range : ∀ b ∈ g.installs, b.2.2 ≤ g.entered
  counted : g.opened.length + g.closed = g.entered
  open_order : (g.installs.filter fun b => g.openScopes.contains b.2.2).Pairwise
    fun b b' => b'.2.2 ≤ b.2.2

theorem wf_empty : Wf ({} : InstallLog α) where
  opened_desc := .nil
  opened_range := by simp
  installs_range := by simp
  counted := rfl
  open_order := .nil

-- The innermost open scope is the largest open scope number.
theorem le_current {g : InstallLog α} (hg : Wf g) {k : Nat} (hk : k ∈ g.openScopes) :
    k ≤ g.current := by
  unfold openScopes at hk
  unfold current
  rcases hopened : g.opened with _ | ⟨j, js⟩
  · simp_all
  · have hdesc := hg.opened_desc
    rw [hopened] at hdesc hk
    rcases List.mem_append.1 hk with hk | hk
    · rcases List.mem_cons.1 hk with rfl | hk
      · exact Nat.le_refl _
      · exact Nat.le_of_lt (List.rel_of_pairwise_cons hdesc hk)
    · simp_all

theorem current_mem (g : InstallLog α) : g.current ∈ g.openScopes := by
  unfold current openScopes
  cases g.opened <;> simp

-- The innermost open scope appears once among the open scopes.
theorem current_not_mem_tail {g : InstallLog α} (hg : Wf g) {k : Nat} {ks : List Nat}
    (hopened : g.opened = k :: ks) : k ∉ ks ++ [0] := by
  have hdesc := hg.opened_desc
  have hpos := (hg.opened_range k (by simp [hopened])).1
  rw [hopened] at hdesc
  intro hk
  rcases List.mem_append.1 hk with hk | hk
  · exact Nat.lt_irrefl _ (List.rel_of_pairwise_cons hdesc hk)
  · simp at hk
    omega

theorem record_frameOf (g : InstallLog α) (name : String) (v : α) (k : Nat) :
    (g.record name v).frameOf k = if k = g.current then (name, v) :: g.frameOf k else g.frameOf k := by
  unfold frameOf record
  by_cases hk : k = g.current
  · subst hk
    simp
  · simp only [List.filter_cons, if_neg hk]
    have : (g.current == k) = false := by simpa using Ne.symm hk
    simp [this]

theorem wf_record {g : InstallLog α} (hg : Wf g) (name : String) (v : α) :
    Wf (g.record name v) where
  opened_desc := hg.opened_desc
  opened_range := hg.opened_range
  installs_range := by
    intro b hb
    rcases List.mem_cons.1 hb with rfl | hb
    · unfold current
      rcases hopened : g.opened with _ | ⟨k, ks⟩
      · simp
      · exact (hg.opened_range k (by simp [hopened])).2
    · exact hg.installs_range b hb
  counted := hg.counted
  open_order := by
    simp only [record, openScopes, List.filter_cons]
    rw [if_pos (by simpa [openScopes] using current_mem g)]
    refine List.Pairwise.cons (fun b hb => ?_) hg.open_order
    exact le_current hg (by simpa [openScopes] using (List.mem_filter.1 hb).2)

theorem record_toScopes {g : InstallLog α} (hg : Wf g) (name : String) (v : α) :
    (g.record name v).toScopes = g.toScopes.install name v := by
  unfold toScopes Scopes.install
  rcases hopened : g.opened with _ | ⟨k, ks⟩
  · simp only [record_opened, hopened, record_frameOf, current, List.headD_nil, if_true]
  · have hcur : g.current = k := by simp [current, hopened]
    have hfresh := current_not_mem_tail hg hopened
    simp only [record_opened, hopened, record_frameOf, hcur, if_true, Scopes.mk.injEq, true_and]
    refine List.map_congr_left fun j hj => ?_
    have hjk : j ≠ g.current := fun h => hfresh (by rw [← hcur, ← h]; exact hj)
    rw [record_frameOf, if_neg hjk]

-- Seeding records its bindings one after the other, in the log as in the chain.
theorem seed_wf_toScopes (bs : List (String × α)) {g : InstallLog α} (hg : Wf g) :
    Wf (bs.foldl (fun g b => g.record b.1 b.2) g) ∧
      (bs.foldl (fun g b => g.record b.1 b.2) g).toScopes =
        bs.foldl (fun s b => s.install b.1 b.2) g.toScopes := by
  induction bs generalizing g with
  | nil => exact ⟨hg, rfl⟩
  | cons b bs ih =>
    simp only [List.foldl_cons]
    rw [← record_toScopes hg]
    exact ih (wf_record hg b.1 b.2)

theorem frameOf_enter_fresh {g : InstallLog α} (hg : Wf g) :
    g.frameOf (g.entered + 1) = [] := by
  unfold frameOf
  rw [List.map_eq_nil_iff, List.filter_eq_nil_iff]
  intro b hb
  have := hg.installs_range b hb
  simp only [beq_iff_eq]
  omega

theorem step_wf_toScopes {g : InstallLog α} (hg : Wf g) (op : Scopes.Op α) :
    Wf (g.step op) ∧ (g.step op).toScopes = g.toScopes.step op := by
  cases op with
  | enter =>
    refine ⟨⟨?_, ?_, ?_, ?_, ?_⟩, ?_⟩
    · refine List.Pairwise.cons (fun k hk => ?_) hg.opened_desc
      have := (hg.opened_range k hk).2
      omega
    · intro k hk
      rcases List.mem_cons.1 hk with rfl | hk
      · exact ⟨Nat.succ_pos _, Nat.le_refl _⟩
      · have := hg.opened_range k hk
        exact ⟨this.1, Nat.le_succ_of_le this.2⟩
    · exact fun b hb => Nat.le_succ_of_le (hg.installs_range b hb)
    · simp only [step, List.length_cons]
      have := hg.counted
      omega
    · -- no binding went into the new scope yet
      have hsame : (g.installs.filter fun b => ((g.entered + 1) :: g.opened ++ [0]).contains b.2.2) =
          g.installs.filter fun b => g.openScopes.contains b.2.2 := by
        refine List.filter_congr fun b hb => ?_
        have := hg.installs_range b hb
        have hne : b.2.2 ≠ g.entered + 1 := by omega
        simp [openScopes, hne]
      simpa only [step, openScopes, hsame] using hg.open_order
    · have hview : (g.step .enter).toScopes =
          ⟨g.frameOf (g.entered + 1), g.openScopes.map g.frameOf⟩ := rfl
      rw [hview, frameOf_enter_fresh hg, ← toScopes_frames]
      rfl
  | exit =>
    rcases hopened : g.opened with _ | ⟨k, ks⟩
    · have hlevel : g.toScopes.level = 0 := by rw [toScopes_level, hopened]; rfl
      have hstep : g.step .exit = g := by simp only [step, hopened]
      rw [hstep, Scopes.step_exit_of_root hlevel]
      exact ⟨hg, rfl⟩
    · have hdesc := hg.opened_desc
      rw [hopened] at hdesc
      refine ⟨⟨?_, ?_, ?_, ?_, ?_⟩, ?_⟩
      · simp only [step, hopened]
        exact hdesc.of_cons
      · intro j hj
        simp only [step, hopened] at hj ⊢
        exact hg.opened_range j (by simp [hopened, hj])
      · simpa only [step, hopened] using hg.installs_range
      · simp only [step, hopened]
        have := hg.counted
        rw [hopened, List.length_cons] at this
        omega
      · -- closing a scope only drops bindings from the open ones
        simp only [step, hopened]
        have hsub : (g.installs.filter fun b => (ks ++ [0]).contains b.2.2) =
            (g.installs.filter fun b => g.openScopes.contains b.2.2).filter
              fun b => (ks ++ [0]).contains b.2.2 := by
          rw [List.filter_filter]
          refine List.filter_congr fun b _ => ?_
          by_cases hb : b.2.2 ∈ ks ++ [0]
          · simp [openScopes, hopened, hb]
          · simp [hb]
        rw [openScopes, hsub]
        exact hg.open_order.filter _
      · unfold toScopes
        simp only [step, hopened, Scopes.step, Scopes.exit]
        rcases ks with _ | ⟨j, js⟩ <;> rfl
  | install name v => exact ⟨wf_record hg name v, record_toScopes hg name v⟩
  | seed tag next =>
    simp only [step, Scopes.step, Scopes.seedBuiltins_fst]
    exact seed_wf_toScopes _ hg

theorem run_wf_toScopes (ops : List (Scopes.Op α)) :
    Wf (({} : InstallLog α).run ops) ∧ Scopes.root.run ops = (({} : InstallLog α).run ops).toScopes := by
  suffices ∀ g : InstallLog α, Wf g → Wf (g.run ops) ∧ g.toScopes.run ops = (g.run ops).toScopes from
    this {} wf_empty
  induction ops with
  | nil => exact fun g hg => ⟨hg, rfl⟩
  | cons op ops ih =>
    intro g hg
    obtain ⟨hwf, hview⟩ := step_wf_toScopes hg op
    simp only [Scopes.run_cons, run_cons, ← hview]
    exact ih _ hwf

-- Seeding only records bindings: it opens no scope.
theorem entered_foldl_record (bs : List (String × α)) (g : InstallLog α) :
    (bs.foldl (fun g b => g.record b.1 b.2) g).entered = g.entered := by
  induction bs generalizing g with
  | nil => rfl
  | cons b bs ih => exact ih (g.record b.1 b.2)

theorem entered_run (g : InstallLog α) (ops : List (Scopes.Op α)) :
    (g.run ops).entered = g.entered + ops.countP Scopes.Op.isEnter := by
  induction ops generalizing g with
  | nil => rfl
  | cons op ops ih =>
    rw [run_cons, ih, List.countP_cons]
    cases op with
    | enter => simp [step, Scopes.Op.isEnter]; omega
    | exit => rcases hop : g.opened with _ | ⟨k, ks⟩ <;> simp [step, hop, Scopes.Op.isEnter]
    | install name v => simp [step, Scopes.Op.isEnter]
    | seed tag next => simp [step, Scopes.Op.isEnter, entered_foldl_record]

-- A frame made from logged bindings finds what the log finds among them.
theorem lookup_map (M : List (String × α × Nat)) (name : String) :
    (M.map fun b => (b.1, b.2.1)).lookup name = (M.find? (·.1 == name)).map (·.2.1) := by
  induction M with
  | nil => rfl
  | cons b M ih =>
    by_cases hb : b.1 = name
    · simp [hb]
    · have h1 : (name == b.1) = false := by simpa using Ne.symm hb
      have h2 : (b.1 == name) = false := by simpa using hb
      simp [List.lookup_cons, h1, h2, ih]

-- Bindings kept from the innermost scope outward, none of them inside scope `k`, begin with
-- those of `k`.
theorem filter_scope_append {L : List (String × α × Nat)} {k : Nat} (hle : ∀ b ∈ L, b.2.2 ≤ k)
    (horder : L.Pairwise fun b b' => b'.2.2 ≤ b.2.2) :
    L = L.filter (·.2.2 == k) ++ L.filter (fun b => !(b.2.2 == k)) := by
  induction L with
  | nil => rfl
  | cons b L ihL =>
    by_cases hbk : b.2.2 = k
    · simp only [List.filter_cons, hbk, beq_self_eq_true, if_true, Bool.not_true,
        Bool.false_eq_true, if_false, List.cons_append]
      congr 1
      exact ihL (fun b' hb' => hle b' (by simp [hb'])) horder.of_cons
    · -- `b` is outside `k`, and every later binding is at most as far in as `b`
      have hb := hle b (by simp)
      have hlt : ∀ b' ∈ L, b'.2.2 ≠ k := fun b' hb' => by
        have := List.rel_of_pairwise_cons horder hb'
        omega
      have hnil : L.filter (·.2.2 == k) = [] := by
        rw [List.filter_eq_nil_iff]
        intro b' hb'
        simpa using hlt b' hb'
      have hall : L.filter (fun b => !(b.2.2 == k)) = L := by
        rw [List.filter_eq_self]
        intro b' hb'
        simpa using hlt b' hb'
      simp [hbk, hnil, hall]

-- Looking up in frames kept innermost first finds the newest binding of the innermost frame
-- that has one; when the bindings of the scopes `ks` were made from the innermost scope outward,
-- that is the newest binding overall.
theorem findSome?_frames {L : List (String × α × Nat)} {ks : List Nat} (name : String)
    (hks : ks.Pairwise (· > ·)) (hL : ∀ b ∈ L, b.2.2 ∈ ks)
    (horder : L.Pairwise fun b b' => b'.2.2 ≤ b.2.2) :
    (ks.map fun k => (L.filter (·.2.2 == k)).map fun b => (b.1, b.2.1)).findSome? (·.lookup name) =
      (L.find? (·.1 == name)).map (·.2.1) := by
  induction ks generalizing L with
  | nil =>
    have hnil : L = [] := List.eq_nil_iff_forall_not_mem.2 fun b hb => by simpa using hL b hb
    subst hnil
    rfl
  | cons k ks ih =>
    -- the bindings of the innermost scope `k` come first
    have hsplit := filter_scope_append (k := k) (fun b hb => by
      rcases List.mem_cons.1 (hL b hb) with h | h
      · exact Nat.le_of_eq h
      · exact Nat.le_of_lt (List.rel_of_pairwise_cons hks h)) horder
    have hrest : ∀ b ∈ L.filter (fun b => !(b.2.2 == k)), b.2.2 ∈ ks := by
      intro b hb
      obtain ⟨hbL, hbk⟩ := List.mem_filter.1 hb
      rcases List.mem_cons.1 (hL b hbL) with h | h
      · simp [h] at hbk
      · exact h
    have hframes : (ks.map fun j => (L.filter (·.2.2 == j)).map fun b => (b.1, b.2.1)) =
        ks.map fun j => ((L.filter fun b => !(b.2.2 == k)).filter (·.2.2 == j)).map
          fun b => (b.1, b.2.1) := by
      refine List.map_congr_left fun j hj => ?_
      have hjk : j ≠ k := fun h => Nat.lt_irrefl _ (h ▸ List.rel_of_pairwise_cons hks hj)
      rw [List.filter_filter]
      congr 1
      refine List.filter_congr fun b _ => ?_
      by_cases hb : b.2.2 = j
      · simp [hb, hjk]
      · simp [hb]
    rw [List.map_cons, List.findSome?_cons, lookup_map, hframes,
      ih hks.of_cons hrest (horder.filter _)]
    conv => rhs; rw [hsplit, List.find?_append]
    cases (L.filter (·.2.2 == k)).find? (·.1 == name) <;> rfl

theorem lookup_toScopes {g : InstallLog α} (hg : Wf g) (name : String) :
    g.toScopes.lookup name = g.lookup name := by
  have hks : g.openScopes.Pairwise (· > ·) := by
    unfold openScopes
    refine List.pairwise_append.2 ⟨hg.opened_desc, List.pairwise_singleton _ _, fun k hk j hj => ?_⟩
    rw [List.mem_singleton.1 hj]
    exact (hg.opened_range k hk).1
  -- only the bindings of open scopes matter, on either side
  have hframe : ∀ k ∈ g.openScopes, g.frameOf k =
      ((g.installs.filter fun b => g.openScopes.contains b.2.2).filter (·.2.2 == k)).map
        fun b => (b.1, b.2.1) := by
    intro k hk
    unfold frameOf
    rw [List.filter_filter]
    congr 1
    refine List.filter_congr fun b _ => ?_
    by_cases hb : b.2.2 = k
    · simp [hb, hk]
    · simp [hb]
  unfold Scopes.lookup
  rw [toScopes_frames, List.map_congr_left hframe,
    findSome?_frames name hks (fun b hb => by simpa using (List.mem_filter.1 hb).2) hg.open_order]
  unfold lookup
  rw [List.find?_filter]
  congr 2
  funext b
  cases b.1 == name <;> cases g.openScopes.contains b.2.2 <;> rfl

end InstallLog

open Scopes in
theorem scopes_refine_installLog {α : Type} (ops : List (Op α)) :
    root.run ops = (({} : InstallLog α).run ops).toScopes ∧
    (root.run ops).level =
      ops.countP Op.isEnter - (({} : InstallLog α).run ops).closed ∧
    (∀ name, (root.run ops).lookup name = (({} : InstallLog α).run ops).lookup name) ∧
    (∀ s : Scopes α, ((∃ e, s.exit = .error e) ↔ s.level = 0) ∧ (s.level = 0 → s.step .exit = s)) ∧
    ∀ (s : Scopes α) (inside : List (Op α)), Op.openAfter 0 inside = some 0 →
      ((s.enter).run inside).exit = .ok s := by
  obtain ⟨hwf, hview⟩ := InstallLog.run_wf_toScopes ops
  refine ⟨hview, ?_, fun name => ?_, fun s => ⟨exit_refused_iff s, step_exit_of_root⟩,
    fun s _ h => exit_run_enter s h⟩
  · have hcount := hwf.counted
    rw [InstallLog.entered_run] at hcount
    rw [hview, InstallLog.toScopes_level]
    simp only [Nat.zero_add] at hcount
    omega
  · rw [hview, InstallLog.lookup_toScopes hwf]

theorem shadowing_restored_on_exit :
    Scopes.Op.openAfter 0 [Scopes.Op.install "x" (2 : Nat)] = some 0 ∧
    ((Scopes.root.run [.install "x" (1 : Nat)]).enter.run [.install "x" 2]).exit =
      .ok (Scopes.root.run [.install "x" 1]) ∧
    (Scopes.root.run [.install "x" (1 : Nat), .enter, .install "x" 2, .exit]).lookup "x" =
      (({} : InstallLog Nat).run [.install "x" 1, .enter, .install "x" 2, .exit]).lookup "x" :=
  ⟨rfl, (scopes_refine_installLog ([] : List (Scopes.Op Nat))).2.2.2.2 _ _ rfl,
    (scopes_refine_installLog [.install "x" (1 : Nat), .enter, .install "x" 2, .exit]).2.2.1 "x"⟩

end ScopedC

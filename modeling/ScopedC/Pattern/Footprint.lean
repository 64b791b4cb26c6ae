import ScopedC.Pattern.Utf8
namespace ScopedC

namespace Pattern

-- The memory the automaton builder counts: 32 bytes a state, 4 a branch of a split state and 8 a
-- byte-range transition, and it stops once the count passes this limit.
def sizeLimit : Nat := 10485760

structure Tally where
  states : Nat
  extra : Nat

def Tally.bytes (t : Tally) : Nat := 32 * t.states + t.extra

abbrev Build := StateT Tally (Except Unit)

def checkLimit : Build Unit := do
  if (← get).bytes > sizeLimit then throw ()

def addState (extra : Nat) : Build Nat := do
  let t ← get
  set ({ states := t.states + 1, extra := t.extra + extra } : Tally)
  checkLimit
  pure t.states

def addBranch : Build Unit := do
  modify fun t => { t with extra := t.extra + 4 }
  checkLimit

inductive Tail where
  | plain
  | split
deriving DecidableEq

def Tail.join : Tail → Build Unit
  | .plain => pure ()
  | .split => addBranch

def emptyPiece : Build Tail := do
  let _ ← addState 0
  pure .plain

def addStates : Nat → Build Unit
  | 0 => pure ()
  | n + 1 => do
    let _ ← addState 0
    addStates n

-- Byte sequences of a set

def fnvStep (h : UInt64) (x : Nat) : UInt64 := (h ^^^ UInt64.ofNat x) * 1099511628211

def fnvStart : UInt64 := 14695981039346656037

abbrev Slots (κ : Type) := List (Nat × κ × Nat)

def Slots.get? {κ : Type} [BEq κ] (t : Slots κ) (slot : Nat) (key : κ) : Option Nat :=
  match List.find? (fun e => e.1 == slot) t with
  | some (_, k, id) => if k == key then some id else none
  | none => none

def Slots.put {κ : Type} (t : Slots κ) (slot : Nat) (key : κ) (id : Nat) : Slots κ :=
  (slot, key, id) :: t.filter (·.1 != slot)

abbrev Edge := Nat × Nat × Nat

def edgesSlot (edges : List Edge) : Nat :=
  (edges.foldl (fun h (lo, hi, next) => fnvStep (fnvStep (fnvStep h lo) hi) next) fnvStart).toNat
    % 10000

structure OpenState where
  edges : List Edge
  pending : Option (Nat × Nat)

def OpenState.close (s : OpenState) (next : Nat) : OpenState :=
  match s.pending with
  | some (lo, hi) => ⟨s.edges ++ [(lo, hi, next)], none⟩
  | none => s

def buildEdges (edges : List Edge) (table : Slots (List Edge)) : Build (Nat × Slots (List Edge)) :=
  let slot := edgesSlot edges
  match table.get? slot edges with
  | some id => pure (id, table)
  | none => do
    let id ← addState (8 * edges.length)
    pure (id, table.put slot edges id)

def buildAbove (keep : Nat) (next : Nat) :
    List OpenState → Slots (List Edge) → Build (List OpenState × Slots (List Edge))
  | [], table => pure ([], table)
  | s :: rest, table =>
    if rest.length > keep then do
      let (id, table) ← buildEdges (s.close next).edges table
      buildAbove keep id rest table
    else pure (s.close next :: rest, table)

def sharedRanges : List OpenState → List (Nat × Nat) → Nat
  | s :: ss, r :: rs => if s.pending == some r then sharedRanges ss rs + 1 else 0
  | _, _ => 0

def addSequence (target : Nat) (stack : List OpenState) (table : Slots (List Edge))
    (seq : List (Nat × Nat)) : Build (List OpenState × Slots (List Edge)) := do
  let shared := sharedRanges stack.reverse seq
  let (stack, table) ← buildAbove shared target stack table
  match seq.drop shared, stack with
  | r :: rs, s :: rest =>
    pure ((rs.map fun r => (⟨[], some r⟩ : OpenState)).reverse ++ ({ s with pending := some r } :: rest),
      table)
  | _, _ => pure (stack, table)

def forwardClass (s : CharSet) : Build Tail := do
  let target ← addState 0
  let seqs := s.flatMap fun (lo, hi) => utf8Sequences lo hi
  let (stack, table) ← seqs.foldlM (fun (st : List OpenState × Slots (List Edge)) seq =>
    addSequence target st.1 st.2 seq) ([⟨[], none⟩], [])
  let (stack, table) ← buildAbove 0 target stack table
  match stack with
  | root :: _ => let _ ← buildEdges root.edges table
  | [] => pure ()
  pure .plain

def suffixSlot (key : Edge) : Nat :=
  (fnvStep (fnvStep (fnvStep fnvStart key.1) key.2.1) key.2.2).toNat % 1000

def backwardClass (s : CharSet) : Build Tail := do
  let _ ← addState 0
  let finish ← addState 0
  let seqs := s.flatMap fun (lo, hi) => utf8Sequences lo hi
  let _ ← seqs.foldlM (fun (table : Slots Edge) seq => do
    let (_, table) ← seq.foldlM (fun (st : Nat × Slots Edge) (lo, hi) => do
      let key : Edge := (st.1, lo, hi)
      let slot := suffixSlot key
      match st.2.get? slot key with
      | some id => pure (id, st.2)
      | none => do
        let id ← addState 0
        pure (id, st.2.put slot key id)) (finish, table)
    addBranch
    pure table) []
  pure .plain

def classPiece (backward : Bool) (s : CharSet) : Build Tail :=
  if s.isAscii then do
    let _ ← addState 0
    let _ ← addState (8 * s.length)
    pure .plain
  else if backward then backwardClass s
  else forwardClass s

-- Tries of literals

structure TrieNode where
  done : List (List (Nat × Nat)) := []
  active : List (Nat × Nat) := []

def TrieNode.isLeaf (n : TrieNode) : Bool := n.done.all (·.isEmpty) && n.active.isEmpty

def TrieNode.addMatch (n : TrieNode) : TrieNode :=
  if n.isLeaf && !n.done.isEmpty then n else { done := n.done ++ [n.active], active := [] }

def TrieNode.addEdge (n : TrieNode) (b next : Nat) : TrieNode :=
  { n with active := (n.active.filter (·.1 < b)) ++ [(b, next)] ++ n.active.filter (·.1 > b) }

def trieAdd (node : Nat) : List Nat → Array TrieNode → Array TrieNode
  | [], t => t.modify node TrieNode.addMatch
  | b :: bs, t =>
    match ((t[node]?.getD {}).active.find? (·.1 == b)) with
    | some (_, next) => trieAdd next bs t
    | none =>
      let next := t.size
      trieAdd next bs ((t.push {}).modify node (·.addEdge b next))

def buildTrie (t : Array TrieNode) : Nat → Nat → Build Unit
  | 0, _ => pure ()
  | fuel + 1, i => do
    let n := t[i]?.getD {}
    let chunks := n.done ++ [n.active]
    let branches ← chunks.foldlM (fun (branches : Nat) chunk => do
      chunk.forM fun (_, next) =>
        if (t[next]?.getD {}).isLeaf then pure () else buildTrie t fuel next
      let built := if chunk.isEmpty then 0 else 1
      if chunk.length == 1 then let _ ← addState 0
      else if chunk.length > 1 then let _ ← addState (8 * chunk.length)
      pure (branches + built + 1)) 0
    -- every chunk but the last is followed by the match
    let _ ← addState (4 * (branches - 1))

def triePiece (backward : Bool) (lits : List (List Char)) : Build Tail := do
  let bytes := lits.map fun cs =>
    let bs := cs.flatMap fun c => utf8Bytes c.toNat
    if backward then bs.reverse else bs
  let t := bytes.foldl (fun t bs => trieAdd 0 bs t) #[{}]
  let _ ← addState 0
  buildTrie t (t.size + 1) 0
  pure .plain

-- Sequences, choices and repetitions

def chainFrom : Tail → List (Build Tail) → Build Tail
  | t, [] => pure t
  | t, p :: ps => do
    t.join
    let u ← p
    chainFrom u ps

def chain : List (Build Tail) → Build Tail
  | [] => emptyPiece
  | p :: ps => do
    let t ← p
    chainFrom t ps

def branchPiece : List (Build Tail) → Build Tail
  | p :: q :: rest => do
    let t ← p
    let u ← q
    let _ ← addState 0
    let _ ← addState 0
    addBranch
    t.join
    addBranch
    u.join
    rest.forM fun r => do
      let v ← r
      addBranch
      v.join
    pure .plain
  | ps => chain ps

def morePieces (one : Build Tail) : Nat → Tail → Tally → Except Unit (Tail × Tally)
  | 0, t, s => .ok (t, s)
  | k + 1, t, s =>
    match (do t.join; one : Build Tail) s with
    | .ok (u, s) => morePieces one k u s
    | .error e => .error e

def exactly (one : Build Tail) : Nat → Build Tail
  | 0 => emptyPiece
  | n + 1 => do
    let t ← one
    fun s => morePieces one n t s

def optionalPieces (one : Build Tail) : Nat → Tail → Tally → Except Unit (Tail × Tally)
  | 0, t, s => .ok (t, s)
  | k + 1, t, s =>
    let step : Build Tail := do
      let _ ← addState 0
      let u ← one
      t.join
      addBranch
      addBranch
      pure u
    match step s with
    | .ok (u, s) => optionalPieces one k u s
    | .error e => .error e

def repetition (one : Build Tail) (reads : Bool) (min : Nat) (max : Option Nat) : Build Tail :=
  match min, max with
  | 0, some 1 => do
    let _ ← addState 0
    let t ← one
    let _ ← addState 0
    addBranch
    addBranch
    t.join
    pure .plain
  | 0, none =>
    if reads then do
      let _ ← addState 0
      let t ← one
      addBranch
      t.join
      pure .split
    else do
      let t ← one
      let _ ← addState 0
      t.join
      addBranch
      let _ ← addState 0
      let _ ← addState 0
      addBranch
      addBranch
      addBranch
      pure .plain
  | 1, none => do
    let t ← one
    let _ ← addState 0
    t.join
    addBranch
    pure .split
  | n + 2, none => do
    let t ← exactly one (n + 1)
    let u ← one
    let _ ← addState 0
    t.join
    u.join
    addBranch
    pure .split
  | min, some max =>
    if min = max then exactly one min
    else do
      let t ← exactly one min
      let _ ← addState 0
      let u ← fun s => optionalPieces one (max - min) t s
      u.join
      pure .plain

def literalsOf? : List Hir → Option (List (List Char))
  | [] => some []
  | .literal cs :: rest => (literalsOf? rest).map (cs :: ·)
  | _ => none

mutual

def Hir.build (backward captures : Bool) : Hir → Build Tail
  | .empty | .look _ => emptyPiece
  | .literal cs => do
    addStates (cs.foldl (fun n c => n + Hir.utf8Width c.toNat) 0)
    pure .plain
  | .chars s => classPiece backward s
  | .rep min max _ sub =>
    repetition (Hir.build backward captures sub) (sub.minLen.any (· > 0)) min max
  | .capture _ sub =>
    if captures then do
      let _ ← addState 0
      let t ← Hir.build backward captures sub
      let _ ← addState 0
      t.join
      pure .plain
    else Hir.build backward captures sub
  | .concat parts =>
    let ps := Hir.buildEach backward captures parts
    chain (if backward then ps.reverse else ps)
  | .alt branches =>
    match literalsOf? branches with
    | some lits => if lits.length ≥ 2 then triePiece backward lits
      else branchPiece (Hir.buildEach backward captures branches)
    | none => branchPiece (Hir.buildEach backward captures branches)

def Hir.buildEach (backward captures : Bool) : List Hir → List (Build Tail)
  | [] => []
  | h :: t => Hir.build backward captures h :: Hir.buildEach backward captures t

end

def Hir.fits (backward captures : Bool) (h : Hir) : Bool :=
  let anchored := if backward then h.endAnchored else h.startAnchored
  let whole : Build Unit := do
    let lead ← if anchored then emptyPiece else do
      let _ ← addState 0
      let _ ← addState 0
      let _ ← addState 8
      addBranch
      pure Tail.split
    let body ← Hir.build backward captures (if captures then .capture 0 h else h)
    let _ ← addState 0
    body.join
    lead.join
  match whole ⟨0, 0⟩ with
  | .ok _ => true
  | .error _ => false

end Pattern

end ScopedC

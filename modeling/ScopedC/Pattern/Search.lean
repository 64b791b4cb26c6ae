import ScopedC.Pattern.Parse
import ScopedC.Pattern.Footprint
import Std.Data.HashSet
namespace ScopedC

namespace Pattern

inductive Node where
  | chars (s : CharSet) (next : Nat)
  | split (left right : Nat)
  | look (l : Look) (next : Nat)
  | skip (next : Nat)
  | accept
deriving Repr

structure Matcher where
  nodes : Array Node
  start : Nat
deriving Repr

def addNode (nodes : Array Node) (n : Node) : Nat × Array Node := (nodes.size, nodes.push n)

def optionalCopies (compile : Nat → Array Node → Nat × Array Node) (next : Nat) :
    Nat → Nat → Array Node → Nat × Array Node
  | 0, tail, nodes => (tail, nodes)
  | k + 1, tail, nodes =>
    let (entry, nodes) := compile tail nodes
    let (s, nodes) := addNode nodes (.split entry next)
    optionalCopies compile next k s nodes

def requiredCopies (compile : Nat → Array Node → Nat × Array Node) :
    Nat → Nat → Array Node → Nat × Array Node
  | 0, tail, nodes => (tail, nodes)
  | k + 1, tail, nodes =>
    let (entry, nodes) := compile tail nodes
    requiredCopies compile k entry nodes

def branchStates (compile : List (Nat → Array Node → Nat × Array Node)) (next : Nat)
    (nodes : Array Node) : Nat × Array Node :=
  match compile with
  | [] => (next, nodes)
  | [c] => c next nodes
  | c :: cs =>
    let (rest, nodes) := branchStates cs next nodes
    let (first, nodes) := c next nodes
    addNode nodes (.split first rest)

def chainStates (compile : List (Nat → Array Node → Nat × Array Node)) (next : Nat)
    (nodes : Array Node) : Nat × Array Node :=
  compile.foldr (fun c (next, nodes) => c next nodes) (next, nodes)

mutual

def Hir.compile : Hir → Nat → Array Node → Nat × Array Node
  | .empty, next, nodes => (next, nodes)
  | .literal cs, next, nodes =>
    cs.foldr (fun c (next, nodes) => addNode nodes (.chars (CharSet.single c) next)) (next, nodes)
  | .chars s, next, nodes => addNode nodes (.chars s next)
  | .look l, next, nodes => addNode nodes (.look l next)
  | .capture _ sub, next, nodes => sub.compile next nodes
  | .concat parts, next, nodes => chainStates (Hir.compileEach parts) next nodes
  | .alt branches, next, nodes => branchStates (Hir.compileEach branches) next nodes
  | .rep min (some max) _ sub, next, nodes =>
    let (tail, nodes) := optionalCopies sub.compile next (max - min) next nodes
    requiredCopies sub.compile min tail nodes
  | .rep min none _ sub, next, nodes =>
    let (loop, nodes) := addNode nodes (.skip next)
    let (body, nodes) := sub.compile loop nodes
    let nodes := nodes.set! loop (.split body next)
    requiredCopies sub.compile min loop nodes

def Hir.compileEach : List Hir → List (Nat → Array Node → Nat × Array Node)
  | [] => []
  | h :: t => h.compile :: Hir.compileEach t

end

def isWordChar (c : Option Char) : Bool :=
  match c with
  | some c => c.isAlphanum || c == '_'
  | none => false

def Look.holds (l : Look) (before after : Option Char) : Bool :=
  match l with
  | .start => before.isNone
  | .finish => after.isNone
  | .startLF => before.isNone || before == some '\n'
  | .endLF => after.isNone || after == some '\n'
  | .startCRLF =>
    before.isNone || before == some '\n' || (before == some '\r' && after != some '\n')
  | .endCRLF => after.isNone || after == some '\r' || (after == some '\n' && before != some '\r')
  | .word => isWordChar before != isWordChar after
  | .notWord => isWordChar before == isWordChar after
  | .wordStart => !isWordChar before && isWordChar after
  | .wordEnd => isWordChar before && !isWordChar after
  | .wordStartHalf => !isWordChar before
  | .wordEndHalf => !isWordChar after
  | .unicodeWord => false

namespace Matcher

def close (m : Matcher) (before after : Option Char) :
    Nat → List Nat → Std.HashSet Nat × List Nat → Std.HashSet Nat × List Nat
  | 0, _, acc => acc
  | _ + 1, [], acc => acc
  | fuel + 1, s :: todo, (seen, reached) =>
    if seen.contains s then m.close before after fuel todo (seen, reached)
    else
      let acc := (seen.insert s, s :: reached)
      match m.nodes[s]? with
      | some (.split a b) => m.close before after fuel (a :: b :: todo) acc
      | some (.skip n) => m.close before after fuel (n :: todo) acc
      | some (.look l n) =>
        if l.holds before after then m.close before after fuel (n :: todo) acc
        else m.close before after fuel todo acc
      | _ => m.close before after fuel todo acc

def closure (m : Matcher) (before after : Option Char) (states : List Nat) : List Nat :=
  (m.close before after (2 * m.nodes.size + states.length + 1) states ({}, [])).2

def accepts (m : Matcher) (states : List Nat) : Bool :=
  states.any fun s => match (m.nodes[s]? : Option Node) with
    | some .accept => true
    | _ => false

def advance (m : Matcher) (states : List Nat) (c : Char) : List Nat :=
  states.filterMap fun s => match (m.nodes[s]? : Option Node) with
    | some (.chars cs next) => if CharSet.contains cs c.toNat then some next else none
    | _ => none

def search (m : Matcher) : Option Char → List Char → List Nat → Bool
  | before, [], states => m.accepts (m.closure before none (m.start :: states))
  | before, c :: rest, states =>
    let here := m.closure before (some c) (m.start :: states)
    m.accepts here || m.search (some c) rest (m.advance here c)

def isMatch (m : Matcher) (text : String) : Bool := m.search none text.toList []

end Matcher

def Matcher.ofPattern (src : String) : Except String Matcher :=
  match Hir.ofPattern src with
  | .error r => .error (r.render src)
  | .ok h =>
    let tooBig := s!"Compiled regex exceeds size limit of {sizeLimit} bytes."
    if !h.fits false true then .error tooBig
    else if h.hasUnicodeWord then .error "error building NFA"
    else if !h.fits true false then .error tooBig
    else
      let (acceptState, nodes) := addNode #[] .accept
      let (start, nodes) := h.compile acceptState nodes
      .ok ⟨nodes, start⟩

-- The test a log filter's pattern puts to a message: whether it holds a match.
def messageTest (src : String) : Except String (String → Bool) :=
  (Matcher.ofPattern src).map Matcher.isMatch

end Pattern

end ScopedC

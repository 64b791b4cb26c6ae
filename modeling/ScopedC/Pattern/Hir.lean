import ScopedC.Pattern.Error
namespace ScopedC

namespace Pattern

abbrev CharSet := List (Nat × Nat)

namespace CharSet

def maxCodePoint : Nat := 0x10FFFF

def maxByte : Nat := 0xFF

def merge : CharSet → CharSet
  | [] => []
  | [r] => [r]
  | (a, b) :: (c, d) :: rest =>
    if c ≤ b + 1 then merge ((a, max b d) :: rest) else (a, b) :: merge ((c, d) :: rest)
termination_by s => s.length

-- Sets are kept sorted and without overlapping or touching ranges, so equal sets have equal lists.
def normalize (s : CharSet) : CharSet :=
  merge ((s.filter fun r => r.1 ≤ r.2).mergeSort fun x y => x.1 ≤ y.1)

def union (s t : CharSet) : CharSet := normalize (s ++ t)

def gaps (top : Nat) : Nat → CharSet → CharSet
  | lo, [] => if lo ≤ top then [(lo, top)] else []
  | lo, (a, b) :: rest =>
    (if lo < a then [(lo, a - 1)] else []) ++ gaps top (b + 1) rest

def complement (top : Nat) (s : CharSet) : CharSet := gaps top 0 (normalize s)

def inter (top : Nat) (s t : CharSet) : CharSet :=
  complement top (union (complement top s) (complement top t))

def diff (top : Nat) (s t : CharSet) : CharSet := inter top s (complement top t)

def symmDiff (top : Nat) (s t : CharSet) : CharSet := diff top (union s t) (inter top s t)

def contains (s : CharSet) (c : Nat) : Bool := s.any fun r => r.1 ≤ c && c ≤ r.2

def isAscii (s : CharSet) : Bool := s.all fun r => r.2 ≤ 0x7F

def foldAscii (s : CharSet) : CharSet :=
  let lower := inter 0x7F s [(0x61, 0x7A)]
  let upper := inter 0x7F s [(0x41, 0x5A)]
  union s (union (lower.map fun r => (r.1 - 32, r.2 - 32)) (upper.map fun r => (r.1 + 32, r.2 + 32)))

def single (c : Char) : CharSet := [(c.toNat, c.toNat)]

end CharSet

inductive AsciiClass where
  | alnum | alpha | ascii | blank | cntrl | digit | graph | lower | print | punct | space
  | upper | word | xdigit
deriving DecidableEq, Repr

namespace AsciiClass

def ofName? : String → Option AsciiClass
  | "alnum" => some alnum
  | "alpha" => some alpha
  | "ascii" => some ascii
  | "blank" => some blank
  | "cntrl" => some cntrl
  | "digit" => some digit
  | "graph" => some graph
  | "lower" => some lower
  | "print" => some print
  | "punct" => some punct
  | "space" => some space
  | "upper" => some upper
  | "word" => some word
  | "xdigit" => some xdigit
  | _ => none

def chars : AsciiClass → CharSet
  | alnum => [(0x30, 0x39), (0x41, 0x5A), (0x61, 0x7A)]
  | alpha => [(0x41, 0x5A), (0x61, 0x7A)]
  | ascii => [(0x00, 0x7F)]
  | blank => [(0x09, 0x09), (0x20, 0x20)]
  | cntrl => [(0x00, 0x1F), (0x7F, 0x7F)]
  | digit => [(0x30, 0x39)]
  | graph => [(0x21, 0x7E)]
  | lower => [(0x61, 0x7A)]
  | print => [(0x20, 0x7E)]
  | punct => [(0x21, 0x2F), (0x3A, 0x40), (0x5B, 0x60), (0x7B, 0x7E)]
  | space => [(0x09, 0x0D), (0x20, 0x20)]
  | upper => [(0x41, 0x5A)]
  | word => [(0x30, 0x39), (0x41, 0x5A), (0x5F, 0x5F), (0x61, 0x7A)]
  | xdigit => [(0x30, 0x39), (0x41, 0x46), (0x61, 0x66)]

end AsciiClass

inductive Look where
  | start
  | finish
  | startLF
  | endLF
  | startCRLF
  | endCRLF
  | word
  | notWord
  | wordStart
  | wordEnd
  | wordStartHalf
  | wordEndHalf
  | unicodeWord
deriving DecidableEq, Repr

inductive Hir where
  | empty
  | literal (cs : List Char)
  | chars (s : CharSet)
  | look (l : Look)
  | rep (min : Nat) (max : Option Nat) (greedy : Bool) (sub : Hir)
  | capture (index : Nat) (sub : Hir)
  | concat (parts : List Hir)
  | alt (branches : List Hir)
deriving Repr

namespace Hir

def utf8Width (c : Nat) : Nat :=
  if c < 0x80 then 1 else if c < 0x800 then 2 else if c < 0x10000 then 3 else 4

def addLen (a b : Option Nat) : Option Nat := a.bind fun x => b.map (x + ·)

mutual

def same : Hir → Hir → Bool
  | empty, empty => true
  | literal a, literal b => a == b
  | chars s, chars t => s == t
  | look l, look m => l == m
  | rep a b g s, rep c d h t => a == c && b == d && g == h && same s t
  | capture i s, capture j t => i == j && same s t
  | concat ps, concat qs => sameAll ps qs
  | alt ps, alt qs => sameAll ps qs
  | _, _ => false

def sameAll : List Hir → List Hir → Bool
  | [], [] => true
  | p :: ps, q :: qs => same p q && sameAll ps qs
  | _, _ => false

end

mutual

def minLen : Hir → Option Nat
  | empty | look _ => some 0
  | literal cs => some (cs.foldl (fun n c => n + utf8Width c.toNat) 0)
  | chars [] => none
  | chars ((lo, _) :: _) => some (utf8Width lo)
  | rep min _ _ sub => sub.minLen.map (· * min)
  | capture _ sub => sub.minLen
  | concat ps => minLenSum ps
  | alt bs => minLenLeast bs

def minLenSum : List Hir → Option Nat
  | [] => some 0
  | h :: t => addLen h.minLen (minLenSum t)

def minLenLeast : List Hir → Option Nat
  | [] => none
  | [h] => h.minLen
  | h :: t => h.minLen.bind fun a => (minLenLeast t).map (Nat.min a)

end

mutual

def maxLen : Hir → Option Nat
  | empty | look _ => some 0
  | literal cs => some (cs.foldl (fun n c => n + utf8Width c.toNat) 0)
  | chars s =>
    match s.getLast? with
    | some (_, hi) => some (utf8Width hi)
    | none => none
  | rep _ max _ sub => max.bind fun m => sub.maxLen.map (· * m)
  | capture _ sub => sub.maxLen
  | concat ps => maxLenSum ps
  | alt bs => maxLenMost bs

def maxLenSum : List Hir → Option Nat
  | [] => some 0
  | h :: t => addLen h.maxLen (maxLenSum t)

def maxLenMost : List Hir → Option Nat
  | [] => none
  | [h] => h.maxLen
  | h :: t => h.maxLen.bind fun a => (maxLenMost t).map (Nat.max a)

end

mutual

def startAnchored : Hir → Bool
  | look .start => true
  | rep min _ _ sub => min > 0 && sub.startAnchored
  | capture _ sub => sub.startAnchored
  | concat ps => startAnchoredFrom ps
  | alt bs => startAnchoredAll bs
  | _ => false

def startAnchoredFrom : List Hir → Bool
  | [] => false
  | h :: t => h.startAnchored || (h.maxLen == some 0 && startAnchoredFrom t)

def startAnchoredAll : List Hir → Bool
  | [] => true
  | h :: t => h.startAnchored && startAnchoredAll t

end

mutual

def endAnchored : Hir → Bool
  | look .finish => true
  | rep min _ _ sub => min > 0 && sub.endAnchored
  | capture _ sub => sub.endAnchored
  | concat ps => endAnchoredUpTo ps
  | alt bs => endAnchoredAll bs
  | _ => false

def endAnchoredUpTo : List Hir → Bool
  | [] => false
  | h :: t =>
    endAnchoredUpTo t || ((maxLenSum t == some 0) && h.endAnchored)

def endAnchoredAll : List Hir → Bool
  | [] => true
  | h :: t => h.endAnchored && endAnchoredAll t

end

mutual

def hasUnicodeWord : Hir → Bool
  | look .unicodeWord => true
  | rep _ _ _ sub | capture _ sub => sub.hasUnicodeWord
  | concat ps | alt ps => anyUnicodeWord ps
  | _ => false

def anyUnicodeWord : List Hir → Bool
  | [] => false
  | h :: t => h.hasUnicodeWord || anyUnicodeWord t

end

def ofChars (s : CharSet) : Hir :=
  match s with
  | [(a, b)] => if a = b then literal [Char.ofNat a] else chars s
  | s => chars s

def consPart (h : Hir) (acc : List Hir) : List Hir :=
  match h, acc with
  | literal a, literal b :: rest => literal (a ++ b) :: rest
  | h, acc => h :: acc

def seq (parts : List Hir) : Hir :=
  let flat := parts.flatMap fun
    | concat ps => ps
    | empty => []
    | h => [h]
  match flat.foldr consPart [] with
  | [] => empty
  | [h] => h
  | hs => concat hs

def singletons : List Hir → Option CharSet
  | [] => some []
  | literal [c] :: rest => (singletons rest).map ((c.toNat, c.toNat) :: ·)
  | _ => none

def classUnion : List Hir → Option CharSet
  | [] => some []
  | chars s :: rest => (classUnion rest).map (CharSet.union s)
  | _ => none

def concatParts : List Hir → Option (List (List Hir))
  | [] => some []
  | concat ps :: rest => (concatParts rest).map (ps :: ·)
  | _ => none

def sharedLen : List Hir → List Hir → Nat
  | p :: ps, q :: qs => if same p q then sharedLen ps qs + 1 else 0
  | _, _ => 0

def choiceWith : Nat → List Hir → Hir
  | fuel, branches =>
    let flat := branches.flatMap fun
      | alt bs => bs
      | h => [h]
    match flat with
    | [] => chars []
    | [h] => h
    | hs =>
      match singletons hs with
      | some s => ofChars (CharSet.normalize s)
      | none =>
        match classUnion hs with
        | some s => ofChars s
        | none =>
          match fuel, concatParts hs with
          | fuel + 1, some (first :: rest) =>
            let n := rest.foldl (fun n ps => Nat.min n (sharedLen first ps)) first.length
            if n = 0 then alt hs
            else seq (first.take n ++ [choiceWith fuel ((first :: rest).map fun ps => seq (ps.drop n))])
          | _, _ => alt hs

def choice (branches : List Hir) : Hir :=
  choiceWith (branches.foldl (fun n b => n + match b with | concat ps => ps.length | _ => 1) 1)
    branches

def repeatOf (min : Nat) (max : Option Nat) (greedy : Bool) (sub : Hir) : Hir :=
  let (min, max) :=
    if sub.maxLen == some 0 then (Nat.min min 1, some ((max.map (Nat.min · 1)).getD 1))
    else (min, max)
  if min = 0 ∧ max = some 0 then empty
  else if min = 1 ∧ max = some 1 then sub
  else rep min max greedy sub

end Hir

end Pattern

end ScopedC

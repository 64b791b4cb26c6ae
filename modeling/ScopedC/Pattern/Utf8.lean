import ScopedC.Pattern.Hir
namespace ScopedC

namespace Pattern

def utf8Bytes (c : Nat) : List Nat := (String.utf8EncodeChar (Char.ofNat c)).map (·.toNat)

def widthTop : Nat → Nat
  | 1 => 0x7F
  | 2 => 0x7FF
  | _ => 0xFFFF

def alignCut (lo hi : Nat) : List Nat → Option ((Nat × Nat) × (Nat × Nat))
  | [] => none
  | block :: rest =>
    if lo / block != hi / block then
      if lo % block != 0 then some ((lo, lo / block * block + block - 1), (lo / block * block + block, hi))
      else if hi % block != block - 1 then some ((lo, hi / block * block - 1), (hi / block * block, hi))
      else alignCut lo hi rest
    else alignCut lo hi rest

def firstCut (lo hi : Nat) : Option ((Nat × Nat) × (Nat × Nat)) :=
  if lo < 0xE000 && hi > 0xD7FF then some ((lo, 0xD7FF), (0xE000, hi))
  else
    match [1, 2, 3].find? (fun n => lo ≤ widthTop n && widthTop n < hi) with
    | some n => some ((lo, widthTop n), (widthTop n + 1, hi))
    | none => if hi ≤ 0x7F then none else alignCut lo hi [64, 4096, 262144]

def sequencesOf : Nat → List (Nat × Nat) → List (List (Nat × Nat)) → List (List (Nat × Nat))
  | 0, _, out => out.reverse
  | _ + 1, [], out => out.reverse
  | fuel + 1, (lo, hi) :: stack, out =>
    if lo > hi then sequencesOf fuel stack out
    else
      match firstCut lo hi with
      | some (low, high) => sequencesOf fuel (low :: high :: stack) out
      | none =>
        if hi ≤ 0x7F then sequencesOf fuel stack ([(lo, hi)] :: out)
        else sequencesOf fuel stack ((utf8Bytes lo).zip (utf8Bytes hi) :: out)

def utf8Sequences (lo hi : Nat) : List (List (Nat × Nat)) := sequencesOf 256 [(lo, hi)] []

end Pattern

end ScopedC

import ScopedC.Pattern.Hir
import ScopedC.Unicode
namespace ScopedC

namespace Pattern

structure Flags where
  caseless : Bool := false
  multiLine : Bool := false
  dotAll : Bool := false
  swapGreed : Bool := false
  unicode : Bool := true
  crlf : Bool := false
  extended : Bool := false
deriving Repr

inductive FlagName where
  | caseless | multiLine | dotAll | swapGreed | unicode | crlf | extended
deriving DecidableEq, Repr

def FlagName.ofChar? : Char → Option FlagName
  | 'i' => some .caseless
  | 'm' => some .multiLine
  | 's' => some .dotAll
  | 'U' => some .swapGreed
  | 'u' => some .unicode
  | 'R' => some .crlf
  | 'x' => some .extended
  | _ => none

def Flags.set (f : Flags) (n : FlagName) (v : Bool) : Flags :=
  match n with
  | .caseless => { f with caseless := v }
  | .multiLine => { f with multiLine := v }
  | .dotAll => { f with dotAll := v }
  | .swapGreed => { f with swapGreed := v }
  | .unicode => { f with unicode := v }
  | .crlf => { f with crlf := v }
  | .extended => { f with extended := v }

def Flags.apply (f : Flags) (items : List (FlagName × Bool)) : Flags :=
  items.foldl (fun f (n, v) => f.set n v) f

def Flags.top (f : Flags) : Nat := if f.unicode then CharSet.maxCodePoint else CharSet.maxByte

structure Reader where
  text : Array Char
  place : Place := Place.start
  extended : Bool := false
  flags : Flags := {}
  captures : Nat := 0
  names : List (String × Span) := []
  fault : Option Refusal := none

abbrev Read := StateT Reader (Except Refusal)

namespace Read

def fail {α : Type} (f : Fault) (sp : Span) : Read α := throw ⟨f, sp, none⟩

def failBack {α : Type} (f : Fault) (sp back : Span) : Read α := throw ⟨f, sp, some back⟩

def expect {α : Type} : Except Refusal α → Read α
  | .ok a => pure a
  | .error e => throw e

def note (f : Fault) (sp : Span) : Read Unit :=
  modify fun r => if r.fault.isSome then r else { r with fault := some ⟨f, sp, none⟩ }

def here : Read Place := do pure (← get).place

def left : Read Nat := do
  let r ← get
  pure (r.text.size - r.place.index)

def atEnd : Read Bool := do
  let r ← get
  pure (r.text.size ≤ r.place.index)

def char : Read Char := do
  let r ← get
  pure (r.text.getD r.place.index '\x00')

def peek : Read (Option Char) := do
  let r ← get
  pure r.text[r.place.index + 1]?

def bump : Read Bool := do
  let r ← get
  match r.text[r.place.index]? with
  | none => pure false
  | some c =>
    set { r with place := r.place.next c }
    pure (r.place.index + 1 < r.text.size)

def spanChar : Read Span := do
  let r ← get
  pure ⟨r.place, r.place.next (r.text.getD r.place.index '\x00')⟩

def spanHere : Read Span := do pure (Span.at (← here))

def bumpN : Nat → Read Unit
  | 0 => pure ()
  | n + 1 => do
    let _ ← bump
    bumpN n

def bumpIf (s : String) : Read Bool := do
  let r ← get
  let cs := s.toList
  if (r.text.extract r.place.index (r.place.index + cs.length)).toList == cs then
    bumpN cs.length
    pure true
  else pure false

def skipComment : Nat → Read Unit
  | 0 => pure ()
  | n + 1 => do
    if ← atEnd then return
    let c ← char
    let _ ← bump
    if c != '\n' then skipComment n

def skipSpace : Nat → Read Unit
  | 0 => pure ()
  | n + 1 => do
    if ← atEnd then return
    let c ← char
    if isWhiteSpace c then
      let _ ← bump
      skipSpace n
    else if c == '#' then
      let _ ← bump
      skipComment (← left)
      skipSpace n
    else return

def bumpSpace : Read Unit := do
  if (← get).extended then skipSpace ((← left) + 1)

def bumpAndSpace : Read Bool := do
  let _ ← bump
  bumpSpace
  pure !(← atEnd)

def peekSpace : Read (Option Char) := do
  let r ← get
  if !r.extended then return r.text[r.place.index + 1]?
  if r.text.size ≤ r.place.index then return none
  let after := (r.text.toList.drop (r.place.index + 1))
  let (found, _) := after.foldl (fun (acc : Option Char × Bool) c =>
    match acc with
    | (some x, b) => (some x, b)
    | (none, inComment) =>
      if isWhiteSpace c then (none, inComment)
      else if !inComment && c == '#' then (none, true)
      else if inComment && c == '\n' then (none, false)
      else (some c, inComment)) (none, false)
  match found with
  | some c => pure (some c)
  | none => pure after.head?

end Read

open Read

inductive Prim where
  | lit (span : Span) (c : Char) (hexByte : Bool)
  | dot (span : Span)
  | assert (span : Span) (l : Look) (needsUnicode : Bool)
  | perl (span : Span) (kind : AsciiClass) (negated : Bool)
  | property (span : Span)

def Prim.span : Prim → Span
  | .lit sp .. | .dot sp | .assert sp .. | .perl sp .. | .property sp => sp

def isMeta (c : Char) : Bool := "\\.+*?()|[]\x7b\x7d^$#&-~".contains c

def isEscapeable (c : Char) : Bool :=
  isMeta c || (c.toNat ≤ 0x7F && !c.isAlphanum && c != '<' && c != '>')

def hexValue (c : Char) : Nat :=
  if c.isDigit then c.toNat - '0'.toNat
  else if 'a' ≤ c && c ≤ 'f' then c.toNat - 'a'.toNat + 10
  else c.toNat - 'A'.toNat + 10

def isHex (c : Char) : Bool := c.isDigit || ('a' ≤ c && c ≤ 'f') || ('A' ≤ c && c ≤ 'F')

def hexChar? (digits : List Char) : Option Char :=
  let v := digits.foldl (fun n d => n * 16 + hexValue d) 0
  if v.isValidChar then some (Char.ofNat v) else none

def hexDigits : Nat → Nat → List Char → Read (List Char)
  | 0, _, acc => pure acc
  | n + 1, i, acc => do
    if i > 0 then
      if !(← bumpAndSpace) then fail .escapeUnexpectedEof (← spanHere)
    let c ← char
    if !isHex c then fail .escapeHexInvalidDigit (← spanChar)
    hexDigits n (i + 1) (acc ++ [c])

def hexBraced : Nat → List Char → Read (List Char)
  | 0, acc => pure acc
  | n + 1, acc => do
    if !(← bumpAndSpace) then return acc
    let c ← char
    if c == '\x7d' then return acc
    if !isHex c then fail .escapeHexInvalidDigit (← spanChar)
    hexBraced n (acc ++ [c])

def hexEscape : Read (Char × Bool × Place) := do
  let kind ← char
  let count := if kind == 'x' then 2 else if kind == 'u' then 4 else 8
  if !(← bumpAndSpace) then fail .escapeUnexpectedEof (← spanHere)
  if (← char) == '\x7b' then
    let bracePos ← here
    let start := (← spanChar).stop
    let digits ← hexBraced ((← left) + 1) []
    if ← atEnd then fail .escapeUnexpectedEof ⟨bracePos, ← here⟩
    let stop ← here
    let _ ← bumpAndSpace
    if digits.isEmpty then fail .escapeHexEmpty ⟨bracePos, ← here⟩
    match hexChar? digits with
    | none => fail .escapeHexInvalid ⟨start, stop⟩
    | some c => pure (c, false, ← here)
  else
    let start ← here
    let digits ← hexDigits count 0 []
    let _ ← bumpAndSpace
    let stop ← here
    match hexChar? digits with
    | none => fail .escapeHexInvalid ⟨start, stop⟩
    | some c => pure (c, kind == 'x', stop)

def skipBraced : Nat → Read Unit
  | 0 => pure ()
  | n + 1 => do
    if !(← bumpAndSpace) then return
    if (← char) == '\x7d' then return
    skipBraced n

def propertyEscape : Read Place := do
  if !(← bumpAndSpace) then fail .escapeUnexpectedEof (← spanHere)
  if (← char) == '\x7b' then
    skipBraced ((← left) + 1)
    if ← atEnd then fail .escapeUnexpectedEof (← spanHere)
    let _ ← bump
    here
  else
    if (← char) == '\\' then fail .unicodeClassInvalid (← spanChar)
    let _ ← bumpAndSpace
    here

def isBoundaryChar (c : Char) : Bool := c.isAlpha || c == '-'

def boundaryName : Nat → List Char → Read (List Char)
  | 0, acc => pure acc
  | n + 1, acc => do
    if ← atEnd then return acc
    let c ← char
    if !isBoundaryChar c then return acc
    let _ ← bumpAndSpace
    boundaryName n (acc ++ [c])

def specialBoundary (wbStart : Place) : Read (Option Look) := do
  let start ← here
  if !(← bumpAndSpace) then fail .specialWordOrRepetitionUnexpectedEof ⟨wbStart, ← here⟩
  let contentStart ← here
  if !isBoundaryChar (← char) then
    modify fun r => { r with place := start }
    return none
  let name ← boundaryName ((← left) + 1) []
  if (← atEnd) || (← char) != '\x7d' then
    fail .specialWordBoundaryUnclosed ⟨start, ← here⟩
  let stop ← here
  let _ ← bump
  match String.ofList name with
  | "start" => pure (some .wordStart)
  | "end" => pure (some .wordEnd)
  | "start-half" => pure (some .wordStartHalf)
  | "end-half" => pure (some .wordEndHalf)
  | _ => fail .specialWordBoundaryUnrecognized ⟨contentStart, stop⟩

def escape : Read Prim := do
  let start ← here
  if !(← bump) then fail .escapeUnexpectedEof ⟨start, ← here⟩
  let c ← char
  if c.isDigit then
    fail .unsupportedBackreference ⟨start, (← spanChar).stop⟩
  if c == 'x' || c == 'u' || c == 'U' then
    let (v, byte, stop) ← hexEscape
    return .lit ⟨start, stop⟩ v byte
  if c == 'p' || c == 'P' then
    let stop ← propertyEscape
    return .property ⟨start, stop⟩
  let perl := match c with
    | 'd' => some (AsciiClass.digit, false)
    | 'D' => some (AsciiClass.digit, true)
    | 's' => some (AsciiClass.space, false)
    | 'S' => some (AsciiClass.space, true)
    | 'w' => some (AsciiClass.word, false)
    | 'W' => some (AsciiClass.word, true)
    | _ => none
  if let some (kind, negated) := perl then
    let _ ← bump
    return .perl ⟨start, ← here⟩ kind negated
  let _ ← bump
  let sp : Span := ⟨start, ← here⟩
  if isEscapeable c then return .lit sp c false
  match c with
  | 'a' => pure (.lit sp '\x07' false)
  | 'f' => pure (.lit sp '\x0C' false)
  | 't' => pure (.lit sp '\t' false)
  | 'n' => pure (.lit sp '\n' false)
  | 'r' => pure (.lit sp '\r' false)
  | 'v' => pure (.lit sp '\x0B' false)
  | 'A' => pure (.assert sp .start false)
  | 'z' => pure (.assert sp .finish false)
  | 'b' =>
    if !(← atEnd) && (← char) == '\x7b' then
      match ← specialBoundary start with
      | some l => pure (.assert ⟨start, ← here⟩ l true)
      | none => pure (.assert sp .word true)
    else pure (.assert sp .word true)
  | 'B' => pure (.assert sp .notWord true)
  | '<' => pure (.assert sp .wordStart true)
  | '>' => pure (.assert sp .wordEnd true)
  | _ => fail .escapeUnrecognized sp

def primitive : Read Prim := do
  let c ← char
  if c == '\\' then return ← escape
  let sp ← spanChar
  let _ ← bump
  match c with
  | '.' => pure (.dot sp)
  | '^' => pure (.assert sp .startLF false)
  | '$' => pure (.assert sp .endLF false)
  | _ => pure (.lit sp c false)

def literalMeaning (sp : Span) (c : Char) (hexByte : Bool) : Read Hir := do
  let f := (← get).flags
  if !f.unicode && hexByte && c.toNat > 0x7F then
    note .invalidUtf8 sp
    return .empty
  if f.caseless then
    if f.unicode then
      note .unicodeCaseUnavailable sp
      return .empty
    else if c.toNat ≤ 0x7F then
      return Hir.ofChars (CharSet.foldAscii (CharSet.single c))
  pure (.literal [c])

def perlMeaning (sp : Span) (kind : AsciiClass) (negated : Bool) : Read CharSet := do
  let f := (← get).flags
  if f.unicode then
    note .unicodePerlClassNotFound sp
    return []
  let cs := if negated then CharSet.complement CharSet.maxByte kind.chars else kind.chars
  if !CharSet.isAscii cs then note .invalidUtf8 sp
  pure cs

def propertyMeaning (sp : Span) : Read CharSet := do
  if (← get).flags.unicode then note .unicodePropertyNotFound sp
  else note .unicodeNotAllowed sp
  pure []

def primMeaning : Prim → Read Hir
  | .lit sp c hexByte => literalMeaning sp c hexByte
  | .dot sp => do
    let f := (← get).flags
    if !f.unicode then
      note .invalidUtf8 sp
      return .empty
    if f.dotAll then return .chars [(0, CharSet.maxCodePoint)]
    if f.crlf then return .chars [(0, 9), (11, 12), (14, CharSet.maxCodePoint)]
    pure (.chars [(0, 9), (11, CharSet.maxCodePoint)])
  | .assert _ l needsUnicode => do
    let f := (← get).flags
    if needsUnicode && f.unicode then return .look .unicodeWord
    match l with
    | .startLF => pure (.look (if f.multiLine then (if f.crlf then .startCRLF else .startLF) else .start))
    | .endLF => pure (.look (if f.multiLine then (if f.crlf then .endCRLF else .endLF) else .finish))
    | l => pure (.look l)
  | .perl sp kind negated => do pure (Hir.ofChars (← perlMeaning sp kind negated))
  | .property sp => do pure (Hir.ofChars (← propertyMeaning sp))

-- Nesting

abbrev Nesting := List Span

def nestLimit : Nat := 250

def Nesting.beside (a b : Nesting) : Nesting := a ++ b.drop a.length

def Nesting.around (sp : Span) (parts : List Nesting) : Nesting :=
  (sp :: parts.foldl Nesting.beside []).take (nestLimit + 1)

-- Bracket classes

structure Union where
  span : Span
  chars : CharSet
  size : Nat
  nests : List Nesting

def Union.emptyAt (p : Place) : Union := ⟨Span.at p, [], 0, []⟩

def Union.push (u : Union) (sp : Span) (cs : CharSet) (nest : Nesting) : Union :=
  ⟨⟨if u.size == 0 then sp.start else u.span.start, sp.stop⟩, CharSet.union u.chars cs,
    u.size + 1, u.nests ++ [nest]⟩

def Union.nesting (u : Union) : Nesting :=
  match u.nests with
  | [] => []
  | [n] => n
  | ns => Nesting.around u.span ns

inductive SetOp where
  | inter | diff | symmDiff
deriving DecidableEq, Repr

inductive ClassFrame where
  | opened (parent : Union) (setSpan : Span) (negated : Bool)
  | op (kind : SetOp) (lhsSpan : Span) (lhs : CharSet) (lhsNest : Nesting)

def unclosedClass {α : Type} (stack : List ClassFrame) : Read α :=
  match stack.find? (fun | .opened .. => true | _ => false) with
  | some (.opened _ sp _) => fail .classUnclosed sp
  | _ => fail .classUnclosed (Span.at Place.start)

def foldNegate (sp : Span) (negated : Bool) (cs : CharSet) : Read CharSet := do
  let f := (← get).flags
  if f.unicode then
    if f.caseless && !cs.isEmpty then note .unicodeCaseUnavailable sp
    pure (if negated then CharSet.complement CharSet.maxCodePoint cs else cs)
  else
    let cs := if f.caseless then CharSet.foldAscii cs else cs
    let cs := if negated then CharSet.complement CharSet.maxByte cs else cs
    if !CharSet.isAscii cs then note .invalidUtf8 sp
    pure cs

def classByte (sp : Span) (c : Char) (hexByte : Bool) : Read Nat := do
  if c.toNat ≤ 0x7F then return c.toNat
  if hexByte then note .invalidUtf8 sp else note .unicodeNotAllowed sp
  pure 0

def popOp (rhsSpan : Span) (rhs : CharSet) (rhsNest : Nesting) :
    List ClassFrame → Read (Span × CharSet × Nesting × List ClassFrame)
  | .op kind lhsSpan lhs lhsNest :: rest => do
    let f := (← get).flags
    let (lhs, rhs) ← if f.unicode then do
        if f.caseless then
          if !rhs.isEmpty then note .unicodeCaseUnavailable rhsSpan
          if !lhs.isEmpty then note .unicodeCaseUnavailable lhsSpan
        pure (lhs, rhs)
      else if f.caseless then pure (CharSet.foldAscii lhs, CharSet.foldAscii rhs)
      else pure (lhs, rhs)
    let top := f.top
    let cs := match kind with
      | .inter => CharSet.inter top lhs rhs
      | .diff => CharSet.diff top lhs rhs
      | .symmDiff => CharSet.symmDiff top lhs rhs
    let sp : Span := ⟨lhsSpan.start, rhsSpan.stop⟩
    pure (sp, cs, Nesting.around sp [lhsNest, rhsNest], rest)
  | stack => pure (rhsSpan, rhs, rhsNest, stack)

def asciiClass? : Read (Option (Span × AsciiClass × Bool)) := do
  let start ← here
  let back : Read (Option (Span × AsciiClass × Bool)) := do
    modify fun r => { r with place := start }
    pure none
  if !(← bump) || (← char) != ':' then return ← back
  if !(← bump) then return ← back
  let negated ← if (← char) == '^' then do
      if !(← bump) then return ← back
      pure true
    else pure false
  let r ← get
  let nameStart := r.place.index
  let rest := r.text.toList.drop nameStart
  let name := rest.takeWhile (· != ':')
  if name.length == rest.length then return ← back
  bumpN name.length
  if !(← bumpIf ":]") then return ← back
  match AsciiClass.ofName? (String.ofList name) with
  | none => back
  | some kind => pure (some (⟨start, ← here⟩, kind, negated))

def asciiMeaning (sp : Span) (kind : AsciiClass) (negated : Bool) : Read CharSet :=
  foldNegate sp negated kind.chars

def classItem : Read Prim := do
  if (← char) == '\\' then escape
  else
    let sp ← spanChar
    let c ← char
    let _ ← bump
    pure (.lit sp c false)

def classSingle : Prim → Read CharSet
  | .lit sp c hexByte => do
    if (← get).flags.unicode then pure (CharSet.single c)
    else
      let b ← classByte sp c hexByte
      pure [(b, b)]
  | .perl sp kind negated => perlMeaning sp kind negated
  | .property sp => propertyMeaning sp
  | p => fail .classEscapeInvalid p.span

def classRange (stack : List ClassFrame) : Read (Span × CharSet) := do
  let p1 ← classItem
  bumpSpace
  if ← atEnd then unclosedClass stack
  let next ← peekSpace
  if (← char) != '-' || next == some ']' || next == some '-' then
    return (p1.span, ← classSingle p1)
  if !(← bumpAndSpace) then unclosedClass stack
  let p2 ← classItem
  let sp : Span := ⟨p1.span.start, p2.span.stop⟩
  let (lo, loSpan, loByte) ← match p1 with
    | .lit s c b => pure (c, s, b)
    | p => fail .classRangeLiteral p.span
  let (hi, hiSpan, hiByte) ← match p2 with
    | .lit s c b => pure (c, s, b)
    | p => fail .classRangeLiteral p.span
  if lo > hi then fail .classRangeInvalid sp
  if (← get).flags.unicode then return (sp, [(lo.toNat, hi.toNat)])
  let a ← classByte loSpan lo loByte
  let b ← classByte hiSpan hi hiByte
  pure (sp, [(a, b)])

def classOpen : Read (Span × Bool × Union) := do
  let start ← here
  if !(← bumpAndSpace) then fail .classUnclosed ⟨start, ← here⟩
  let negated ← if (← char) != '^' then pure false else do
      if !(← bumpAndSpace) then fail .classUnclosed ⟨start, ← here⟩
      pure true
  let u ← leadingDashes start ((← left) + 1) (Union.emptyAt (← here))
  let u ← if u.size == 0 && (← char) == ']' then do
      let sp ← spanChar
      let u := u.push sp (CharSet.single ']') []
      if !(← bumpAndSpace) then fail .classUnclosed ⟨start, ← here⟩
      pure u
    else pure u
  pure (⟨start, ← here⟩, negated, u)
where
  leadingDashes (start : Place) : Nat → Union → Read Union
    | 0, u => pure u
    | n + 1, u => do
      if (← char) != '-' then return u
      let sp ← spanChar
      let u := u.push sp (CharSet.single '-') []
      if !(← bumpAndSpace) then fail .classUnclosed (Span.at start)
      leadingDashes start n u

def classBody : Nat → Union → List ClassFrame → Read (CharSet × Nesting)
  | 0, u, _ => pure (u.chars, u.nesting)
  | n + 1, u, stack => do
    bumpSpace
    if ← atEnd then unclosedClass stack
    let c ← char
    let next ← peek
    if c == '[' then
      if !stack.isEmpty then
        if let some (sp, kind, negated) ← asciiClass? then
          let cs ← asciiMeaning sp kind negated
          return ← classBody n (u.push sp cs []) stack
      let (setSpan, negated, inner) ← classOpen
      classBody n inner (.opened u setSpan negated :: stack)
    else if c == ']' then
      let (_, cs, kindNest, stack) ← popOp u.span u.chars u.nesting stack
      match stack with
      | .opened parent setSpan negated :: rest =>
        let _ ← bump
        let setSpan : Span := ⟨setSpan.start, ← here⟩
        let cs ← foldNegate setSpan negated cs
        let nest := Nesting.around setSpan [kindNest]
        if rest.isEmpty then pure (cs, nest)
        else classBody n (parent.push setSpan cs nest) rest
      | _ => pure (cs, kindNest)
    else
      let op := if c == '&' && next == some '&' then some SetOp.inter
        else if c == '-' && next == some '-' then some SetOp.diff
        else if c == '~' && next == some '~' then some SetOp.symmDiff
        else none
      match op with
      | some kind =>
        bumpN 2
        let (lhsSpan, lhs, lhsNest, stack) ← popOp u.span u.chars u.nesting stack
        classBody n (Union.emptyAt (← here)) (.op kind lhsSpan lhs lhsNest :: stack)
      | none =>
        let (sp, cs) ← classRange stack
        classBody n (u.push sp cs []) stack

def bracketClass : Read (Hir × Nesting) := do
  let (cs, nest) ← classBody ((← left) + 1) (Union.emptyAt (← here)) []
  pure (Hir.ofChars cs, nest)

-- Groups, alternation and repetition

inductive Item where
  | hir (h : Hir) (start : Place) (nest : Nesting)
  | flags

def itemsMeaning (items : List Item) : Hir :=
  Hir.seq (items.filterMap fun | .hir h _ _ => some h | .flags => none)

def Item.nesting : Item → Nesting
  | .hir _ _ nest => nest
  | .flags => []

def itemsNesting (items : List Item) (start stop : Place) : Nesting :=
  match items with
  | [] => []
  | [i] => i.nesting
  | is => Nesting.around ⟨start, stop⟩ (is.map Item.nesting)

inductive Frame where
  | group (before : List Item) (beforeStart : Place) (opened : Span) (extended : Bool)
      (flags : Flags) (index : Option Nat)
  | alternation (branches : List (Hir × Nesting)) (start : Place)

def flagItems : Nat → List (Option FlagName × Span) → Option Span →
    Read (List (Option FlagName × Span))
  | 0, items, _ => pure items
  | n + 1, items, lastNegation => do
    let c ← char
    if c == ':' || c == ')' then
      if let some sp := lastNegation then fail .flagDanglingNegation sp
      return items
    let sp ← spanChar
    let (items, lastNegation) ← if c == '-' then do
        if let some (_, first) := items.find? (·.1.isNone) then
          failBack .flagRepeatedNegation sp first
        pure (items ++ [(none, sp)], some sp)
      else do
        match FlagName.ofChar? c with
        | none => fail .flagUnrecognized sp
        | some name =>
          if let some (_, first) := items.find? (·.1 == some name) then
            failBack .flagDuplicate sp first
          pure (items ++ [(some name, sp)], none)
    if !(← bump) then fail .flagUnexpectedEof (← spanHere)
    flagItems n items lastNegation

def flagSettings (items : List (Option FlagName × Span)) : List (FlagName × Bool) :=
  (items.foldl (fun (acc : List (FlagName × Bool) × Bool) (item : Option FlagName × Span) =>
    match item.1 with
    | none => (acc.1, false)
    | some n => (acc.1 ++ [(n, acc.2)], acc.2)) ([], true)).1

def nameChars : Nat → Place → Read Unit
  | 0, _ => pure ()
  | n + 1, start => do
    let c ← char
    if c == '>' then return
    let first := (← here) == start
    let ok := c == '_' ||
      (if first then isAlphabetic c else c == '.' || c == '[' || c == ']' || isAlphanumeric c)
    if !ok then fail .groupNameInvalid (← spanChar)
    if !(← bump) then return
    nameChars n start

def captureName : Read Unit := do
  modify fun r => { r with captures := r.captures + 1 }
  if ← atEnd then fail .groupNameUnexpectedEof (← spanHere)
  let start ← here
  nameChars ((← left) + 1) start
  let stop ← here
  if ← atEnd then fail .groupNameUnexpectedEof (← spanHere)
  let _ ← bump
  let r ← get
  let name := String.ofList ((r.text.extract start.index stop.index).toList)
  if name.isEmpty then fail .groupNameEmpty (Span.at start)
  let sp : Span := ⟨start, stop⟩
  if let some (_, first) := r.names.find? (·.1 == name) then
    failBack .groupNameDuplicate sp first
  set { r with names := r.names ++ [(name, sp)] }

inductive Opening where
  | setFlags (settings : List (FlagName × Bool))
  | group (opened : Span) (settings : Option (List (FlagName × Bool))) (index : Option Nat)

def opening : Read Opening := do
  let openSpan ← spanChar
  let _ ← bump
  bumpSpace
  if (← bumpIf "?=") || (← bumpIf "?!") || (← bumpIf "?<=") || (← bumpIf "?<!") then
    fail .unsupportedLookAround ⟨openSpan.start, ← here⟩
  let inner ← spanHere
  if (← bumpIf "?P<") || (← bumpIf "?<") then
    captureName
    return .group openSpan none (some (← get).captures)
  if ← bumpIf "?" then
    if ← atEnd then fail .groupUnclosed openSpan
    let items ← flagItems ((← left) + 1) [] none
    let close ← char
    let _ ← bump
    if close == ')' then
      if items.isEmpty then fail .repetitionMissing inner
      return .setFlags (flagSettings items)
    return .group openSpan (some (flagSettings items)) none
  modify fun r => { r with captures := r.captures + 1 }
  pure (.group openSpan none (some (← get).captures))

def decimal : Read (Except Refusal Nat) := do
  skipWhite ((← left) + 1)
  let start ← here
  let digits ← readDigits ((← left) + 1) []
  let stop ← here
  skipTrailing ((← left) + 1)
  if digits.isEmpty then return .error ⟨.repetitionCountDecimalEmpty, ⟨start, stop⟩, none⟩
  let v := digits.foldl (fun n d => n * 10 + (d.toNat - '0'.toNat)) 0
  if v < 4294967296 then pure (.ok v) else pure (.error ⟨.decimalInvalid, ⟨start, stop⟩, none⟩)
where
  skipWhite : Nat → Read Unit
    | 0 => pure ()
    | n + 1 => do
      if (← atEnd) || !isWhiteSpace (← char) then return
      let _ ← bump
      skipWhite n
  readDigits : Nat → List Char → Read (List Char)
    | 0, acc => pure acc
    | n + 1, acc => do
      if (← atEnd) || !(← char).isDigit then return acc
      let c ← char
      let _ ← bumpAndSpace
      readDigits n (acc ++ [c])
  skipTrailing : Nat → Read Unit
    | 0 => pure ()
    | n + 1 => do
      if (← atEnd) || !isWhiteSpace (← char) then return
      let _ ← bumpAndSpace
      skipTrailing n

def repeated (items : List Item) : Read (Hir × Place × Nesting) := do
  match items.getLast? with
  | some (.hir h start nest) => pure (h, start, nest)
  | _ => fail .repetitionMissing (← spanHere)

def lazyMark : Read Bool := do
  if !(← atEnd) && (← char) == '?' then
    let _ ← bump
    pure true
  else pure false

def greedy (lazy : Bool) : Read Bool := do
  pure ((← get).flags.swapGreed == lazy)

def plainRepetition (items : List Item) (min : Nat) (max : Option Nat) : Read (List Item) := do
  let (h, start, nest) ← repeated items
  let _ ← bump
  let lazy ← lazyMark
  let nest := Nesting.around ⟨start, ← here⟩ [nest]
  pure (items.dropLast ++ [.hir (Hir.repeatOf min max (← greedy lazy) h) start nest])

def countedRepetition (items : List Item) : Read (List Item) := do
  let start ← here
  let (h, subStart, subNest) ← repeated items
  if !(← bumpAndSpace) then fail .repetitionCountUnclosed ⟨start, ← here⟩
  let first ← decimal
  if ← atEnd then fail .repetitionCountUnclosed ⟨start, ← here⟩
  let (lo, hi) ← if (← char) == ',' then do
      if !(← bumpAndSpace) then fail .repetitionCountUnclosed ⟨start, ← here⟩
      let lo ← expect first
      if (← char) != '\x7d' then
        let hi ← expect (← decimal)
        pure (lo, some hi)
      else pure (lo, none)
    else do
      let lo ← expect first
      pure (lo, some lo)
  if (← atEnd) || (← char) != '\x7d' then fail .repetitionCountUnclosed ⟨start, ← here⟩
  let _ ← bumpAndSpace
  let lazy ← lazyMark
  let opSpan : Span := ⟨start, ← here⟩
  if let some hi := hi then
    if lo > hi then fail .repetitionCountInvalid opSpan
  let nest := Nesting.around ⟨subStart, opSpan.stop⟩ [subNest]
  pure (items.dropLast ++ [.hir (Hir.repeatOf lo hi (← greedy lazy) h) subStart nest])

def openGroup (items : List Item) (start : Place) (frames : List Frame) :
    Read (List Item × Place × List Frame) := do
  match ← opening with
  | .setFlags settings =>
    modify fun r =>
      let ext := (settings.find? (·.1 == .extended)).map (·.2)
      { r with flags := r.flags.apply settings, extended := ext.getD r.extended }
    pure (items ++ [.flags], start, frames)
  | .group opened settings index =>
    let r ← get
    let frame := Frame.group items start opened r.extended r.flags index
    let ext := ((settings.getD []).find? (·.1 == .extended)).map (·.2)
    set { r with flags := r.flags.apply (settings.getD []), extended := ext.getD r.extended }
    pure ([], ← here, frame :: frames)

def closeGroup (items : List Item) (start : Place) (frames : List Frame) :
    Read (List Item × Place × List Frame) := do
  let (before, beforeStart, opened, ext, flags, index, branches, rest) :
      List Item × Place × Span × Bool × Flags × Option Nat ×
        Option (List (Hir × Nesting) × Place) × List Frame ← match frames with
    | .group before beforeStart opened ext flags index :: rest =>
      pure (before, beforeStart, opened, ext, flags, index, none, rest)
    | .alternation bs altStart :: .group before beforeStart opened ext flags index :: rest =>
      pure (before, beforeStart, opened, ext, flags, index, some (bs, altStart), rest)
    | _ => fail .groupUnopened (← spanChar)
  modify fun r => { r with extended := ext, flags := flags }
  let stop ← here
  let _ ← bump
  let last : Hir × Nesting := (itemsMeaning items, itemsNesting items start stop)
  let (body, inner) : Hir × Nesting := match branches with
    | none => last
    | some (bs, altStart) =>
      let bs := bs ++ [last]
      (Hir.choice (bs.map (·.1)), Nesting.around ⟨altStart, stop⟩ (bs.map (·.2)))
  let nest := Nesting.around ⟨opened.start, ← here⟩ [inner]
  let body := match index with
    | some i => Hir.capture i body
    | none => body
  pure (before ++ [Item.hir body opened.start nest], beforeStart, rest)

def alternate (items : List Item) (start : Place) (frames : List Frame) :
    Read (Place × List Frame) := do
  let branch : Hir × Nesting := (itemsMeaning items, itemsNesting items start (← here))
  let frames := match frames with
    | .alternation bs altStart :: rest => .alternation (bs ++ [branch]) altStart :: rest
    | fs => .alternation [branch] start :: fs
  let _ ← bump
  pure (← here, frames)

def finish (items : List Item) (start : Place) (frames : List Frame) : Read (Hir × Nesting) := do
  let last : Hir × Nesting := (itemsMeaning items, itemsNesting items start (← here))
  match frames with
  | [] => pure last
  | [.alternation bs altStart] =>
    let bs := bs ++ [last]
    pure (Hir.choice (bs.map (·.1)), Nesting.around ⟨altStart, ← here⟩ (bs.map (·.2)))
  | .alternation _ _ :: .group _ _ opened _ _ _ :: _ => fail .groupUnclosed opened
  | .group _ _ opened _ _ _ :: _ => fail .groupUnclosed opened
  | _ => pure last

def sequence : Nat → List Item → Place → List Frame → Read (Hir × Nesting)
  | 0, items, start, frames => finish items start frames
  | n + 1, items, start, frames => do
    bumpSpace
    if ← atEnd then return ← finish items start frames
    match ← char with
    | '(' =>
      let (items, start, frames) ← openGroup items start frames
      sequence n items start frames
    | ')' =>
      let (items, start, frames) ← closeGroup items start frames
      sequence n items start frames
    | '|' =>
      let (start, frames) ← alternate items start frames
      sequence n [] start frames
    | '[' =>
      let opened ← here
      let (h, nest) ← bracketClass
      sequence n (items ++ [.hir h opened nest]) start frames
    | '?' => sequence n (← plainRepetition items 0 (some 1)) start frames
    | '*' => sequence n (← plainRepetition items 0 none) start frames
    | '+' => sequence n (← plainRepetition items 1 none) start frames
    | '\x7b' => sequence n (← countedRepetition items) start frames
    | _ =>
      let p ← primitive
      let h ← primMeaning p
      sequence n (items ++ [.hir h p.span.start []]) start frames

def Hir.ofPattern (src : String) : Except Refusal Hir :=
  let text := src.toList.toArray
  match (sequence (text.size + 1) [] Place.start []).run { text } with
  | .error e => .error e
  | .ok ((h, nest), r) =>
    match nest[nestLimit]? with
    | some sp => .error ⟨.nestLimitExceeded, sp, none⟩
    | none =>
      match r.fault with
      | some f => .error f
      | none => .ok h

end Pattern

end ScopedC

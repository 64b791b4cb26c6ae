namespace ScopedC

namespace Pattern

structure Place where
  index : Nat
  line : Nat
  column : Nat
deriving DecidableEq, Repr

def Place.start : Place := ⟨0, 1, 1⟩

def Place.next (p : Place) (c : Char) : Place :=
  if c = '\n' then ⟨p.index + 1, p.line + 1, 1⟩ else ⟨p.index + 1, p.line, p.column + 1⟩

structure Span where
  start : Place
  stop : Place
deriving DecidableEq, Repr

def Span.at (p : Place) : Span := ⟨p, p⟩

inductive Fault where
  | classEscapeInvalid
  | classRangeInvalid
  | classRangeLiteral
  | classUnclosed
  | decimalInvalid
  | escapeHexEmpty
  | escapeHexInvalid
  | escapeHexInvalidDigit
  | escapeUnexpectedEof
  | escapeUnrecognized
  | flagDanglingNegation
  | flagDuplicate
  | flagRepeatedNegation
  | flagUnexpectedEof
  | flagUnrecognized
  | groupNameDuplicate
  | groupNameEmpty
  | groupNameInvalid
  | groupNameUnexpectedEof
  | groupUnclosed
  | groupUnopened
  | nestLimitExceeded
  | repetitionCountInvalid
  | repetitionCountDecimalEmpty
  | repetitionCountUnclosed
  | repetitionMissing
  | specialWordBoundaryUnclosed
  | specialWordBoundaryUnrecognized
  | specialWordOrRepetitionUnexpectedEof
  | unicodeClassInvalid
  | unsupportedBackreference
  | unsupportedLookAround
  | unicodeNotAllowed
  | invalidUtf8
  | unicodePropertyNotFound
  | unicodePerlClassNotFound
  | unicodeCaseUnavailable
deriving DecidableEq, Repr

def Fault.message : Fault → String
  | .classEscapeInvalid => "invalid escape sequence found in character class"
  | .classRangeInvalid => "invalid character class range, the start must be <= the end"
  | .classRangeLiteral => "invalid range boundary, must be a literal"
  | .classUnclosed => "unclosed character class"
  | .decimalInvalid => "decimal literal invalid"
  | .escapeHexEmpty => "hexadecimal literal empty"
  | .escapeHexInvalid => "hexadecimal literal is not a Unicode scalar value"
  | .escapeHexInvalidDigit => "invalid hexadecimal digit"
  | .escapeUnexpectedEof => "incomplete escape sequence, reached end of pattern prematurely"
  | .escapeUnrecognized => "unrecognized escape sequence"
  | .flagDanglingNegation => "dangling flag negation operator"
  | .flagDuplicate => "duplicate flag"
  | .flagRepeatedNegation => "flag negation operator repeated"
  | .flagUnexpectedEof => "expected flag but got end of regex"
  | .flagUnrecognized => "unrecognized flag"
  | .groupNameDuplicate => "duplicate capture group name"
  | .groupNameEmpty => "empty capture group name"
  | .groupNameInvalid => "invalid capture group character"
  | .groupNameUnexpectedEof => "unclosed capture group name"
  | .groupUnclosed => "unclosed group"
  | .groupUnopened => "unopened group"
  | .nestLimitExceeded => "exceed the maximum number of nested parentheses/brackets (250)"
  | .repetitionCountInvalid => "invalid repetition count range, the start must be <= the end"
  | .repetitionCountDecimalEmpty => "repetition quantifier expects a valid decimal"
  | .repetitionCountUnclosed => "unclosed counted repetition"
  | .repetitionMissing => "repetition operator missing expression"
  | .specialWordBoundaryUnclosed =>
    "special word boundary assertion is either unclosed or contains an invalid character"
  | .specialWordBoundaryUnrecognized =>
    "unrecognized special word boundary assertion, valid choices are: start, end, start-half or end-half"
  | .specialWordOrRepetitionUnexpectedEof =>
    "found either the beginning of a special word boundary or a bounded repetition on a \\b with an opening brace, but no closing brace"
  | .unicodeClassInvalid => "invalid Unicode character class"
  | .unsupportedBackreference => "backreferences are not supported"
  | .unsupportedLookAround =>
    "look-around, including look-ahead and look-behind, is not supported"
  | .unicodeNotAllowed => "Unicode not allowed here"
  | .invalidUtf8 => "pattern can match invalid UTF-8"
  | .unicodePropertyNotFound => "Unicode property not found"
  | .unicodePerlClassNotFound =>
    "Unicode-aware Perl class not found (make sure the unicode-perl feature is enabled)"
  | .unicodeCaseUnavailable =>
    "Unicode-aware case insensitivity matching is not available (make sure the unicode-case feature is enabled)"

structure Refusal where
  fault : Fault
  span : Span
  aux : Option Span := none
deriving Repr

def repeatChar (c : Char) (n : Nat) : String := String.ofList (List.replicate n c)

def textLines (s : String) : List String :=
  let parts := s.splitOn "\n"
  let ended := parts.dropLast.map fun l => if l.endsWith "\r" then (l.dropEnd 1).toString else l
  if s.endsWith "\n" then ended else if s.isEmpty then [] else ended ++ parts.getLast?.toList

def Span.before (a b : Span) : Bool :=
  a.start.index < b.start.index ||
    (a.start.index == b.start.index && a.stop.index ≤ b.stop.index)

def caretRow (pad : Nat) (spans : List Span) : String :=
  let (row, _) := spans.foldl (fun (acc : String × Nat) sp =>
    let (row, col) := acc
    let gap := sp.start.column - 1 - col
    let width := max 1 (sp.stop.column - sp.start.column)
    (row ++ repeatChar ' ' gap ++ repeatChar '^' width, col + gap + width)) (repeatChar ' ' pad, 0)
  row

def padNumber (width n : Nat) : String :=
  let s := toString n
  repeatChar ' ' (width - s.length) ++ s

def Refusal.render (pattern : String) (r : Refusal) : String :=
  let lines := textLines pattern
  let lineCount := lines.length + (if pattern.endsWith "\n" then 1 else 0)
  let width := if lineCount ≤ 1 then 0 else (toString lineCount).length
  let spans := r.span :: r.aux.toList
  let oneLine := spans.filter fun s => s.start.line == s.stop.line
  let multi := (spans.filter fun s => s.start.line != s.stop.line).mergeSort Span.before
  let pad := if width == 0 then 4 else 2 + width
  let notated := (lines.zipIdx).foldl (fun out (line, i) =>
    let head := if width == 0 then "    " else padNumber width (i + 1) ++ ": "
    let here := (oneLine.filter fun s => s.start.line == i + 1).mergeSort Span.before
    let notes := if here.isEmpty then "" else caretRow pad here ++ "\n"
    out ++ head ++ line ++ "\n" ++ notes) ""
  let message := "error: " ++ r.fault.message
  if pattern.contains '\n' then
    let divider := repeatChar '~' 79
    let described := multi.map fun s =>
      s!"on line {s.start.line} (column {s.start.column}) through line {s.stop.line} (column {s.stop.column - 1})"
    let notes := if described.isEmpty then "" else "\n".intercalate described ++ "\n"
    "regex parse error:\n" ++ divider ++ "\n" ++ notated ++ divider ++ "\n" ++ notes ++ message
  else
    "regex parse error:\n" ++ notated ++ message

end Pattern

end ScopedC

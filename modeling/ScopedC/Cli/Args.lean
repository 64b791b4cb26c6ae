namespace ScopedC

namespace Cli

def programName : String := "sysy-parse"

def version : String := "0.1.0"

inductive Flag where
  | output
  | ast
  | tokens
  | help
  | version
deriving DecidableEq, Repr

namespace Flag

def all : List Flag := [output, ast, tokens, help, version]

def long : Flag → String
  | output => "output"
  | ast => "ast"
  | tokens => "tokens"
  | help => "help"
  | version => "version"

def short : Flag → Char
  | output => 'o'
  | ast => 'a'
  | tokens => 't'
  | help => 'h'
  | version => 'V'

def shown : Flag → String
  | output => "--output <OUTPUT>"
  | f => "--" ++ f.long

def ofLong? (name : String) : Option Flag := all.find? (·.long == name)

def ofShort? (c : Char) : Option Flag := all.find? (·.short == c)

end Flag

structure Options where
  input : String
  output : String
  ast : Bool
  tokens : Bool
deriving DecidableEq, Repr

inductive UsageError where
  | unknownLong (arg : String) (similar : Option Flag) (given : List Flag) (anyGiven : Bool)
  | unknownShort (arg : String)
  | extraInput (arg : String)
  | missingInput (given : List Flag)
  | missingValue
  | emptyInput
  | unexpectedValue (value : String) (f : Flag) (given : List Flag) (anyGiven : Bool)
  | repeated (f : Flag)
deriving DecidableEq, Repr

inductive Request where
  | run (o : Options)
  | help
  | version
  | usage (e : UsageError)
deriving DecidableEq, Repr

def jaroCounts (a b : List Char) : Nat × Nat :=
  let range := max a.length b.length / 2 - 1
  -- match each character of `a` with the first free equal character of `b` in range
  let (aHit, bHit) := a.zipIdx.foldl (fun (acc : List Bool × List Bool) (x : Char × Nat) =>
    let (aHit, bHit) := acc
    let (c, i) := x
    let lo := i - range
    let hi := min b.length (i + range + 1)
    match (List.range hi).find? (fun j => lo ≤ j && b[j]? == some c && bHit[j]? == some false) with
    | some j => (aHit ++ [true], bHit.set j true)
    | none => (aHit ++ [false], bHit)) ([], b.map fun _ => false)
  let aMatched := (a.zip aHit).filterMap fun (c, h) => if h then some c else none
  let bMatched := (b.zip bHit).filterMap fun (c, h) => if h then some c else none
  (aMatched.length, ((aMatched.zip bMatched).filter fun (x, y) => x != y).length / 2)

-- Computed in binary64 in this order: suggestions are cut off just above 0.7, where the rounding
-- of the sum decides.
def jaro (a b : List Char) : Float :=
  if a.isEmpty && b.isEmpty then 1
  else if a.isEmpty || b.isEmpty then 0
  else
    let (m, t) := jaroCounts a b
    if m = 0 then 0
    else
      let mf := Float.ofNat m
      (mf / Float.ofNat a.length + mf / Float.ofNat b.length + Float.ofNat (m - t) / mf) /
        Float.ofNat 3

def similarityCutoff : Float := Float.ofNat 7 / Float.ofNat 10

def similarFlag (name : String) : Option Flag :=
  let scored := Flag.all.map fun f => (jaro name.toList f.long.toList, f)
  let above := scored.filter fun (score, _) => score > similarityCutoff
  above.foldl (fun (best : Option (Float × Flag)) x =>
    match best with
    | some (score, _) => if x.1 ≥ score then some x else best
    | none => some x) none |>.map (·.2)

-- A value for an option that takes one, checked when the next option takes effect, before the
-- next positional value, and at the end.
inductive Pending where
  | output (value : Option String)
  | input (value : String)

structure Seen where
  input : Option String := none
  output : Option String := none
  ast : Bool := false
  tokens : Bool := false
  given : List Flag := []
  anyGiven : Bool := false
  pending : Option Pending := none
  inputRead : Bool := false
  afterDashes : Bool := false

inductive Stop where
  | help
  | version
  | error (e : UsageError)

namespace Seen

def setOutput (s : Seen) (v : String) : Except UsageError Seen :=
  if s.output.isSome then .error (.repeated .output)
  else if v.isEmpty then .error .missingValue
  else .ok { s with output := some v, given := s.given ++ [.output], anyGiven := true }

def setInput (s : Seen) (v : String) : Except UsageError Seen :=
  if v.isEmpty then .error .emptyInput else .ok { s with input := some v, anyGiven := true }

def settle (s : Seen) : Except UsageError Seen :=
  match s.pending with
  | none => .ok s
  | some (.output none) => .error .missingValue
  | some (.output (some v)) => { s with pending := none }.setOutput v
  | some (.input v) => { s with pending := none }.setInput v

-- An output counts as given even when it is empty, and a second output undoes the first.
def settleQuietly (s : Seen) : Seen :=
  let s' := { s with pending := none }
  match s.pending with
  | none => s
  | some (.output none) => s'
  | some (.output (some v)) =>
    if s.output.isSome then { s' with given := s.given.erase .output }
    else { s' with output := some v, given := s.given ++ [.output], anyGiven := true }
  | some (.input v) => { s' with input := some v, anyGiven := true }

def expectsValue (s : Seen) : Bool :=
  match s.pending with
  | some (.output none) => true
  | _ => false

def act (s : Seen) (f : Flag) (attached : Option String) : Except Stop Seen :=
  match s.settle with
  | .error e => .error (.error e)
  | .ok s =>
    match f, attached with
    | .help, _ => .error .help
    | .version, _ => .error .version
    | .output, some v => (s.setOutput v).mapError .error
    | .output, none => .ok { s with pending := some (.output none) }
    | .ast, _ =>
      if s.ast then .error (.error (.repeated f))
      else .ok { s with ast := true, given := s.given ++ [f], anyGiven := true }
    | .tokens, _ =>
      if s.tokens then .error (.error (.repeated f))
      else .ok { s with tokens := true, given := s.given ++ [f], anyGiven := true }

def positional (s : Seen) (a : String) : Except Stop Seen :=
  if s.inputRead then .error (.error (.extraInput a))
  else
    match s.settle with
    | .error e => .error (.error e)
    | .ok s => .ok { s with pending := some (.input a), inputRead := true }

end Seen

def shorts (s : Seen) : List Char → Except Stop Seen
  | [] => .ok s
  | c :: cs =>
    match Flag.ofShort? c with
    | some .output =>
      match cs with
      | [] => s.act .output none
      | '=' :: v => s.act .output (some (String.ofList v))
      | v => s.act .output (some (String.ofList v))
    | some f =>
      match s.act f none with
      | .ok s => shorts s cs
      | .error e => .error e
    | none => .error (.error (.unknownShort ("-" ++ String.ofList [c])))

def long (s : Seen) (body : String) : Except Stop Seen :=
  let name := (body.takeWhile (· != '=')).toString
  let value := if body.contains '=' then some (body.dropWhile (· != '=') |>.drop 1).toString
    else none
  match Flag.ofLong? name with
  | none =>
    let s := s.settleQuietly
    .error (.error (.unknownLong ("--" ++ name) (similarFlag name) s.given
      (s.input.isSome || !s.given.isEmpty)))
  | some .output => s.act .output value
  | some f =>
    match value with
    | some v => .error (.error (.unexpectedValue v f s.given s.anyGiven))
    | none => s.act f none

def Seen.step (s : Seen) (a : String) : Except Stop Seen :=
  if s.afterDashes then s.positional a
  else if a == "--" then .ok { s with afterDashes := true }
  else if a.startsWith "--" then long s (a.drop 2).toString
  else if a.startsWith "-" && a.length > 1 then shorts s (a.toList.drop 1)
  else if s.expectsValue then .ok { s with pending := some (.output (some a)) }
  else s.positional a

def readArgs (s : Seen) : List String → Except Stop Seen
  | [] => .ok s
  | a :: rest =>
    match s.step a with
    | .ok s => readArgs s rest
    | .error e => .error e

def Request.ofArgs (args : List String) : Request :=
  match readArgs {} args with
  | .error .help => .help
  | .error .version => .version
  | .error (.error e) => .usage e
  | .ok s =>
    match s.settle with
    | .error e => .usage e
    | .ok s =>
      match s.input with
      | none => .usage (.missingInput s.given)
      | some input =>
        .run { input, output := s.output.getD "a.out", ast := s.ast, tokens := s.tokens }

def fullUsage : String := s!"{programName} [OPTIONS] <INPUT>"

def Flag.inGroup : Flag → Bool
  | .output | .ast | .tokens => true
  | .help | .version => false

def groupUsage : String := "<INPUT|--output <OUTPUT>|--ast|--tokens>"

def usageNaming (used : List Flag) : String :=
  (used.eraseDups.foldl (fun out f => out ++ " " ++ f.shown) programName) ++ " <INPUT>"

def usageGrouped (used : List Flag) : String :=
  ((used.eraseDups.filter (!·.inGroup)).foldl (fun out f => out ++ " " ++ f.shown) programName) ++
    " " ++ groupUsage

def moreInfo : String := "For more information, try '--help'.\n"

def unknownText (arg tip usage : String) : String :=
  s!"error: unexpected argument '{arg}' found\n\n{tip}Usage: {usage}\n\n" ++ moreInfo

def valueTip (arg : String) : String := s!"  tip: to pass '{arg}' as a value, use '-- {arg}'\n\n"

def UsageError.text : UsageError → String
  | .unknownLong arg (some f) given _ =>
    unknownText arg s!"  tip: a similar argument exists: '--{f.long}'\n\n"
      (usageNaming (given ++ [f]))
  | .unknownLong arg none given anyGiven =>
    unknownText arg (valueTip arg) (if anyGiven then usageNaming given else fullUsage)
  | .unknownShort arg => unknownText arg (valueTip arg) fullUsage
  | .extraInput arg => unknownText arg "" fullUsage
  | .missingInput given =>
    s!"error: the following required arguments were not provided:\n  <INPUT>\n\nUsage: {usageNaming given}\n\n" ++ moreInfo
  | .missingValue =>
    "error: a value is required for '--output <OUTPUT>' but none was supplied\n\n" ++ moreInfo
  | .emptyInput => "error: a value is required for '<INPUT>' but none was supplied\n\n" ++ moreInfo
  | .unexpectedValue v f given anyGiven =>
    let usage := if anyGiven then usageGrouped (given ++ [f]) else usageNaming (given ++ [f])
    s!"error: unexpected value '{v}' for '{f.shown}' found; no more were expected\n\nUsage: {usage}\n\n" ++ moreInfo
  | .repeated f =>
    s!"error: the argument '{f.shown}' cannot be used multiple times\n\nUsage: {fullUsage}\n\n" ++ moreInfo

def helpText : String :=
  "Parse a source file into a scope-resolved AST\n\n" ++
  s!"Usage: {fullUsage}\n\n" ++
  "Arguments:\n" ++
  "  <INPUT>  Input source file\n\n" ++
  "Options:\n" ++
  "  -o, --output <OUTPUT>  Output file [default: a.out]\n" ++
  "  -a, --ast              Write the AST trace to the output file\n" ++
  "  -t, --tokens           Write the token stream to the output file\n" ++
  "  -h, --help             Print help\n" ++
  "  -V, --version          Print version\n"

def versionText : String := s!"{programName} {version}\n"

end Cli

end ScopedC

import ScopedC.Parse.State
import ScopedC.Unicode
namespace ScopedC

namespace Cli

inductive Level where
  | error
  | warn
  | info
  | debug
  | trace
deriving DecidableEq, Repr

namespace Level

def rank : Level → Nat
  | error => 1
  | warn => 2
  | info => 3
  | debug => 4
  | trace => 5

def label : Level → String
  | error => "ERROR"
  | warn => "WARN "
  | info => "INFO "
  | debug => "DEBUG"
  | trace => "TRACE"

end Level

structure Record where
  level : Level
  target : String
  message : String
deriving DecidableEq, Repr

def Record.line (r : Record) (time : String) : String :=
  let body := "\n    ".intercalate (r.message.splitOn "\n")
  s!"[{time} {r.level.label} {r.target}] {body}\n"

def twoDigits (n : Nat) : String := if n < 10 then s!"0{n}" else toString n

-- The civil date of a day counted from 1970-01-01, by the era-of-400-years method.
def civilOfDays (days : Nat) : Nat × Nat × Nat :=
  let z := days + 719468
  let era := z / 146097
  let doe := z - era * 146097
  let yoe := (doe - doe / 1460 + doe / 36524 - doe / 146096) / 365
  let doy := doe - (365 * yoe + yoe / 4 - yoe / 100)
  let mp := (5 * doy + 2) / 153
  let d := doy - (153 * mp + 2) / 5 + 1
  let m := if mp < 10 then mp + 3 else mp - 9
  let y := yoe + era * 400 + (if m ≤ 2 then 1 else 0)
  (y, m, d)

def stampOfSeconds (secs : Nat) : String :=
  let (y, m, d) := civilOfDays (secs / 86400)
  let t := secs % 86400
  s!"{y}-{twoDigits m}-{twoDigits d}T{twoDigits (t / 3600)}:{twoDigits (t % 3600 / 60)}:{twoDigits (t % 60)}Z"

def lexerTarget : String := "sysy_parse::parser::lexer"
def parseTarget : String := "sysy_parse::parser::parse"
def scopeTarget : String := "sysy_parse::symbols::table"
def entryTarget : String := "sysy_parse::symbols::entry"
def runTarget : String := "sysy_parse::driver"

def Note.record : Note → Record
  | .entered l => ⟨.debug, scopeTarget, s!"enter scope {l}"⟩
  | .exited l => ⟨.debug, scopeTarget, s!"exit scope {l}"⟩
  | .installed n l => ⟨.debug, scopeTarget, s!"install '{n}' in scope {l}"⟩
  | .redeclared n l => ⟨.warn, scopeTarget, s!"'{n}' redeclared in scope {l}"⟩
  | .temporary t => ⟨.trace, entryTarget, s!"synthesized temporary t{t}"⟩

structure Directive where
  target : Option String
  rank : Nat
deriving DecidableEq, Repr

structure Filter where
  directives : List Directive
  pattern : Option (String → Bool)
  warnings : List String

def rankOf? (w : String) : Option Nat :=
  match w.toLower with
  | "off" => some 0
  | "error" => some 1
  | "warn" => some 2
  | "info" => some 3
  | "debug" => some 4
  | "trace" => some 5
  | _ => none

def skipped (what : String) : String := s!"warning: {what}, ignoring it\n"

def readDirective (d : String) : Option Directive ⊕ String :=
  if d.isEmpty then .inl none
  else
    match d.splitOn "=" with
    | [w] =>
      match rankOf? w with
      | some r => .inl (some ⟨none, r⟩)
      | none => .inl (some ⟨some w, 5⟩)
    | [t, w] =>
      let w := trimWhiteSpace w
      if w.isEmpty then .inl (some ⟨some t, 5⟩)
      else
        match rankOf? w with
        | some r => .inl (some ⟨some t, r⟩)
        | none => .inr (skipped s!"invalid logging spec '{w}'")
    | _ => .inr (skipped s!"invalid logging spec '{d}'")

def addDirective (ds : List Directive) (d : Directive) : List Directive :=
  if ds.any (·.target == d.target) then ds.map fun e => if e.target == d.target then d else e
  else ds ++ [d]

def Directive.length (d : Directive) : Nat := (d.target.map String.utf8ByteSize).getD 0

def Filter.ofSpec (compile : String → Except String (String → Bool)) (spec : String) : Filter :=
  match spec.splitOn "/" with
  | [mods] => build mods none
  | [mods, text] => build mods (some text)
  | _ => ⟨[⟨none, 1⟩], none, [skipped s!"invalid logging spec '{spec}' (too many '/'s)"]⟩
where
  build (mods : String) (text : Option String) : Filter :=
    let (ds, warnings) := (mods.splitOn ",").foldl (fun (acc : List Directive × List String) part =>
      match readDirective (trimWhiteSpace part) with
      | .inl (some d) => (addDirective acc.1 d, acc.2)
      | .inl none => acc
      | .inr w => (acc.1, acc.2 ++ [w])) ([], [])
    let (pattern, warnings) := match text.map compile with
      | some (.ok m) => (some m, warnings)
      | some (.error e) => (none, warnings ++ [skipped s!"invalid regex filter - {e}"])
      | none => (none, warnings)
    let ds := ds.mergeSort fun a b => a.length ≤ b.length
    ⟨if ds.isEmpty then [⟨none, 1⟩] else ds, pattern, warnings⟩

def Filter.standard : Filter := ⟨[⟨none, 2⟩], none, []⟩

def Filter.allows (f : Filter) (r : Record) : Bool :=
  let shown := match f.directives.reverse.find? (fun d =>
      match d.target with
      | some t => r.target.startsWith t
      | none => true) with
    | some d => r.level.rank ≤ d.rank
    | none => false
  shown && match f.pattern with
    | some test => test r.message
    | none => true

end Cli

end ScopedC

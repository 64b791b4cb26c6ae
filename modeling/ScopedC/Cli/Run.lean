import ScopedC.Program
import ScopedC.Cli.Args
import ScopedC.Cli.Log
namespace ScopedC

namespace Cli

inductive FileError where
  | notFound
  | isDirectory
  | notDirectory
  | nameTooLong
  | permissionDenied
  | invalidText
  | other (code : Nat) (text : String)
deriving DecidableEq, Repr

def FileError.message : FileError → String
  | .notFound => "No such file or directory (os error 2)"
  | .isDirectory => "Is a directory (os error 21)"
  | .notDirectory => "Not a directory (os error 20)"
  | .nameTooLong => "File name too long (os error 36)"
  | .permissionDenied => "Permission denied (os error 13)"
  | .invalidText => "stream did not contain valid UTF-8"
  | .other code text => s!"{text} (os error {code})"

inductive RunError where
  | parse (e : ParseError)
  | read (path : String) (e : FileError)
  | write (path : String) (e : FileError)

def RunError.line : RunError → String
  | .parse e =>
    let label := match e with
      | .lex _ | .malformed .. => "syntax error"
      | .undefined .. => "undefined identifier"
      | .internal _ => "internal error"
    s!"{label}: {e.message}\n"
  | .read path e => s!"io error: cannot read '{path}': {e.message}\n"
  | .write path e => s!"io error: cannot write '{path}': {e.message}\n"

structure Report where
  records : Array Record
  failure : Option RunError

def lexedRecord (count : Nat) : Record := ⟨.debug, lexerTarget, s!"lexed {count} tokens"⟩

def parseLogged (src : String) : Array Record × Except ParseError Program :=
  let start := Program.initialState true
  let seeded := start.notes.map Note.record
  match Token.scan src with
  | .error e => (seeded, .error (.lex e))
  | .ok toks =>
    let lexed := seeded.push (lexedRecord toks.length)
    match Program.run { start with notes := #[] } toks with
    | .ok r =>
      (lexed ++ r.parser.state.notes.map Note.record |>.push
        ⟨.debug, parseTarget, s!"parsed program, root node {r.value.node}"⟩,
        .ok ⟨r.value, r.parser.state⟩)
    | .error f => (lexed ++ f.parser.state.notes.map Note.record, .error f.error)

def compile (o : Options) (src : String) : Array Record × Except ParseError String :=
  let start : Array Record := #[⟨.info, runTarget, s!"parsing {o.input}"⟩]
  let listing : Array Record × Except ParseError String :=
    if o.tokens then
      match Token.scan src with
      | .ok toks =>
        (start.push (lexedRecord toks.length), .ok (Token.listText toks))
      | .error e => (start, .error (.lex e))
    else (start, .ok "")
  match listing with
  | (records, .error e) => (records, .error e)
  | (records, .ok text) =>
    match parseLogged src with
    | (more, .error e) => (records ++ more, .error e)
    | (more, .ok p) =>
      let records := (records ++ more).push
        ⟨.info, runTarget, s!"parsed {p.root.statements.length} top-level statements"⟩
      (records, .ok (if o.ast then text ++ p.trace else text))

-- The output file is written only when the whole parse succeeds.
def run {m : Type → Type} [Monad m] (o : Options)
    (read : String → m (Except FileError String))
    (write : String → String → m (Except FileError Unit)) : m Report := do
  match ← read o.input with
  | .error e => pure ⟨#[], some (.read o.input e)⟩
  | .ok src =>
    match compile o src with
    | (records, .error e) => pure ⟨records, some (.parse e)⟩
    | (records, .ok text) =>
      match ← write o.output text with
      | .error e => pure ⟨records, some (.write o.output e)⟩
      | .ok () => pure ⟨records.push ⟨.info, runTarget, s!"wrote {o.output}"⟩, none⟩

def readFrom {σ : Type} (readAt : σ → String → Except FileError String) (path : String) :
    StateM σ (Except FileError String) := do
  pure (readAt (← get) path)

def writeTo {σ : Type} (writeAt : σ → String → String → Except FileError σ)
    (path text : String) : StateM σ (Except FileError Unit) := do
  match writeAt (← get) path text with
  | .ok d => set d; pure (.ok ())
  | .error e => pure (.error e)

end Cli

end ScopedC

import ScopedC.Cli.Run
namespace ScopedC

namespace Cli

inductive Node where
  | file (bytes : ByteArray)
  | dir

structure Directory where
  entries : List (List String × Node)

def pathParts (path : String) : List String × Bool :=
  let parts := (path.splitOn "/").foldl (fun (acc : List String) part =>
    if part.isEmpty || part == "." then acc
    else if part == ".." then acc.dropLast
    else acc ++ [part]) []
  (parts, path.endsWith "/")

structure Lookup where
  dirs : List String
  last : Option String
  slash : Bool

def Lookup.ofPath (path : String) : Lookup :=
  let parts := path.splitOn "/"
  let named := (parts.reverse.dropWhile (·.isEmpty)).reverse
  match named.reverse with
  | [] => ⟨[], none, path.endsWith "/"⟩
  | last :: before => ⟨before.reverse, some last, named.length < parts.length⟩

def pathMax : Nat := 4096

def nameMax : Nat := 255

-- The system outside the working directory: its root, /tmp and /dev are directories, and
-- /dev/null reads as empty and takes whatever is written to it.
def systemNode? : List String → Option Node
  | [] | ["tmp"] | ["dev"] => some .dir
  | ["dev", "null"] => some (.file ByteArray.empty)
  | _ => none

inductive Place where
  | here (parts : List String)
  | system (parts : List String)
  | above

def Place.up : Place → Place
  | .here [] | .above => .above
  | .here parts => .here parts.dropLast
  | .system parts => .system parts.dropLast

def Place.enter (p : Place) (name : String) : Place :=
  match p with
  | .here parts => .here (parts ++ [name])
  | .system parts => .system (parts ++ [name])
  | .above => .above

namespace Directory

def get? (d : Directory) (parts : List String) : Option Node :=
  if parts.isEmpty then some .dir else (d.entries.find? (·.1 == parts)).map (·.2)

def entry (d : Directory) (p : Place) (name : String) : Except FileError (Option Node) :=
  if name.utf8ByteSize > nameMax then .error .nameTooLong
  else match p with
    | .here parts => .ok (d.get? (parts ++ [name]))
    | .system parts => .ok (systemNode? (parts ++ [name]))
    | .above => .ok none

def walk (d : Directory) : Place → List String → Except FileError Place
  | p, [] => .ok p
  | p, part :: ps =>
    if part.isEmpty || part == "." then d.walk p ps
    else if part == ".." then d.walk p.up ps
    else
      match d.entry p part with
      | .error e => .error e
      | .ok (some .dir) => d.walk (p.enter part) ps
      | .ok (some (.file _)) => .error .notDirectory
      | .ok none => .error .notFound

structure Spot where
  place : Place
  name : String
  slash : Bool

def locate (d : Directory) (path : String) : Except FileError Spot := do
  if path.isEmpty then throw .notFound
  if path.utf8ByteSize ≥ pathMax then throw .nameTooLong
  let l := Lookup.ofPath path
  let place ← d.walk (if path.startsWith "/" then .system [] else .here []) l.dirs
  match l.last with
  | none => throw .isDirectory
  | some last =>
    if last == "." || last == ".." then throw .isDirectory
    pure ⟨place, last, l.slash⟩

def read (d : Directory) (path : String) : Except FileError String := do
  let s ← d.locate path
  match ← d.entry s.place s.name with
  | none => throw .notFound
  | some .dir => throw .isDirectory
  | some (.file bytes) =>
    if s.slash then throw .notDirectory
    match String.fromUTF8? bytes with
    | some text => pure text
    | none => throw .invalidText

def set (d : Directory) (parts : List String) (n : Node) : Directory :=
  if d.entries.any (·.1 == parts) then
    ⟨d.entries.map fun e => if e.1 == parts then (parts, n) else e⟩
  else ⟨d.entries ++ [(parts, n)]⟩

def write (d : Directory) (path : String) (text : String) : Except FileError Directory := do
  let s ← d.locate path
  if s.slash then throw .isDirectory
  match ← d.entry s.place s.name with
  | some .dir => throw .isDirectory
  | _ =>
    match s.place with
    | .here parts => pure (d.set (parts ++ [s.name]) (.file text.toUTF8))
    | _ => pure d

def ofList (items : List (String × Option ByteArray)) : Directory :=
  items.foldl (fun d (path, body) =>
    let parts := (pathParts path).1
    let d := (List.range (parts.length - 1)).foldl (fun d i =>
      let p := parts.take (i + 1)
      if (d.get? p).isSome then d else d.set p .dir) d
    if parts.isEmpty then d
    else d.set parts (match body with | some b => .file b | none => .dir)) ⟨[]⟩

end Directory

structure Outcome where
  status : Nat
  stdout : String
  stderr : String
  directory : Directory

def invoke (compile : String → Except String (String → Bool)) (args : List String)
    (spec : Option String) (stamp : String) (d : Directory) : Outcome :=
  let filter := match spec with
    | some s => Filter.ofSpec compile s
    | none => Filter.standard
  let warnings := String.join filter.warnings
  match Request.ofArgs args with
  | .help => ⟨0, helpText, warnings, d⟩
  | .version => ⟨0, versionText, warnings, d⟩
  | .usage e => ⟨2, "", warnings ++ e.text, d⟩
  | .run o =>
    let (report, d) := (run o (readFrom Directory.read) (writeTo Directory.write)).run d
    let logs := report.records.toList.filter filter.allows |>.map (·.line stamp)
    match report.failure with
    | some e => ⟨1, "", warnings ++ String.join logs ++ e.line, d⟩
    | none => ⟨0, "", warnings ++ String.join logs, d⟩

end Cli

end ScopedC

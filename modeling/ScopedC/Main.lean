import Std.Time
import ScopedC.Cli.Run
import ScopedC.Pattern.Search
namespace ScopedC

namespace Cli

def fileErrorOf : IO.Error → FileError
  | .noFileOrDirectory .. => .notFound
  | .permissionDenied .. => .permissionDenied
  | .inappropriateType _ 21 _ => .isDirectory
  | .inappropriateType _ 20 _ => .notDirectory
  | .invalidArgument _ 36 _ | .otherError 36 _ => .nameTooLong
  | .alreadyExists _ code details | .invalidArgument _ code details
  | .resourceExhausted _ code details | .inappropriateType _ code details
  | .noSuchThing _ code details | .otherError code details | .resourceBusy code details
  | .resourceVanished code details | .unsupportedOperation code details
  | .hardwareFault code details | .unsatisfiedConstraints code details
  | .illegalOperation code details | .protocolError code details
  | .timeExpired code details | .interrupted _ code details => .other code.toNat details
  | .unexpectedEof => .other 0 "unexpected end of file"
  | .userError msg => .other 0 msg

def readText (path : String) : IO (Except FileError String) := do
  try
    let bytes ← IO.FS.readBinFile path
    match String.fromUTF8? bytes with
    | some text => pure (.ok text)
    | none => pure (.error .invalidText)
  catch e => pure (.error (fileErrorOf e))

def writeText (path : String) (text : String) : IO (Except FileError Unit) := do
  try
    IO.FS.writeFile path text
    pure (.ok ())
  catch e => pure (.error (fileErrorOf e))

def nowStamp : IO String := do
  let t ← Std.Time.Timestamp.now
  pure (stampOfSeconds t.toSecondsSinceUnixEpoch.val.toNat)

end Cli

end ScopedC

open ScopedC.Cli in
def main (args : List String) : IO UInt32 := do
  let filter := match ← IO.getEnv "RUST_LOG" with
    | some spec => Filter.ofSpec ScopedC.Pattern.messageTest spec
    | none => Filter.standard
  let stderr ← IO.getStderr
  for w in filter.warnings do stderr.putStr w
  match Request.ofArgs args with
  | .help => IO.print helpText; pure 0
  | .version => IO.print versionText; pure 0
  | .usage e => stderr.putStr e.text; pure 2
  | .run o =>
    let report ← run o readText writeText
    for r in report.records do
      if filter.allows r then stderr.putStr (r.line (← nowStamp))
    match report.failure with
    | some e => stderr.putStr e.line; pure 1
    | none => pure 0

import Abbrev.Program

/-! The program. It reads the files that a run needs and writes what the run's transcript says.
Input is awaited only when the run has asked for it: the run is then repeated on the longer input,
and what is new in its transcript is written. -/

namespace Abbrev

def usage : String := unlines [
  "Run abbreviated console commands", "",
  "Usage: abbrev [OPTIONS] [LINE]...", "",
  "Arguments:",
  "  [LINE]...  Command lines to run, in order", "",
  "Options:",
  "  -v, --verbose              Enable verbose logging",
  "  -q, --quiet                Only log errors",
  "      --debug                Log resolution decisions",
  "      --no-color             Disable colored output",
  "      --config <FILE>        Settings file (defaults to $ABBREV_CONFIG, then the user's own)",
  "      --commands <MANIFEST>  TOML manifest of extra commands",
  "      --non-interactive      Fail on ambiguous commands instead of asking",
  "      --format <FORMAT>      Output format for command results: text or json",
  "  -h, --help                 Print help",
  "  -V, --version              Print version"]

def Refusal.message : Refusal → String
  | help => usage
  | version => "abbrev 0.4.0\n"
  | unknownOption => "error: unexpected argument found\n"
  | invalidValue => "error: invalid or missing value for an option\n"
  | conflict => "error: an argument cannot be used with another or multiple times\n"
  | unexpectedValue => "error: unexpected value for an option that takes none\n"

namespace Main

def readFile (path : String) : IO File := do
  try
    return .bytes (← IO.FS.readBinFile path).toList
  catch
    | .noFileOrDirectory .. => return .missing
    | .inappropriateType _ 21 _ => return .directory
    | .inappropriateType .. => return .absent "Not a directory (os error 20)"
    | .permissionDenied .. => return .unreadable "Permission denied (os error 13)"
    | e => return .unreadable (toString e)

/-- The named files as they are now. -/
def readFiles (paths : List String) : IO (String → File) := do
  let found ← paths.mapM fun path => return (path, ← readFile path)
  return fun path => (found.lookup path).getD .missing

def publish (events : Transcript) : IO Unit := do
  let stdout ← IO.getStdout
  let stderr ← IO.getStderr
  for e in events do
    match e with
    | .wrote .diagnostic text => stderr.putStr text
    | .wrote _ text => stdout.putStr text
    | _ => pure ()
  stdout.flush

/-- One line from a terminal; elsewhere everything there is. -/
partial def await (stdin : IO.FS.Stream) (terminal : Bool) (sofar : List UInt8) :
    IO (List UInt8) := do
  match (← stdin.read (if terminal then 1 else 65536)).toList with
  | [] => return sofar
  | bytes =>
    if terminal && bytes.contains Session.lineFeed then return sofar ++ bytes
    await stdin terminal (sofar ++ bytes)

/-- Repeats a run on more and more input, of which `shown` events have been published. What does not
end a line is the end of the input. -/
partial def serve (run : List UInt8 → Run) (more : IO (List UInt8)) (input : List UInt8)
    (shown : Nat) : IO UInt32 := do
  let r := run input
  let known := r.transcript.beforeEnd
  publish (known.drop shown)
  if known.length == r.transcript.length then return r.code.toUInt32
  let new ← more
  if new.isEmpty then
    publish (r.transcript.drop known.length)
    return r.code.toUInt32
  else if new.getLast? == some Session.lineFeed then
    serve run more (input ++ new) known.length
  else
    let r := run (input ++ new)
    publish (r.transcript.drop known.length)
    return r.code.toUInt32

/-- Where a user's own settings are kept. -/
def home? : IO (Option String) := do
  match ← IO.getEnv "XDG_CONFIG_HOME", ← IO.getEnv "HOME" with
  | some dir, _ => return some (dir ++ "/abbrev/config.toml")
  | none, some dir => return some (dir ++ "/.config/abbrev/config.toml")
  | none, none => return none

def runProgram (c : CommandLine) : IO UInt32 := do
  let stdin ← IO.getStdin
  let stdout ← IO.getStdout
  let chosen ← IO.getEnv "ABBREV_CONFIG"
  let w : Surroundings := ⟨chosen, ← home?, fun _ => .missing, []⟩
  let paths := [c.settings?, CommandLine.usualSettings? w, c.manifest?].filterMap id
  let file ← readFiles paths
  let terminal := (← stdout.isTty) && (← IO.getEnv "NO_COLOR").isNone
  let more := await stdin (← stdin.isTty) []
  serve (fun input => c.run { w with file := file, input := input } terminal) more [] 0

end Main

end Abbrev

def main (args : List String) : IO UInt32 := do
  match Abbrev.CommandLine.read args with
  | .ok c => Abbrev.Main.runProgram c
  | .error r => do
    let out ← if r.exitCode == 0 then IO.getStdout else IO.getStderr
    out.putStr r.message
    return r.exitCode.toUInt32

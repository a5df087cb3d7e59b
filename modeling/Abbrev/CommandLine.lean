import Abbrev.Report

/-! The arguments of the process: flags, fields with a value, and lines to run, in any order. A
field whose value stands in an argument of its own is settled late, when the next argument that
belongs here is met: an unknown option in between is reported first. -/

namespace Abbrev

/-- An option without a value. -/
inductive Flag where
  | verbose | quiet | debug | plain | unattended | help | version
deriving DecidableEq, Repr

namespace Flag

def ofName? : String → Option Flag
  | "verbose" => some verbose
  | "quiet" => some quiet
  | "debug" => some debug
  | "no-color" => some plain
  | "non-interactive" => some unattended
  | "help" => some help
  | "version" => some version
  | _ => none

def ofLetter? : Char → Option Flag
  | 'v' => some verbose
  | 'q' => some quiet
  | 'h' => some help
  | 'V' => some version
  | _ => none

end Flag

/-- An option with a value. -/
inductive Field where
  | settings | manifest | format
deriving DecidableEq, Repr

def Format.ofName? : String → Option Format
  | "text" => some text
  | "json" => some json
  | _ => none

namespace Field

def ofName? : String → Option Field
  | "config" => some settings
  | "commands" => some manifest
  | "format" => some format
  | _ => none

/-- A path is not empty, and a format is one of those there are. -/
def accepts : Field → String → Bool
  | settings, v | manifest, v => !v.isEmpty
  | format, v => (Format.ofName? v).isSome

end Field

structure CommandLine where
  lines : List String := []
  flags : List Flag := []
  values : List (Field × String) := []

/-- Why a command line is not run. The last two are wishes of the user and no mistakes. -/
inductive Refusal where
  | unknownOption
  | invalidValue
  | conflict
  | unexpectedValue
  | help
  | version
deriving DecidableEq, Repr

def Refusal.exitCode : Refusal → Nat
  | help | version => 0
  | _ => 2

namespace CommandLine

def has (c : CommandLine) (f : Flag) : Bool := c.flags.contains f

def settings? (c : CommandLine) : Option String := c.values.lookup .settings

def manifest? (c : CommandLine) : Option String := c.values.lookup .manifest

def format (c : CommandLine) : Format :=
  ((c.values.lookup .format).bind Format.ofName?).getD .text

/-- Arguments read so far, and the field that was met last, with its value if that was met too. -/
structure Pending where
  taken : CommandLine
  field : Option (Field × Option String)

namespace Pending

def empty : Pending := ⟨{}, none⟩

/-- Gives a field its value; none is given twice. -/
def assign (c : CommandLine) (f : Field) (v : String) : Except Refusal Pending :=
  if (c.values.lookup f).isSome then .error .conflict
  else if f.accepts v then .ok ⟨{ c with values := c.values ++ [(f, v)] }, none⟩
  else .error .invalidValue

/-- Takes the field that was met last. -/
def settle (p : Pending) : Except Refusal Pending :=
  match p.field with
  | none => .ok p
  | some (_, none) => .error .invalidValue
  | some (f, some v) => assign p.taken f v

def addLine (p : Pending) (line : String) : Except Refusal Pending := do
  let p ← p.settle
  pure { p with taken.lines := p.taken.lines ++ [line] }

def addFlag (p : Pending) (f : Flag) : Except Refusal Pending := do
  let p ← p.settle
  match f with
  | .help => throw .help
  | .version => throw .version
  | f =>
    if p.taken.has f then throw .conflict
    pure { p with taken.flags := p.taken.flags ++ [f] }

/-- An option by its long name, with the value behind the equals sign if there is one. -/
def addLong (p : Pending) (name : String) (value : Option String) : Except Refusal Pending :=
  match Flag.ofName? name, Field.ofName? name, value with
  | some f, _, none => p.addFlag f
  | some _, _, some _ => .error .unexpectedValue
  | none, some f, none => do pure { ← p.settle with field := some (f, none) }
  | none, some f, some v => do assign (← p.settle).taken f v
  | none, none, _ => .error .unknownOption

/-- Flags by their letters. -/
def addLetters (p : Pending) : List Char → Except Refusal Pending
  | [] => .ok p
  | c :: cs => match Flag.ofLetter? c with
    | some f => do (← p.addFlag f).addLetters cs
    | none => .error .unknownOption

/-- The name of a long option and its value. -/
def splitValue (s : List Char) : String × Option String :=
  let name := String.ofList (s.takeWhile (· != '='))
  match s.dropWhile (· != '=') with
  | _ :: v => (name, some (String.ofList v))
  | [] => (name, none)

/-- An argument without dashes in front, or a single dash: the value of the field that waits for
one, or else a line. -/
def addPlain (p : Pending) (arg : String) : Except Refusal Pending :=
  match p.field with
  | some (f, none) => .ok { p with field := some (f, some arg) }
  | _ => p.addLine arg

/-- Behind two dashes every argument is a line. -/
def addAll (p : Pending) : List String → Except Refusal Pending
  | [] => .ok p
  | arg :: args => match arg.toList with
    | ['-', '-'] => args.foldlM addLine p
    | '-' :: '-' :: s => do (← p.addLong (splitValue s).1 (splitValue s).2).addAll args
    | '-' :: c :: cs => do (← p.addLetters (c :: cs)).addAll args
    | _ => do (← p.addPlain arg).addAll args

end Pending

/-- Reads the arguments; more and less noise cannot be had at once. -/
def read (args : List String) : Except Refusal CommandLine := do
  let c := (← (← Pending.empty.addAll args).settle).taken
  if c.has .verbose && c.has .quiet then throw .conflict
  pure c

end CommandLine

end Abbrev

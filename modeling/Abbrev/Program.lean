import Abbrev.CommandLine
import Abbrev.Settings.Source
import Abbrev.Shell

/-! A run of the whole program: the settings, the manifest, the lines, and the code that tells the
caller of the last failure. All that it needs from outside is given to it, and all that it does is
in its transcript. -/

namespace Abbrev

/-- What surrounds a run: the settings file that a variable names and the one at the user's home,
the files, and the standard input. -/
structure Surroundings where
  chosen : Option String := none
  home : Option String := none
  file : String → File
  input : List UInt8

structure Run where
  code : Nat
  transcript : Transcript

namespace CommandLine

/-- The file of settings that need not exist: the chosen one, or else the one at home. -/
def usualSettings? (w : Surroundings) : Option String :=
  match w.chosen.filter (!·.isEmpty) with
  | some path => some path
  | none => w.home

def loadSettings (c : CommandLine) (w : Surroundings) : Except Fault Settings :=
  match c.settings?, usualSettings? w with
  | some path, _ => Settings.load path (w.file path)
  | none, some path => Settings.loadIfPresent path (w.file path)
  | none, none => .ok {}

def loadManifest (c : CommandLine) (w : Surroundings) : Except Failure (Option Manifest) :=
  match c.manifest? with
  | none => .ok none
  | some path => match Manifest.load (w.file path) with
    | .ok m => .ok (some m)
    | .error f => .error ((Failure.ofFault f).remark s!"Failed to load manifest {path}")

def asking (c : CommandLine) : Asking := if c.has .unattended then .never else .numbered

/-- Whatever prevents the shell from being set up lies in its configuration. -/
def shell (c : CommandLine) (w : Surroundings) (color : Bool) : Except Failure Shell :=
  Except.mapError (Failure.categorize .settings) do
    let settings ← (c.loadSettings w).mapError .ofFault
    let manifest ← c.loadManifest w
    (Shell.ofManifest settings c.asking c.format color manifest).mapError .ofFault

/-- Colours are for a reader who wants them. -/
def colored (c : CommandLine) (terminal : Bool) : Bool :=
  terminal && !c.has .plain && c.format == .text

/-- The lines to run; without any the user is shown the help. -/
def texts (c : CommandLine) (s : Settings) : List String :=
  if c.lines.isEmpty then [String.ofList [s.sigil, '?']] else c.lines

def complaint (color : Bool) (f : Failure) : Event :=
  let mark := if color then Style.alarm.paint "error:" else "error:"
  .wrote .diagnostic (mark ++ " " ++ f.message ++ "\n")

def run (c : CommandLine) (w : Surroundings) (terminal : Bool) : Run :=
  let color := c.colored terminal
  match c.shell w color with
  | .error f => ⟨f.exitCode, [complaint color f]⟩
  | .ok sh =>
    let texts := c.texts sh.interpreter.settings
    let (progress, s) := (sh.executeAll texts).run ⟨w.input, [], none, none⟩
    match progress with
    | .error f => ⟨f.exitCode, s.transcript ++ [complaint color f]⟩
    | .ok _ => ⟨(s.lastFailure.map Category.exitCode).getD 0, s.transcript⟩

end CommandLine

end Abbrev

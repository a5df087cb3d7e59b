import Abbrev.Report.Help
import Abbrev.Session.Console
import Abbrev.Session.Repertoire

/-! Running lines in a session. What becomes of a line is told to the user, then what its handler
asked for is done: help is written, or lines are read and run at the prompt until one of them exits
or the input ends. At the prompt another request for it changes nothing. -/

namespace Abbrev

def Outcome.flow : Outcome → Flow
  | .dispatched flow => flow
  | _ => .proceed

structure Shell where
  interpreter : Interpreter Session
  report : Report

namespace Shell

/-- The results are written with the separator that the settings choose. -/
def ofManifest (settings : Settings) (asking : Asking) (format : Format) (color : Bool)
    (m : Option Manifest) : Except Fault Shell := do
  let report : Report := ⟨format, settings.separator, color⟩
  let commands ← Session.repertoire report m
  pure ⟨⟨commands, settings, Session.chooser asking⟩, report⟩

def catalog (sh : Shell) : Catalog := sh.interpreter.commands.catalog

def describe (sh : Shell) (ids : List Nat) : StateM Session Unit :=
  Session.write .result (sh.report.help sh.catalog ids)

/-- Reports a failure and remembers its category. -/
def complain (sh : Shell) (c : Category) (message : String) : StateM Session Unit := do
  Session.write .diagnostic (sh.report.paint .alarm "error:" ++ " " ++ message ++ "\n")
  modify fun s => { s with lastFailure := some c }

def tell (sh : Shell) : Outcome → StateM Session Unit
  | .dispatched _ | .cancelled => pure ()
  | .help ids => sh.describe ids
  | .handlerFailed e => sh.complain .internal e.message
  | .failed f => do
    sh.complain (.ofFault f) f.message
    if let .commandNotFound _ := f then
      Session.write .diagnostic s!"Enter {sh.interpreter.settings.sigil}? for help.\n"

/-- Whether to go on, or why that is impossible. -/
abbrev Progress := Except Failure Flow

/-- Runs one line; `enter` says what comes of a request for the prompt. -/
def runLine (sh : Shell) (enter : Flow → StateM Session Progress) (line : String) :
    StateM Session Progress := do
  let outcome ← sh.interpreter.runLine line
  modify (Session.record (.handled outcome))
  sh.tell outcome
  match ← Session.takeRequest with
  | none => pure (.ok outcome.flow)
  | some .help => do
    sh.describe sh.catalog.ids
    pure (.ok outcome.flow)
  | some .prompt => enter outcome.flow

/-- Runs lines as long as they proceed. -/
def runLines (sh : Shell) (enter : Flow → StateM Session Progress) :
    List String → StateM Session Progress
  | [] => pure (.ok .proceed)
  | line :: lines => do
    match ← sh.runLine enter line with
    | .ok .proceed => sh.runLines enter lines
    | stop => pure stop

/-- Runs a text that was typed at the prompt. -/
def executeTyped (sh : Shell) (text : String) : StateM Session Progress :=
  sh.runLines (fun flow => pure (.ok flow)) (Text.lines text)

/-- Reads and runs at most `n` lines. -/
def converse (sh : Shell) : Nat → StateM Session Progress
  | 0 => pure (.ok .proceed)
  | n + 1 => do
    match ← Session.readCommand with
    | .error reason => pure (.error (.ofText reason))
    | .ok none => pure (.ok .proceed)
    | .ok (some text) =>
      match ← sh.executeTyped text with
      | .ok .proceed => sh.converse n
      | stop => pure stop

/-- Every line that is read shortens the input, so its length bounds the conversation. -/
def prompt (sh : Shell) : StateM Session Progress := do
  modify (Session.record .opened)
  let progress ← sh.converse ((← get).input.length + 1)
  modify (Session.record .closed)
  pure progress

def execute (sh : Shell) (text : String) : StateM Session Progress :=
  sh.runLines (fun _ => sh.prompt) (Text.lines text)

/-- Executes texts as long as they proceed. -/
def executeAll (sh : Shell) : List String → StateM Session Progress
  | [] => pure (.ok .proceed)
  | text :: texts => do
    match ← sh.execute text with
    | .ok .proceed => sh.executeAll texts
    | stop => pure stop

end Shell

end Abbrev

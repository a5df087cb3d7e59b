import Abbrev.Binding.Named
import Abbrev.Binding.Positional
import Abbrev.Catalog
import Abbrev.Line
import Abbrev.Settings

/-! What a line means. The templates whose first word the line begins are bound to its tokens, each
on its own; those that bind are the line's meanings, in the order of registration. Of several
meanings none is preferred: a chooser is asked. -/

namespace Abbrev

/-- A template with a value for each of its parameters. -/
structure Match where
  id : Nat
  template : Template
  binding : Binding

inductive Resolution where
  | matched (m : Match)
  | help (ids : List Nat)
  | cancelled

/-- One meaning as it is offered; numbers start at one. -/
structure Choice where
  number : Nat
  label : String
  id : Nat
deriving DecidableEq, Repr

/-- Answers with a place in the list, counted from zero, or with none to decline. -/
abbrev Chooser (σ : Type) := List Choice → StateM σ (Except Fault (Option Nat))

/-- Takes the meanings of a line for a fault that names them. -/
def Chooser.refuse {σ : Type} : Chooser σ :=
  fun choices => pure (.error (.ambiguousCommand (choices.map (·.label))))

/-- By name if any token is named, else by place. -/
def Template.bind (t : Template) (tokens : List String) (separator : Char) :
    Except Rejection Binding :=
  let args := tokens.map Argument.ofToken
  if args.any Argument.isNamed then t.bindNamed args separator
  else t.bindPositional tokens separator

/-- The templates whose first word the token abbreviates, with their identities. -/
def Catalog.candidates (c : Catalog) (first : String) : List (Template × Nat) :=
  c.templates.zipIdx.filter fun (t, _) => Text.abbreviates first t.firstWord

def survivors (separator : Char) (tokens : List String) (candidates : List (Template × Nat)) :
    List Match :=
  candidates.filterMap fun (t, id) =>
    match t.bind tokens separator with
    | .ok b => some ⟨id, t, b⟩
    | .error _ => none

/-- What the last candidate has to report. -/
def lastReport? (separator : Char) (tokens : List String) (candidates : List (Template × Nat)) :
    Option Fault :=
  candidates.getLast?.bind fun (t, _) =>
    match t.bind tokens separator with
    | .ok _ => none
    | .error r => r.fault?

/-- What a line asks for before anyone is asked: help, or at least one meaning. -/
inductive Reading where
  | help (ids : List Nat)
  | meanings (first : Match) (others : List Match)

/-- The meanings among the candidates. When there is none, what the last candidate has to report is
told, or else that the text names no command. -/
def meanings (s : Settings) (text : String) (tokens : List String)
    (candidates : List (Template × Nat)) : Except Fault Reading :=
  match survivors s.separator tokens candidates with
  | m :: ms => .ok (.meanings m ms)
  | [] =>
    let reported := lastReport? s.separator tokens candidates
    .error (reported.getD (.commandNotFound (Text.trim text)))

def Catalog.read (c : Catalog) (s : Settings) (text : String) : Except Fault Reading := do
  let lines := (Text.lines text).length
  if 1 < lines then throw (.multipleLines lines)
  let line := Line.ofText s.sigil text
  match line.tokens with
  | [] => if line.help then pure (.help c.ids) else throw .emptyCommand
  | first :: _ =>
    let begun := c.candidates first
    if begun.isEmpty then throw (.commandNotFound first)
    if line.help then return .help (begun.map (·.2))
    let fitting := begun.filter fun (t, _) => line.tokens.length ≤ t.parts.length
    if fitting.isEmpty then throw .tooManyArguments
    meanings s text line.tokens fitting

/-- The words of the path, and each slot's name with the text of its value. -/
def Match.label (m : Match) (separator : Char) : String :=
  String.intercalate " " <| m.template.parts.map fun
    | .word w => w
    | .slot s =>
      let value := ((m.binding.get? s.param.name).map (·.text separator)).getD ""
      s.name ++ "=" ++ value

def choices (separator : Char) (ms : List Match) : List Choice :=
  ms.zipIdx.map fun (m, i) => ⟨i + 1, m.label separator, m.id⟩

/-- Picks one of the meanings; a single one needs no choice, and too many are not offered. -/
def settle {σ : Type} (s : Settings) (chooser : Chooser σ) (first : Match) (others : List Match) :
    StateM σ (Except Fault Resolution) :=
  let ms := first :: others
  if others.isEmpty then pure (.ok (.matched first))
  else if s.maxChoices < ms.length then pure (.error (.tooAmbiguous ms.length))
  else do
    match ← chooser (choices s.separator ms) with
    | .error f => pure (.error f)
    | .ok pick => match pick.bind fun i => ms[i]? with
      | some m => pure (.ok (.matched m))
      | none => pure (.ok .cancelled)

def Catalog.resolve {σ : Type} (c : Catalog) (s : Settings) (chooser : Chooser σ) (text : String) :
    StateM σ (Except Fault Resolution) :=
  match c.read s text with
  | .error f => pure (.error f)
  | .ok (.help ids) => pure (.ok (.help ids))
  | .ok (.meanings m ms) => settle s chooser m ms

/-- Resolves each line of a text; one that fails does not stop the others. -/
def Catalog.resolveAll {σ : Type} (c : Catalog) (s : Settings) (chooser : Chooser σ)
    (text : String) : StateM σ (List (Except Fault Resolution)) :=
  (Text.lines text).mapM (c.resolve s chooser)

end Abbrev

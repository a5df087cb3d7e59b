import Abbrev.Arguments

/-! Templates with their handlers. A handler works on a state of the caller's choosing; running a
text resolves its lines in turn and hands each match to the handler that was registered with it. -/

namespace Abbrev

/-- Whether lines are still to be run. -/
inductive Flow where
  | proceed
  | exit
deriving DecidableEq, Repr

abbrev Handler (σ : Type) := Arguments → StateM σ (Except Failure Flow)

structure Command (σ : Type) where
  template : Template
  handler : Handler σ

structure Commands (σ : Type) where
  list : List (Command σ)

namespace Commands

variable {σ : Type}

def empty : Commands σ := ⟨[]⟩

def catalog (c : Commands σ) : Catalog := ⟨c.list.map (·.template)⟩

/-- Registers a template together with its handler. -/
def register (c : Commands σ) (t : Template) (h : Handler σ) : Except Fault (Commands σ) := do
  let _ ← c.catalog.freshId t.path
  pure ⟨c.list ++ [⟨t, h⟩]⟩

def dispatch (c : Commands σ) (m : Match) : StateM σ (Except Failure Flow) :=
  match c.list[m.id]? with
  | none => pure (.error (.ofFault (.noHandler m.template.path)))
  | some command => match Arguments.ofMatch m with
    | .error f => pure (.error (.ofFault f))
    | .ok args => command.handler args

end Commands

/-- What became of one line. -/
inductive Outcome where
  | dispatched (flow : Flow)
  | help (ids : List Nat)
  | cancelled
  | failed (fault : Fault)
  | handlerFailed (failure : Failure)

namespace Outcome

def isFailure : Outcome → Bool
  | failed _ | handlerFailed _ => true
  | _ => false

def isExit : Outcome → Bool
  | dispatched .exit => true
  | _ => false

/-- A handler that fails on a fault of this library fails as if the line itself had. -/
def ofDispatch : Except Failure Flow → Outcome
  | .ok flow => dispatched flow
  | .error e => match e.fault? with
    | some f => failed f
    | none => handlerFailed e

end Outcome

structure Interpreter (σ : Type) where
  commands : Commands σ
  settings : Settings
  chooser : Chooser σ

namespace Interpreter

variable {σ : Type}

def runLine (i : Interpreter σ) (line : String) : StateM σ Outcome := do
  match ← i.commands.catalog.resolve i.settings i.chooser line with
  | .ok (.matched m) => return .ofDispatch (← i.commands.dispatch m)
  | .ok (.help ids) => return .help ids
  | .ok .cancelled => return .cancelled
  | .error f => return .failed f

/-- A line that fails does not stop those behind it; one that exits does. -/
def runLines (i : Interpreter σ) : List String → StateM σ (List Outcome)
  | [] => pure []
  | line :: lines => do
    let outcome ← i.runLine line
    if outcome.isExit then return [outcome]
    return outcome :: (← i.runLines lines)

def run (i : Interpreter σ) (text : String) : StateM σ (List Outcome) :=
  i.runLines (Text.lines text)

end Interpreter

end Abbrev

import Abbrev.Proofs.Checked.Resolving
import Abbrev.Proofs.Commands.Completeness
import Abbrev.Proofs.Commands.Running

/-! Running a text with every step checked, down to the names that are looked up before a handler is
called. Whatever the text, no check fails: an interpreter of built templates whose chooser and
handlers return comes to the outcomes that running comes to, and leaves the same state. -/

namespace Abbrev

namespace Layout

/-- The first of some names that no parameter has. -/
def extra? (l : Layout) : List String → Option (Option String)
  | [] => some none
  | name :: names => do
    let found ← l.param? name
    if found.isNone then pure (some name) else l.extra? names

end Layout

theorem Template.WellFormed.extra?_eq {t : Template} (h : t.WellFormed) (names : List String) :
    t.layout.extra? names = some (names.find? fun name => (t.param? name).isNone) := by
  induction names with
  | nil => rfl
  | cons name names ih =>
    rw [Layout.extra?, h.layout_param?, ih, List.find?_cons]
    cases t.param? name <;> rfl

namespace Arguments

def ofMatch? (m : Match) : ExceptT Fault Option Arguments := do
  let entries ← passing (m.template.params.mapM m.entry)
  let extra ← check (m.template.layout.extra? m.binding.names)
  match extra with
  | some extra => throw (.incompleteBinding m.template.path extra)
  | none => pure ⟨m.template.path, entries⟩

theorem ofMatch?_eq {m : Match} (h : m.template.WellFormed) :
    ofMatch? m = passing (ofMatch m) := by
  rw [ofMatch?, h.extra?_eq, check_some]
  change _ = passing (m.template.params.mapM m.entry >>= _)
  rw [passing_bind]
  congr 1
  funext entries
  rw [pure_bind]
  cases m.binding.names.find? fun name => (m.template.param? name).isNone <;> rfl

end Arguments

section Runs

variable {σ : Type}

def Commands.dispatch? (c : Commands σ) (m : Match) : StateT σ Option (Except Failure Flow) :=
  match c.list[m.id]? with
  | none => pure (.error (.ofFault (.noHandler m.template.path)))
  | some command => do
    match ← checkRun (Arguments.ofMatch? m).run with
    | .error f => pure (.error (.ofFault f))
    | .ok args => passingRun (command.handler args)

theorem Commands.dispatch?_eq {m : Match} (h : m.template.WellFormed) (c : Commands σ) :
    c.dispatch? m = passingRun (c.dispatch m) := by
  rw [dispatch?, dispatch, Arguments.ofMatch?_eq h, checkRun_run_passing]
  cases c.list[m.id]? with
  | none => rfl
  | some command =>
    dsimp only
    rw [pure_bind]
    cases Arguments.ofMatch m <;> rfl

namespace Interpreter

def runLine? (i : Interpreter σ) (line : String) : StateT σ Option Outcome := do
  match ← i.commands.catalog.resolve? i.settings i.chooser line with
  | .ok (.matched m) => return .ofDispatch (← i.commands.dispatch? m)
  | .ok (.help ids) => return .help ids
  | .ok .cancelled => return .cancelled
  | .error f => return .failed f

def runLines? (i : Interpreter σ) : List String → StateT σ Option (List Outcome)
  | [] => pure []
  | line :: lines => do
    let outcome ← i.runLine? line
    if outcome.isExit then return [outcome]
    return outcome :: (← i.runLines? lines)

def run? (i : Interpreter σ) (text : String) : StateT σ Option (List Outcome) :=
  i.runLines? (Text.lines text)

variable {i : Interpreter σ}

theorem runLine?_eq (hwell : ∀ t ∈ i.commands.catalog.templates, t.WellFormed) (line : String) :
    i.runLine? line = passingRun (i.runLine line) := by
  rw [runLine?, runLine, Catalog.resolve?_eq hwell]
  refine passingRun_bind fun st => ?_
  cases hresolved : ((i.commands.catalog.resolve i.settings i.chooser line).run st).1 with
  | error f => rfl
  | ok resolution =>
    cases resolution with
    | matched m =>
      have hmem := Catalog.mem_contenders_of_resolve hresolved
      obtain ⟨hget, -⟩ := (Catalog.mem_contenders ..).1 hmem
      dsimp only
      rw [i.commands.dispatch?_eq (hwell _ (List.mem_of_getElem? hget))]
      rfl
    | help ids => rfl
    | cancelled => rfl

theorem runLines?_eq (hwell : ∀ t ∈ i.commands.catalog.templates, t.WellFormed)
    (lines : List String) : i.runLines? lines = passingRun (i.runLines lines) := by
  induction lines with
  | nil => rfl
  | cons line lines ih =>
    rw [runLines?, runLines, runLine?_eq hwell, ih]
    refine passingRun_bind fun st => ?_
    split <;> rfl

end Interpreter

end Runs

/-- The checks on the tables of a template: the defaults are no more than the parts, the path points
to rows and rows to parameters, and binding, looking up and showing come to what they come to
without tables. -/
structure Template.Safe (t : Template) : Prop where
  defaultCount_le : t.layout.defaultCount ≤ t.layout.cells.length
  row_lt : ∀ i, Cell.slot i ∈ t.layout.cells → i < t.layout.rows.length
  param_lt : ∀ r ∈ t.layout.rows, r.param < t.layout.params.length
  param : ∀ name, t.layout.param? name = some (t.param? name)
  bindPositional : ∀ tokens separator,
    t.layout.bindPositional? tokens separator = passing (t.bindPositional tokens separator)
  bindNamed : ∀ args separator,
    t.layout.bindNamed? args separator = passing (t.bindNamed args separator)
  label : ∀ id b separator,
    Match.label? ⟨id, t, b⟩ separator = some (Match.label ⟨id, t, b⟩ separator)
  helpLines : ∀ r : Report, r.helpLines? t = some (r.helpLines t)

theorem Template.WellFormed.safe {t : Template} (h : t.WellFormed) : t.Safe where
  defaultCount_le := by
    rw [h.length_cells]
    exact h.defaultCount_le
  row_lt := fun i hi => by
    obtain ⟨p, -, hp⟩ := exists_of_forall₂ h.lays.cells hi
    cases hp with
    | slot row holds => exact (List.getElem?_eq_some_iff.1 row).1
  param_lt := fun r hr => by
    obtain ⟨s, -, hs⟩ := exists_of_forall₂ h.rows_slots hr
    exact (List.getElem?_eq_some_iff.1 hs.paramOf).1
  param := h.layout_param?
  bindPositional := fun tokens _ => h.bindPositional?_eq tokens
  bindNamed := fun args _ => h.bindNamed?_eq args
  label := fun _ _ separator => Match.label?_eq h separator
  helpLines := Report.helpLines?_eq h

/-- The slot of a parameter that was never declared points nowhere. -/
example : ((Layout.ofParts [] [.word "say", .slot ⟨⟨"word", .one .string⟩, "word", none, ""⟩]
    ).bindPositional? ["say", "hello"] ',').run = none := rfl

namespace Interpreter

variable {σ : Type}

/-- The checks on the way of a text: none fails when tokens are read and split, on the tables of any
template, or when meanings are settled, and so none fails in resolving and running. -/
structure Safe (i : Interpreter σ) : Prop where
  tokens : ∀ text : String, Lexer.tokens? text.toList = some (Lexer.tokens text.toList)
  ofToken : ∀ token, Argument.ofToken? token = some (Argument.ofToken token)
  templates : ∀ t ∈ i.commands.catalog.templates, t.Safe
  help : ∀ (r : Report) ids, r.help? i.commands.catalog ids = some (r.help i.commands.catalog ids)
  settle : ∀ first others,
    (∀ m ∈ first :: others, m.template ∈ i.commands.catalog.templates) →
    settle? i.settings i.chooser first others =
      passingRun (Abbrev.settle i.settings i.chooser first others)
  resolve : ∀ text, i.commands.catalog.resolve? i.settings i.chooser text =
    passingRun (i.commands.catalog.resolve i.settings i.chooser text)
  resolveAll : ∀ text, i.commands.catalog.resolveAll? i.settings i.chooser text =
    passingRun (i.commands.catalog.resolveAll i.settings i.chooser text)
  run : ∀ text, i.run? text = passingRun (i.run text)

/-- No text makes a check fail, whatever the settings, the handlers and the chooser. -/
theorem safe_of_built (i : Interpreter σ)
    (hbuilt : ∀ t ∈ i.commands.catalog.templates, t.Built) : i.Safe := by
  have hwell : ∀ t ∈ i.commands.catalog.templates, t.WellFormed :=
    fun t ht => (hbuilt t ht).wellFormed
  constructor
  case tokens => exact fun text => Lexer.tokens?_eq_tokens text.toList
  case ofToken => exact Argument.ofToken?_eq_ofToken
  case templates => exact fun t ht => (hwell t ht).safe
  case help => exact Report.help?_eq hwell
  case settle => exact fun _ _ h => settle?_eq (fun m hm => hwell _ (h m hm)) _ _
  case resolve => exact Catalog.resolve?_eq hwell _ _
  case resolveAll => exact Catalog.resolveAll?_eq hwell _ _
  case run => exact fun text => runLines?_eq hwell _

/-- A line with an escaped quote, an argument by name and a default left to be filled in. -/
theorem safe_users : users.Safe ∧ (users.run? "u l\nu f n=\\\"Bob").run [] =
    some ([.dispatched .proceed, .dispatched .exit], [0, 1]) := by
  have hsafe : users.Safe := safe_of_built users (by
    simp [users, Commands.catalog, Template.built_listUsers, Template.built_findUser])
  refine ⟨hsafe, ?_⟩
  rw [hsafe.run]
  rfl

end Interpreter

end Abbrev

import Abbrev.Proofs.Commands.Running
import Abbrev.Proofs.Session.Repertoire
import Abbrev.Shell

/-! What one line does to a session. A question about its meaning reads the next line of the input;
its handler writes results and may leave a request; the outcome is recorded and told, and the
request is taken before anything else is run. All that handlers and the chooser may do is stated
once, and the shells of manifests are shown to keep to it. -/

namespace Abbrev

namespace Session

theorem length_afterLine_lt {input : List UInt8} (h : input ≠ []) :
    (afterLine input).length < input.length := by
  have hline : 0 < (firstLine input).length :=
    List.length_pos_iff.2 (mt firstLine_eq_nil_iff.1 h)
  have hlength := congrArg List.length (firstLine_append_afterLine input)
  rw [List.length_append] at hlength
  omega

theorem length_afterLine_le (input : List UInt8) :
    (afterLine input).length ≤ input.length := by
  rw [afterLine, List.length_drop]
  exact (Nat.sub_le _ _).trans (List.dropWhile_suffix _).length_le

/-- What reading the first line of an input gives: nothing at the end, else what is made of its
text, if it is one. -/
def lineAnswer {α : Type} (use : String → Option α) (input : List UInt8) :
    Except String (Option α) :=
  if input = [] then .ok none
  else match decode? (firstLine input) with
    | some line => .ok (use line)
    | none => .error notText

theorem ne_nil_of_lineAnswer {α : Type} {use : String → Option α} {input : List UInt8} {x : α}
    (h : lineAnswer use input = .ok (some x)) : input ≠ [] := by
  rintro rfl
  simp [lineAnswer] at h

theorem run_readLine (st : Session) :
    readLine.run st = (lineAnswer some st.input,
      record (.read (firstLine st.input)) { st with input := afterLine st.input }) := by
  refine Prod.ext ?_ rfl
  rw [lineAnswer]
  simp only [← @firstLine_eq_nil_iff st.input]
  simp only [readLine, modifyGet, MonadStateOf.modifyGet, StateT.modifyGet, StateT.run]
  cases firstLine st.input with
  | nil => rfl
  | cons b line => cases decode? (b :: line) <;> rfl

/-- The events of a question and of the line read for it. At the end of the input the line on which
the question stands is ended instead. -/
def asking (text : String) (input : List UInt8) : Transcript :=
  .wrote .question text :: .read (firstLine input) ::
    if input = [] then [.wrote .question "\n"] else []

/-- The session behind a question. -/
def asked (text : String) (st : Session) : Session :=
  { st with input := afterLine st.input, transcript := st.transcript ++ asking text st.input }

/-- The common shape of the prompt and of the question about a number. -/
def askLine {α : Type} (text : String) (use : String → Option α) :
    StateM Session (Except String (Option α)) := do
  write .question text
  match ← readLine with
  | .error reason => pure (.error reason)
  | .ok none => do
    write .question "\n"
    pure (.ok none)
  | .ok (some line) => pure (.ok (use line))

theorem run_askLine {α : Type} (text : String) (use : String → Option α) (st : Session) :
    (askLine text use).run st = (lineAnswer use st.input, st.asked text) := by
  have hwrote : (write .question text).run st = ((), record (.wrote .question text) st) := rfl
  rw [askLine, run_bind, run_bind, hwrote, run_readLine, lineAnswer, lineAnswer]
  obtain ⟨input, transcript, request, lastFailure⟩ := st
  cases input with
  | nil =>
    have hevents : transcript ++ asking text [] =
        transcript ++ [.wrote .question text] ++ [.read []] ++ [.wrote .question "\n"] := by
      simp [asking, firstLine]
    rw [asked, hevents]
    rfl
  | cons b input =>
    have hevents : transcript ++ asking text (b :: input) =
        transcript ++ [.wrote .question text] ++ [.read (firstLine (b :: input))] := by
      simp [asking]
    rw [asked, hevents]
    simp only [record, reduceCtorEq, if_false]
    cases decode? (firstLine (b :: input)) <;> rfl

/-- The text of a line typed at the prompt. -/
def typed (line : String) : String :=
  String.ofList (Text.dropEnd Text.isLineBreak line.toList)

theorem run_readCommand (st : Session) :
    readCommand.run st = (lineAnswer (some ∘ typed) st.input, st.asked ">") :=
  run_askLine ">" (some ∘ typed) st

theorem run_askNumber (choices : List Choice) (st : Session) :
    (askNumber choices).run st =
      (lineAnswer (pick? choices.length) st.input, st.asked (question choices)) :=
  run_askLine (question choices) (pick? choices.length) st

theorem decode?_nil : decode? [] = some "" := by decide

theorem lineAnswer_eq_error {α : Type} {use : String → Option α} {input : List UInt8}
    {reason : String} :
    lineAnswer use input = .error reason ↔
      decode? (firstLine input) = none ∧ reason = notText := by
  rw [lineAnswer]
  by_cases hinput : input = []
  · simp [hinput, firstLine, decode?_nil]
  · rw [if_neg hinput]
    cases decode? (firstLine input) <;> simp [eq_comm]

/-- A handler that does nothing to the session but write results and leave a request, which is not
for the prompt if it exits. -/
def Modest (handler : Handler Session) : Prop :=
  ∀ args st, ∃ texts request,
    ((handler args).run st).2 = { st with
      transcript := st.transcript ++ List.map (Event.wrote .result) texts
      request := request } ∧
    (((handler args).run st).1 = .ok .exit → request = some .prompt → st.request = some .prompt)

theorem modest_enterPrompt : Modest enterPrompt := fun _ st =>
  ⟨[], some .prompt, by rw [List.map_nil, List.append_nil]; rfl, nofun⟩

theorem modest_leave : Modest leave := fun _ st =>
  ⟨[], st.request, by rw [List.map_nil, List.append_nil]; rfl, fun _ h => h⟩

theorem modest_describeAll : Modest describeAll := fun _ st =>
  ⟨[], some .help, by rw [List.map_nil, List.append_nil]; rfl, nofun⟩

theorem modest_echo (r : Report) : Modest (echo r) := fun _ st => ⟨[_], st.request, rfl, nofun⟩

theorem modest_answering (r : Report) (answer : Arguments → Except Fault (String × Json)) :
    Modest (answering r answer) := fun args st => by
  rw [answering]
  cases answer args with
  | error f => exact ⟨[], st.request, by rw [List.map_nil, List.append_nil]; rfl, nofun⟩
  | ok x => exact ⟨[_], st.request, rfl, nofun⟩

theorem modest_of_mem_ownCommands {r : Report} {command : Command Session}
    (h : command ∈ ownCommands r) : Modest command.handler := by
  simp only [ownCommands, List.mem_cons, List.not_mem_nil, or_false] at h
  rcases h with rfl | rfl | rfl | rfl | rfl
  · exact modest_enterPrompt
  · exact modest_leave
  · exact modest_describeAll
  · exact modest_answering r findUser
  · exact modest_answering r countProducts

theorem run_chooser_numbered (choices : List Choice) (st : Session) :
    (chooser .numbered choices).run st =
      ((lineAnswer (pick? choices.length) st.input).mapError .io, st.asked (question choices)) := by
  rw [chooser, run_bind, run_askNumber]
  rfl

theorem run_chooser_snd (asking : Asking) (choices : List Choice) (st : Session) :
    ((chooser asking choices).run st).2 = st ∨
      ((chooser asking choices).run st).2 = st.asked (question choices) := by
  cases asking with
  | never => exact .inl rfl
  | numbered =>
    rw [run_chooser_numbered]
    exact .inr rfl

/-- Without a manifest the commands are those of an empty one. -/
theorem repertoire_none (r : Report) : repertoire r none = repertoire r (some ⟨[]⟩) := rfl

end Session

/-- A failing outcome has the category of its fault, and a handler's own failure is internal. -/
def Outcome.category? : Outcome → Option Category
  | .failed f => some (.ofFault f)
  | .handlerFailed _ => some .internal
  | .dispatched _ | .help _ | .cancelled => none

theorem Outcome.isExit_ofDispatch {answer : Except Failure Flow} :
    (Outcome.ofDispatch answer).isExit = true ↔ answer = .ok .exit := by
  rcases answer with e | _ | _
  · rw [ofDispatch]
    cases e.fault? <;> simp [isExit]
  · simp [ofDispatch, isExit]
  · simp [ofDispatch, isExit]

/-- A result or a diagnostic. -/
def Event.isOutput : Event → Bool
  | .wrote channel _ => channel != .question
  | .read _ | .handled _ | .opened | .closed => false

/-- The events of a line with the given outcome, and the input that it leaves: at most one question,
then results, the outcome, and what is told of it. -/
inductive Transcript.OfLine (o : Outcome) (input : List UInt8) : Transcript → List UInt8 → Prop
  | unasked {before after : Transcript} (hbefore : before.all Event.isOutput = true)
      (hafter : after.all Event.isOutput = true) :
    OfLine o input (before ++ .handled o :: after) input
  | asked (choices : List Choice) {before after : Transcript}
      (hbefore : before.all Event.isOutput = true) (hafter : after.all Event.isOutput = true) :
    OfLine o input (Session.asking (Session.question choices) input ++
      (before ++ .handled o :: after)) (Session.afterLine input)

theorem Transcript.OfLine.length_le {o : Outcome} {input rest : List UInt8} {es : Transcript}
    (h : OfLine o input es rest) : rest.length ≤ input.length := by
  cases h with
  | unasked => exact le_rfl
  | asked => exact Session.length_afterLine_le input

namespace Shell

variable {sh : Shell}

/-- What is written to tell an outcome. -/
def told (sh : Shell) (o : Outcome) : Transcript :=
  ((sh.tell o).run { input := [] }).2.transcript

/-- What is written because a handler asked for it. -/
def helped (sh : Shell) : Option Request → Transcript
  | some .help => [.wrote .result (sh.report.help sh.catalog sh.catalog.ids)]
  | some .prompt | none => []

theorem all_isOutput_told (sh : Shell) (o : Outcome) :
    (sh.told o).all Event.isOutput = true := by
  cases o with
  | failed f => cases f <;> rfl
  | _ => rfl

theorem all_isOutput_helped (sh : Shell) (r : Option Request) :
    (sh.helped r).all Event.isOutput = true := by
  rcases r with _ | _ | _ <;> rfl

theorem run_tell (sh : Shell) (o : Outcome) (st : Session) :
    (sh.tell o).run st = ((), { st with
      transcript := st.transcript ++ sh.told o
      lastFailure := o.category?.or st.lastFailure }) := by
  obtain ⟨input, transcript, request, lastFailure⟩ := st
  have hsilent : transcript ++ [] = transcript := List.append_nil transcript
  cases o with
  | dispatched flow =>
    conv_lhs => rw [← hsilent]
    rfl
  | cancelled =>
    conv_lhs => rw [← hsilent]
    rfl
  | help ids => rfl
  | handlerFailed e => rfl
  | failed f =>
    cases f with
    | commandNotFound text =>
      have hevents : transcript ++ sh.told (.failed (.commandNotFound text)) =
          transcript ++ [_] ++ [_] := (List.append_assoc transcript [_] [_]).symm
      rw [hevents]
      rfl
    | _ => rfl

/-- Runs one line up to the point at which a request for the prompt would be met. -/
def handle (sh : Shell) (line : String) : StateM Session (Flow × Option Request) := do
  let outcome ← sh.interpreter.runLine line
  modify (Session.record (.handled outcome))
  sh.tell outcome
  let request ← Session.takeRequest
  if request = some .help then sh.describe sh.catalog.ids
  pure (outcome.flow, request)

/-- Meets a request for the prompt. -/
def entering (enter : Flow → StateM Session Progress) :
    Flow × Option Request → StateM Session Progress
  | (flow, some .prompt) => enter flow
  | (flow, some .help) | (flow, none) => pure (.ok flow)

theorem runLine_eq (sh : Shell) (enter : Flow → StateM Session Progress) (line : String) :
    sh.runLine enter line = sh.handle line >>= entering enter := by
  funext st
  rw [runLine, handle]
  simp only [bind_assoc]
  change StateT.run _ _ = StateT.run _ _
  simp only [run_bind]
  generalize StateT.run Session.takeRequest _ = took
  obtain ⟨_ | _ | _, st'⟩ := took <;> rfl

/-- What comes of a line is told, and the request that it left is taken. -/
theorem run_handle {line : String} {o : Outcome} {st st' : Session}
    (h : (sh.interpreter.runLine line).run st = (o, st')) :
    (sh.handle line).run st = ((o.flow, st'.request), ⟨st'.input,
      st'.transcript ++ .handled o :: (sh.told o ++ sh.helped st'.request), none,
      o.category?.or st'.lastFailure⟩) := by
  rw [handle, run_bind, h]
  obtain ⟨input, transcript, request, lastFailure⟩ := st'
  have hevents : transcript ++ .handled o :: (sh.told o ++ sh.helped request) =
      transcript ++ [.handled o] ++ sh.told o ++ sh.helped request := by simp
  rw [hevents, run_bind, run_bind, run_tell, run_bind]
  rcases request with _ | _ | _
  · rw [helped, List.append_nil]
    rfl
  · rw [helped, List.append_nil]
    rfl
  · rfl

/-- A shell whose handlers are modest, and whose chooser asks by number or does not touch the
session. -/
structure Confined (sh : Shell) : Prop where
  handler : ∀ command ∈ sh.interpreter.commands.list, Session.Modest command.handler
  chooser : ∀ choices st, ((sh.interpreter.chooser choices).run st).2 = st ∨
    ((sh.interpreter.chooser choices).run st).2 = st.asked (Session.question choices)

/-- What handling one line does to a session. -/
structure Handles (sh : Shell) (line : String) (st : Session) (o : Outcome)
    (request : Option Request) (es : Transcript) (st' : Session) : Prop where
  outcome : ((sh.interpreter.runLine line).run st).1 = o
  transcript_eq : st'.transcript = st.transcript ++ es
  events : Transcript.OfLine o st.input es st'.input
  request_eq : st'.request = none
  lastFailure_eq : st'.lastFailure = o.category?.or st.lastFailure
  exits : o.isExit = true → request = some .prompt → st.request = some .prompt

namespace Confined

theorem afterQuestion_cases (hsh : sh.Confined) (line : String) (st : Session) :
    sh.interpreter.afterQuestion line st = st ∨ ∃ choices,
      sh.interpreter.afterQuestion line st = st.asked (Session.question choices) := by
  rw [Interpreter.afterQuestion, Catalog.afterQuestion]
  split
  · exact (hsh.chooser _ st).imp_right fun h => ⟨_, h⟩
  · exact .inl rfl

theorem request_afterQuestion (hsh : sh.Confined) (line : String) (st : Session) :
    (sh.interpreter.afterQuestion line st).request = st.request := by
  rcases hsh.afterQuestion_cases line st with h | ⟨choices, h⟩
  · rw [h]
  · rw [h, Session.asked]

theorem exists_run_runLine (hsh : sh.Confined) (line : String) (st : Session) :
    ∃ o st' texts request, (st' = st ∨ ∃ choices, st' = st.asked (Session.question choices)) ∧
      (sh.interpreter.runLine line).run st = (o, { st' with
        transcript := st'.transcript ++ List.map (Event.wrote .result) texts
        request := request }) ∧
      (o.isExit = true → request = some .prompt → st.request = some .prompt) := by
  have hquestion := hsh.afterQuestion_cases line st
  have hpending := hsh.request_afterQuestion line st
  rcases sh.interpreter.leavesOwnEffects line st with
    hleft | ⟨m, command, args, -, hcommand, hran⟩
  · refine ⟨_, _, [], st.request, hquestion, Prod.ext rfl ?_, fun _ h => h⟩
    rw [hleft, ← hpending, List.map_nil, List.append_nil]
  · obtain ⟨texts, request, hleft, hexit⟩ := hsh.handler command (List.mem_of_getElem? hcommand)
      args (sh.interpreter.afterQuestion line st)
    refine ⟨.ofDispatch ((command.handler args).run (sh.interpreter.afterQuestion line st)).1, _,
      texts, request, hquestion, ?_, fun h => ?_⟩
    · rw [hran, hleft]
    · rw [← hpending]
      exact hexit (Outcome.isExit_ofDispatch.1 h)

theorem exists_handles (hsh : sh.Confined) (line : String) (st : Session) :
    ∃ o request es st', (sh.handle line).run st = ((o.flow, request), st') ∧
      sh.Handles line st o request es st' := by
  obtain ⟨o, st', texts, request, hquestion, hran, hexit⟩ := hsh.exists_run_runLine line st
  have hbefore : (List.map (Event.wrote .result) texts).all Event.isOutput = true := by
    rw [List.all_map, List.all_eq_true]
    exact fun _ _ => rfl
  have hafter : (sh.told o ++ sh.helped request).all Event.isOutput = true := by
    rw [List.all_append, all_isOutput_told, all_isOutput_helped, Bool.and_self]
  have houtcome := congrArg Prod.fst hran
  rcases hquestion with rfl | ⟨choices, rfl⟩
  · exact ⟨o, request, _, _, run_handle hran, houtcome, List.append_assoc ..,
      .unasked hbefore hafter, rfl, rfl, hexit⟩
  · refine ⟨o, request, _, _, run_handle hran, houtcome, ?_, .asked choices hbefore hafter, rfl,
      rfl, hexit⟩
    simp [Session.asked]

end Confined

variable {settings : Settings} {asking : Asking} {format : Format} {color : Bool}
  {m : Option Manifest}

/-- A manifest that is not given counts as an empty one. -/
theorem exists_of_ofManifest (h : ofManifest settings asking format color m = .ok sh) :
    ∃ m' : Manifest, Session.repertoire sh.report (some m') = .ok sh.interpreter.commands ∧
      sh.interpreter.settings = settings ∧ sh.interpreter.chooser = Session.chooser asking := by
  obtain ⟨commands, hcommands, hshell⟩ := bind_eq_ok.1 h
  obtain rfl := Except.ok.inj hshell
  cases m with
  | none => exact ⟨⟨[]⟩, (Session.repertoire_none _).symm.trans hcommands, rfl, rfl⟩
  | some m => exact ⟨m, hcommands, rfl, rfl⟩

theorem confined_of_ofManifest (h : ofManifest settings asking format color m = .ok sh) :
    sh.Confined := by
  obtain ⟨m', hcommands, -, hchooser⟩ := exists_of_ofManifest h
  obtain ⟨declared, -, hlist⟩ := Session.list_of_repertoire hcommands
  refine ⟨fun command hcommand => ?_, fun choices st => ?_⟩
  · rw [hlist, List.mem_append, List.mem_map] at hcommand
    rcases hcommand with hown | ⟨t, -, rfl⟩
    · exact Session.modest_of_mem_ownCommands hown
    · exact Session.modest_echo _
  · rw [hchooser]
    exact Session.run_chooser_snd asking choices st

end Shell

end Abbrev

import Abbrev.Proofs.Session.Requesting
import Abbrev.Proofs.Session.Steering
import Abbrev.Proofs.Shell.Reading

/-! What is asked of a shell does not outlive the line that asked for it. A line leaves a request
exactly if it calls the command that makes it; the request is taken before another line is run, and
the prompt is closed again however it ends. So between two texts nothing is pending, and lines give
the same whether they are executed together or apart. -/

namespace Abbrev

namespace Transcript

/-- Whether a prompt is open behind some events, if one was open before them. -/
def promptBehind (p : Bool) (t : Transcript) : Bool :=
  t.foldl (fun p e => match e with
    | .opened => true
    | .closed => false
    | .wrote .. | .read _ | .handled _ => p) p

theorem promptBehind_append (p : Bool) (s t : Transcript) :
    promptBehind p (s ++ t) = promptBehind (promptBehind p s) t := List.foldl_append

theorem promptBehind_asking (p : Bool) (text : String) (input : List UInt8) :
    promptBehind p (Session.asking text input) = p := by
  rw [Session.asking]
  split <;> rfl

theorem Follows.promptBehind_eq {p p' : Bool} {input rest : List UInt8} {es : Transcript}
    (h : Follows p input es p' rest) : promptBehind p es = p' := by
  induction h with
  | nil => rfl
  | @output e es _ _ _ _ he _ ih =>
    cases e with
    | wrote channel text => exact ih
    | _ => exact Bool.noConfusion he
  | handled o _ ih => exact ih
  | opened _ ih => exact ih
  | closed _ ih => exact ih
  | command _ ih => rw [promptBehind_append, promptBehind_asking, ih]
  | choice choices _ ih => rw [promptBehind_append, promptBehind_asking, ih]

end Transcript

/-- A session between two texts: no prompt is open, and nothing is pending. -/
structure Session.Idle (st : Session) : Prop where
  closed : st.transcript.promptBehind false = false
  request_eq : st.request = none

namespace Shell

variable {sh : Shell}

/-- Lines behind others are run if these proceed. -/
theorem run_runLines_append (enter : Flow → StateM Session Progress) (xs ys : List String)
    (st : Session) :
    (sh.runLines enter (xs ++ ys)).run st =
      match (sh.runLines enter xs).run st with
      | (.ok .proceed, st') => (sh.runLines enter ys).run st'
      | (stop, st') => (stop, st') := by
  induction xs generalizing st with
  | nil => rfl
  | cons x xs ih =>
    rw [List.cons_append, runLines_cons, runLines_cons, run_bind, run_bind]
    rcases (sh.runLine enter x).run st with ⟨f | _ | _, st'⟩
    · rfl
    · exact ih st'
    · rfl

namespace Phase

/-- The line that is run next, if the next step runs one. -/
def line? : Phase → Option String
  | .running (line :: _) | .prompting (line :: _) _ => some line
  | _ => none

/-- Behind a line that has left no request. -/
def behind (flow : Flow) : Phase → Phase
  | .running (_ :: lines) => .afterLine lines (flow, none)
  | .prompting (_ :: typed) lines => .afterTyped typed lines (flow, none)
  | phase => phase

theorem resume_ne_opening {lines rest : List String} {progress : Progress} :
    Phase.resume lines progress ≠ .opening rest := by
  rcases progress with f | _ | _ <;> rintro ⟨⟩

theorem afterLine_eq_opening {lines : List String} {flow : Flow} {request : Option Request} :
    (∃ rest, Phase.afterLine lines (flow, request) = .opening rest) ↔ request = some .prompt := by
  rcases request with _ | _ | _
  · exact iff_of_false (fun h => resume_ne_opening h.choose_spec) (by decide)
  · exact iff_of_true ⟨lines, rfl⟩ rfl
  · exact iff_of_false (fun h => resume_ne_opening h.choose_spec) (by decide)

theorem afterLine_of_ne_prompt {lines : List String} {flow : Flow} {request : Option Request}
    (h : request ≠ some .prompt) :
    Phase.afterLine lines (flow, request) = .afterLine lines (flow, none) := by
  rcases request with _ | _ | _
  · rfl
  · exact absurd rfl h
  · rfl

theorem afterTyped_eq_none {typed lines : List String} {flow : Flow} {request : Option Request} :
    Phase.afterTyped typed lines (flow, request) = .afterTyped typed lines (flow, none) := by
  rcases flow with _ | _ <;> rfl

theorem afterTyped_ne_opening {typed lines rest : List String} {answer : Flow × Option Request} :
    Phase.afterTyped typed lines answer ≠ .opening rest := by
  rcases answer with ⟨_ | _, request⟩ <;> rintro ⟨⟩

end Phase

/-- Once its question is answered, if there is one, a line calls the command of a path. -/
def Calls (sh : Shell) (line : String) (st : Session) (path : String) : Prop :=
  ∃ m, ((sh.catalog.resolve sh.interpreter.settings sh.interpreter.chooser line).run st).1 =
    .ok (.matched m) ∧ m.template.path = path

/-- What one step makes of a line and of the request that it leaves, which is the one that the
called command makes. The request is taken; one for help is met by one text behind what is told of
the outcome; one for the prompt opens it, unless it is open: then, as without any request, the run
goes on. -/
structure Meets (sh : Shell) (line : String) (c d : State) (o : Outcome) (left : Session) :
    Prop where
  ran : (sh.interpreter.runLine line).run c.session = (o, left)
  calls : ∀ request, left.request = some request ↔ sh.Calls line c.session request.path
  proceeds : left.request ≠ none → o = .dispatched .proceed
  session_eq : d.session = ⟨left.input, left.transcript ++ .handled o :: (sh.told o ++
      if left.request = some .help then [.wrote .result (sh.report.help sh.catalog sh.catalog.ids)]
      else []), none, o.category?.or left.lastFailure⟩
  opens : (∃ lines, d.phase = .opening lines) ↔ c.phase.isOpen = false ∧ left.request = some .prompt
  goesOn : ¬ (c.phase.isOpen = false ∧ left.request = some .prompt) →
    d.phase = c.phase.behind o.flow

theorem helped_eq_ite (sh : Shell) (request : Option Request) :
    sh.helped request = if request = some .help then
      [.wrote .result (sh.report.help sh.catalog sh.catalog.ids)] else [] := by
  rcases request with _ | _ | _ <;> rfl

variable {settings : Settings} {asking : Asking} {format : Format} {color : Bool}
  {m : Option Manifest} {line : String} {c : State}

theorem Calls.unique {st : Session} {path path' : String} (h : sh.Calls line st path)
    (h' : sh.Calls line st path') : path = path' := by
  obtain ⟨n, hn, rfl⟩ := h
  obtain ⟨n', hn', rfl⟩ := h'
  have hsame : Resolution.matched n = .matched n' := Except.ok.inj (hn.symm.trans hn')
  rw [Resolution.matched.inj hsame]

/-- A line that calls a command runs its handler, which makes the request of the command's path. -/
theorem Calls.run_runLine (hmade : ofManifest settings asking format color m = .ok sh)
    {st : Session} (hidle : st.request = none) {path : String} (h : sh.Calls line st path) :
    ((sh.interpreter.runLine line).run st).2.request = Request.ofPath? path ∧
      ((Request.ofPath? path).isSome = true →
        ((sh.interpreter.runLine line).run st).1 = .dispatched .proceed) := by
  obtain ⟨n, hn, rfl⟩ := h
  obtain ⟨m', hcommands, -, -⟩ := exists_of_ofManifest hmade
  obtain ⟨command, hcommand, htemplate, args, -, hdispatch⟩ :=
    Commands.exists_dispatch_eq (Session.built_of_repertoire hcommands) hn
  obtain ⟨hrequest, hproceeds⟩ := Session.makesRequest_of_repertoire hcommands command hcommand
  have hquestion := (confined_of_ofManifest hmade).request_afterQuestion line st
  rw [Interpreter.run_runLine_of_matched _ hn, hdispatch, ← htemplate]
  refine ⟨?_, fun hsome => ?_⟩
  · rw [hrequest, hquestion, hidle, Option.or_none]
  · rw [hproceeds hsome, Outcome.ofDispatch]

theorem Confined.request_of_not_calls (hsh : sh.Confined) {st : Session}
    (h : ∀ path, ¬ sh.Calls line st path) :
    ((sh.interpreter.runLine line).run st).2.request = st.request := by
  rw [Interpreter.run_runLine_snd_of_not_matched _ fun n hn => h _ ⟨n, hn, rfl⟩]
  exact hsh.request_afterQuestion line st

/-- Where nothing is pending, a line leaves the request of the command that it calls. -/
theorem request_of_run_runLine (hmade : ofManifest settings asking format color m = .ok sh)
    {o : Outcome} {st left : Session} (hidle : st.request = none)
    (hran : (sh.interpreter.runLine line).run st = (o, left)) :
    (∀ request, left.request = some request ↔ sh.Calls line st request.path) ∧
      (left.request ≠ none → o = .dispatched .proceed) := by
  by_cases hcalled : ∃ path, sh.Calls line st path
  · obtain ⟨path, hpath⟩ := hcalled
    obtain ⟨hrequest, hproceeds⟩ := hpath.run_runLine hmade hidle
    rw [hran] at hrequest hproceeds
    refine ⟨fun request => ?_, fun hsome => ?_⟩
    · rw [hrequest, Request.ofPath?_eq_some]
      exact ⟨fun h => h ▸ hpath, hpath.unique⟩
    · exact hproceeds (Option.isSome_iff_ne_none.2 (hrequest ▸ hsome))
  · have hnone := (confined_of_ofManifest hmade).request_of_not_calls (not_exists.1 hcalled)
    rw [hran, hidle] at hnone
    refine ⟨fun request => ?_, fun hsome => absurd hnone hsome⟩
    rw [hnone]
    exact iff_of_false (Option.some_ne_none request).symm fun hcalls => hcalled ⟨_, hcalls⟩

theorem exists_meets (hmade : ofManifest settings asking format color m = .ok sh)
    (hidle : c.session.request = none) (h : c.phase.line? = some line) :
    ∃ o left, sh.Meets line c (sh.advance c) o left := by
  rcases hran : (sh.interpreter.runLine line).run c.session with ⟨o, left⟩
  obtain ⟨hcalls, hproceeds⟩ := request_of_run_runLine hmade hidle hran
  have hhandle := run_handle hran
  rw [helped_eq_ite] at hhandle
  refine ⟨o, left, ?_⟩
  rcases c with ⟨(_ | ⟨next, lines⟩) | lines | ⟨_ | ⟨next, typed⟩, lines⟩ | ⟨progress, lines⟩ |
    progress, st⟩
  · cases h
  · obtain rfl : next = line := Option.some.inj h
    have hadvance := @advance_running sh next lines st
    rw [hhandle] at hadvance
    refine ⟨hran, hcalls, hproceeds, congrArg State.session hadvance, ?_, fun hnone => ?_⟩
    · rw [hadvance]
      exact Phase.afterLine_eq_opening.trans (and_iff_right rfl).symm
    · rw [hadvance]
      exact Phase.afterLine_of_ne_prompt fun hrequest => hnone ⟨rfl, hrequest⟩
  · cases h
  · cases h
  · obtain rfl : next = line := Option.some.inj h
    have hadvance := @advance_typed sh next lines typed st
    rw [hhandle] at hadvance
    refine ⟨hran, hcalls, hproceeds, congrArg State.session hadvance, ?_, fun _ => ?_⟩
    · rw [hadvance]
      exact ⟨fun hopening => absurd hopening.choose_spec Phase.afterTyped_ne_opening,
        fun hclosed => Bool.noConfusion hclosed.1⟩
    · rw [hadvance]
      exact Phase.afterTyped_eq_none
  · cases h
  · cases h

/-- What holds at every point of a run: nothing is pending, and the transcript tells whether the
prompt is open. -/
structure Orderly (c : State) : Prop where
  request_eq : c.session.request = none
  promptBehind_eq : c.session.transcript.promptBehind false = c.phase.isOpen

theorem Moves.orderly {c d : State} {es : Transcript} (h : sh.Moves c es d) (hc : Orderly c) :
    Orderly d := by
  refine ⟨h.request_eq.elim id fun hrequest => hrequest.trans hc.request_eq, ?_⟩
  rw [h.transcript_eq, Transcript.promptBehind_append, hc.promptBehind_eq]
  exact h.follows.promptBehind_eq

namespace Confined

theorem orderly_of_reaches (hsh : sh.Confined) {c d : State} (h : sh.Reaches c d)
    (hc : Orderly c) : Orderly d :=
  h.invariant (fun e he => (hsh.moves_advance e).elim fun _ hmoves => hmoves.orderly he) hc

theorem idle_execute (hsh : sh.Confined) {st : Session} (h : st.Idle) (text : String) :
    ((sh.execute text).run st).2.Idle := by
  obtain ⟨hrequest, hclosed⟩ :=
    hsh.orderly_of_reaches (hsh.reaches_execute text st) ⟨h.request_eq, h.closed⟩
  exact ⟨hclosed, hrequest⟩

end Confined

/-- Lines give the same whether they are executed together or apart. The shell of any manifest is
idle behind every text, however that ended, if it was idle before it, as it is at first; and at
every point of the run to that end nothing is pending, and each line leaves the request of the
command that it calls and has it met. -/
theorem execute_together_or_apart :
    (∀ (sh : Shell) (a b : String) (st : Session),
      (sh.execute (a ++ "\n" ++ b)).run st =
        match (sh.execute a).run st with
        | (.ok .proceed, st') => (sh.execute b).run st'
        | (stop, st') => (stop, st')) ∧
    ∀ (settings : Settings) (asking : Asking) (format : Format) (color : Bool)
      (m : Option Manifest) (sh : Shell), ofManifest settings asking format color m = .ok sh →
      (∀ input, Session.Idle { input := input }) ∧
      ∀ (st : Session), st.Idle → ∀ text progress st',
        (sh.execute text).run st = (progress, st') →
        st'.Idle ∧ sh.Reaches ⟨.running (Text.lines text), st⟩ ⟨.stopped progress, st'⟩ ∧
        ∀ c, sh.Reaches ⟨.running (Text.lines text), st⟩ c → Orderly c ∧
          ∀ line, c.phase.line? = some line → ∃ o left, sh.Meets line c (sh.advance c) o left := by
  refine ⟨fun sh a b st => ?_, fun settings asking format color m sh h => ⟨fun input => ⟨rfl, rfl⟩,
    fun st hidle text progress st' hran => ?_⟩⟩
  · have hbreak : "\n" = String.singleton '\n' := by decide
    rw [hbreak, execute, Text.lines_append_cons a b (by decide), run_runLines_append]
    rfl
  · have hsh := confined_of_ofManifest h
    have hstart : Orderly ⟨.running (Text.lines text), st⟩ := ⟨hidle.request_eq, hidle.closed⟩
    refine ⟨?_, hsh.run_execute_eq_iff.1 hran, fun c hc =>
      have horderly := hsh.orderly_of_reaches hc hstart
      ⟨horderly, fun line => exists_meets h horderly.request_eq⟩⟩
    have hidle' := hsh.idle_execute hidle text
    rwa [hran] at hidle'

/-- A session whose user types `help` and `prompt` at the prompt, and no more. -/
def helpSeeker : Session := { input := "help\nprompt\n".toUTF8.data.toList }

/-- The prompt is entered; there help is asked for and written once, and the prompt is asked for
again, which changes nothing; at the end of the input it closes. -/
theorem run_execute_prompt_help :
    ((helpdesk.execute "prompt").run helpSeeker).1 = .ok .proceed ∧
      ((helpdesk.execute "prompt").run helpSeeker).2.transcript =
        [.handled (.dispatched .proceed), .opened, .wrote .question ">",
          .read "help\n".toUTF8.data.toList, .handled (.dispatched .proceed),
          .wrote .result (helpdesk.report.help helpdesk.catalog helpdesk.catalog.ids),
          .wrote .question ">", .read "prompt\n".toUTF8.data.toList,
          .handled (.dispatched .proceed), .wrote .question ">", .read [], .wrote .question "\n",
          .closed] :=
  ⟨by rfl, by rfl⟩

/-- Where its run starts. -/
def prompted : State := ⟨.running ["prompt"], helpSeeker⟩

/-- Each of these lines leaves the request of the command that it calls, and the text goes on behind
the prompt as if it began there. -/
theorem execute_prompt_help_together_or_apart :
    ofManifest {} .never .text false (some .exitAll) = .ok helpdesk ∧ helpSeeker.Idle ∧
      (∃ st, (helpdesk.execute "prompt").run helpSeeker = (.ok .proceed, st) ∧ st.Idle ∧
        (helpdesk.execute ("prompt" ++ "\n" ++ "help")).run helpSeeker =
          (helpdesk.execute "help").run st) ∧
      ∀ x ∈ [(0, "prompt", Request.prompt), (3, "help", .help), (5, "prompt", .prompt)],
        ∃ o left, left.request = some x.2.2 ∧
          helpdesk.Meets x.2.1 (helpdesk.advance^[x.1] prompted)
            (helpdesk.advance (helpdesk.advance^[x.1] prompted)) o left := by
  have hmade := ofManifest_helpdesk
  obtain ⟨hidle, hidles⟩ := execute_together_or_apart.2 {} .never .text false _ _ hmade
  have hran : (helpdesk.execute "prompt").run helpSeeker =
      (.ok .proceed, ((helpdesk.execute "prompt").run helpSeeker).2) :=
    Prod.ext run_execute_prompt_help.1 (Eq.refl _)
  obtain ⟨hbehind, -, hpoints⟩ := hidles helpSeeker (hidle _) "prompt" _ _ hran
  refine ⟨hmade, hidle _, ⟨_, hran, hbehind, ?_⟩, fun x hx => ?_⟩
  · rw [execute_together_or_apart.1, hran]
  · obtain ⟨-, hmeets⟩ := hpoints (helpdesk.advance^[x.1] prompted) ⟨x.1, rfl⟩
    simp only [List.mem_cons, List.not_mem_nil, or_false] at hx
    rcases hx with rfl | rfl | rfl
    · obtain ⟨o, left, h⟩ := hmeets "prompt" (by decide +kernel)
      exact ⟨o, left, (h.calls .prompt).2 ⟨_, rfl, rfl⟩, h⟩
    · obtain ⟨o, left, h⟩ := hmeets "help" (by decide +kernel)
      exact ⟨o, left, (h.calls .help).2 ⟨_, rfl, rfl⟩, h⟩
    · obtain ⟨o, left, h⟩ := hmeets "prompt" (by decide +kernel)
      exact ⟨o, left, (h.calls .prompt).2 ⟨_, rfl, rfl⟩, h⟩

end Shell

end Abbrev

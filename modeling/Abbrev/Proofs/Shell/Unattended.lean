import Abbrev.Proofs.Resolution.Faults
import Abbrev.Proofs.Shell.Reading

/-! What a user can cause where nobody is asked. Handlers of a session do not fail on arguments that
fit their templates, and dispatch hands them no others; so every failing outcome is a fault of the
line that was typed, and the only error that ends a text is a line at the prompt that is no text.
-/

namespace Abbrev

theorem Arguments.Fit.exists_get {a : Arguments} {t : Template} (h : a.Fit t) {p : Param}
    (hp : p ∈ t.params) : ∃ v, a.get p.type.shape p.name = .ok v := by
  obtain ⟨e, -, -, -, hget⟩ := exists_of_forall₂ h.entries hp
  exact ⟨e.2, hget⟩

namespace Session

variable {r : Report} {args : Arguments}

theorem exists_findUser (h : args.Fit .userFind) : ∃ answer, findUser args = .ok answer := by
  obtain ⟨name, hname⟩ := h.exists_get List.mem_cons_self
  obtain ⟨age, hage⟩ := h.exists_get (List.mem_cons_of_mem _ List.mem_cons_self)
  exact ⟨_, bind_eq_ok.2 ⟨name, hname, bind_eq_ok.2 ⟨age, hage, rfl⟩⟩⟩

theorem exists_countProducts (h : args.Fit .productCounts) :
    ∃ answer, countProducts args = .ok answer := by
  obtain ⟨counts, hcounts⟩ := h.exists_get List.mem_cons_self
  obtain ⟨prices, hprices⟩ := h.exists_get (List.mem_cons_of_mem _ List.mem_cons_self)
  exact ⟨_, bind_eq_ok.2 ⟨counts, hcounts, bind_eq_ok.2 ⟨prices, hprices, rfl⟩⟩⟩

theorem exists_answering {answer : Arguments → Except Fault (String × Json)}
    (h : ∃ x, answer args = .ok x) (st : Session) :
    ∃ flow, ((answering r answer args).run st).1 = .ok flow := by
  obtain ⟨x, hx⟩ := h
  rw [answering, hx]
  exact ⟨.proceed, rfl⟩

/-- A command whose handler does not fail on arguments that fit its template. -/
def Reliable (command : Command Session) : Prop :=
  ∀ args : Arguments, args.Fit command.template →
    ∀ st, ∃ flow, ((command.handler args).run st).1 = .ok flow

theorem reliable_of_mem_ownCommands {command : Command Session} (h : command ∈ ownCommands r) :
    Reliable command := by
  simp only [ownCommands, List.mem_cons, List.not_mem_nil, or_false] at h
  rcases h with rfl | rfl | rfl | rfl | rfl
  · exact fun _ _ _ => ⟨.proceed, rfl⟩
  · exact fun _ _ _ => ⟨.exit, rfl⟩
  · exact fun _ _ _ => ⟨.proceed, rfl⟩
  · exact fun _ hfit => exists_answering (exists_findUser hfit)
  · exact fun _ hfit => exists_answering (exists_countProducts hfit)

theorem reliable_of_repertoire {m : Manifest} {c : Commands Session}
    (h : repertoire r (some m) = .ok c) : ∀ command ∈ c.list, Reliable command := by
  obtain ⟨declared, -, hlist⟩ := list_of_repertoire h
  intro command hcommand
  rw [hlist, List.mem_append, List.mem_map] at hcommand
  rcases hcommand with hown | ⟨t, -, rfl⟩
  · exact reliable_of_mem_ownCommands hown
  · exact fun _ _ _ => ⟨.proceed, rfl⟩

end Session

/-- An outcome that is no failure, or only one of the line that was typed. -/
def Outcome.Ordinary : Outcome → Prop
  | .failed f => f.OfLine
  | .handlerFailed _ => False
  | .dispatched _ | .help _ | .cancelled => True

theorem Outcome.Ordinary.category {o : Outcome} (h : o.Ordinary) {c : Category}
    (hc : o.category? = some c) : c = .usage ∨ c = .notFound ∨ c = .ambiguous := by
  cases o with
  | failed f => exact Option.some.inj hc ▸ Fault.OfLine.category h
  | handlerFailed e => exact h.elim
  | _ => cases hc

namespace Interpreter

/-- Where nobody is asked and every handler is reliable, one line has an ordinary outcome. -/
theorem ordinary_runLine {i : Interpreter Session}
    (hbuilt : ∀ t ∈ i.commands.catalog.templates, t.Built)
    (hreliable : ∀ command ∈ i.commands.list, Session.Reliable command)
    (hchooser : i.chooser = Chooser.refuse) {line : String}
    (hsingle : (Text.lines line).length ≤ 1) (st : Session) :
    ((i.runLine line).run st).1.Ordinary := by
  cases hresolved : ((i.commands.catalog.resolve i.settings i.chooser line).run st).1 with
  | error f =>
    have hf : f.OfLine := by
      rw [hchooser] at hresolved
      exact Catalog.failsOnly_resolve_refuse hsingle st f hresolved
    rw [runLine, run_bind, hresolved]
    exact hf
  | ok resolution =>
    cases resolution with
    | matched m =>
      obtain ⟨command, hcommand, -, args, hfit, hdispatch⟩ :=
        Commands.exists_dispatch_eq hbuilt hresolved
      obtain ⟨flow, hflow⟩ := hreliable command hcommand args hfit (i.afterQuestion line st)
      rw [run_runLine_of_matched i hresolved, hdispatch, hflow]
      exact trivial
    | help ids =>
      rw [runLine, run_bind, hresolved]
      exact trivial
    | cancelled =>
      rw [runLine, run_bind, hresolved]
      exact trivial

end Interpreter

namespace Shell

variable {sh : Shell}

/-- The lines that are still to be run. -/
def Phase.lines : Phase → List String
  | .running lines | .opening lines | .closing _ lines => lines
  | .prompting typed lines => typed ++ lines
  | .stopped _ => []

namespace Phase

variable {line : String} {lines typed : List String}

theorem mem_lines_resume {progress : Progress}
    (h : line ∈ (Phase.resume lines progress).lines) : line ∈ lines := by
  obtain f | _ | _ := progress
  · exact absurd h List.not_mem_nil
  · exact h
  · exact absurd h List.not_mem_nil

theorem mem_lines_afterLine {answer : Flow × Option Request}
    (h : line ∈ (Phase.afterLine lines answer).lines) : line ∈ lines := by
  obtain ⟨flow, _ | _ | _⟩ := answer
  · exact mem_lines_resume h
  · exact h
  · exact mem_lines_resume h

theorem mem_lines_afterTyped {answer : Flow × Option Request}
    (h : line ∈ (Phase.afterTyped typed lines answer).lines) : line ∈ typed ++ lines := by
  obtain ⟨_ | _, request⟩ := answer
  · exact h
  · exact List.mem_append_right typed h

theorem mem_lines_afterReading {answer : Except String (Option String)}
    (h : line ∈ (Phase.afterReading lines answer).lines) :
    line ∈ lines ∨ Text.lines line = [line] := by
  obtain reason | _ | text := answer
  · exact .inl h
  · exact .inl h
  · exact (List.mem_append.1 h).symm.imp_right Text.lines_of_mem_lines

end Phase

/-- A line that is added is one line. -/
theorem Moves.mem_lines {c d : State} {es : Transcript} (h : sh.Moves c es d) {line : String}
    (hline : line ∈ d.phase.lines) : line ∈ c.phase.lines ∨ Text.lines line = [line] := by
  cases h with
  | line lines h => exact .inl (List.mem_cons_of_mem _ (Phase.mem_lines_afterLine hline))
  | readCommand lines st => exact Phase.mem_lines_afterReading hline
  | typed typed lines h => exact .inl (List.mem_cons_of_mem _ (Phase.mem_lines_afterTyped hline))
  | closePrompt progress lines st => exact .inl (Phase.mem_lines_resume hline)
  | _ => exact .inl hline

/-- Every outcome is that of a line. -/
theorem Moves.mem_outcomes {c d : State} {es : Transcript} (h : sh.Moves c es d) {o : Outcome}
    (ho : o ∈ es.outcomes) :
    ∃ line ∈ c.phase.lines, ∃ st, ((sh.interpreter.runLine line).run st).1 = o := by
  cases h with
  | line lines h =>
    rw [h.events.outcomes_eq, List.mem_singleton] at ho
    exact ⟨_, List.mem_cons_self, _, ho ▸ h.outcome⟩
  | typed typed lines h =>
    rw [h.events.outcomes_eq, List.mem_singleton] at ho
    exact ⟨_, List.mem_cons_self, _, ho ▸ h.outcome⟩
  | readCommand lines st =>
    rw [Transcript.outcomes_asking] at ho
    exact absurd ho List.not_mem_nil
  | _ => exact absurd ho List.not_mem_nil

/-- What can be said of the outcome of every single line holds of all outcomes of a run. -/
theorem Runs.outcomes_of_lines {P : Outcome → Prop} (hP : ∀ line, Text.lines line = [line] → ∀ st,
      P ((sh.interpreter.runLine line).run st).1) {c d : State} {es : Transcript}
    (h : sh.Runs c es d) (hc : ∀ line ∈ c.phase.lines, Text.lines line = [line]) :
    (∀ line ∈ d.phase.lines, Text.lines line = [line]) ∧ ∀ o ∈ es.outcomes, P o := by
  induction h with
  | refl => exact ⟨hc, fun o ho => absurd ho List.not_mem_nil⟩
  | step _ hmoves ih =>
    obtain ⟨hlines, houtcomes⟩ := ih
    refine ⟨fun line hline => (hmoves.mem_lines hline).elim (hlines line) id, fun o ho => ?_⟩
    rw [Transcript.outcomes_append, List.mem_append] at ho
    rcases ho with ho | ho
    · exact houtcomes o ho
    · obtain ⟨line, hline, st, rfl⟩ := hmoves.mem_outcomes ho
      exact hP line (hlines line hline) st

variable {settings : Settings} {format : Format} {color : Bool} {m : Option Manifest}

theorem ordinary_runLine_of_ofManifest
    (h : ofManifest settings .never format color m = .ok sh) {line : String}
    (hline : Text.lines line = [line]) (st : Session) :
    ((sh.interpreter.runLine line).run st).1.Ordinary := by
  obtain ⟨m', hcommands, -, hchooser⟩ := exists_of_ofManifest h
  have hsingle : (Text.lines line).length ≤ 1 := by rw [hline, List.length_singleton]
  exact Interpreter.ordinary_runLine (Session.built_of_repertoire hcommands)
    (Session.reliable_of_repertoire hcommands) hchooser hsingle st

theorem ordinary_of_reaches (h : ofManifest settings .never format color m = .ok sh)
    {text : String} {st : Session} (hst : ∀ o ∈ st.transcript.outcomes, o.Ordinary) {c : State}
    (hc : sh.Reaches ⟨.running (Text.lines text), st⟩ c) :
    ∀ o ∈ c.session.transcript.outcomes, o.Ordinary := by
  obtain ⟨es, hruns⟩ := (confined_of_ofManifest h).exists_runs hc
  have hes := (hruns.outcomes_of_lines (fun _ => ordinary_runLine_of_ofManifest h)
    fun _ => Text.lines_of_mem_lines).2
  intro o ho
  rw [hruns.transcript_eq, Transcript.outcomes_append, List.mem_append] at ho
  exact ho.elim (hst o) (hes o)

theorem ordinary_after (h : ofManifest settings .never format color m = .ok sh)
    (input : List UInt8) (texts : List String) :
    ∀ o ∈ (sh.after texts { input := input }).transcript.outcomes, o.Ordinary := by
  have hexecute : ∀ text st, (∀ o ∈ st.transcript.outcomes, o.Ordinary) →
      ∀ o ∈ ((sh.execute text).run st).2.transcript.outcomes, o.Ordinary := fun text st hst =>
    ordinary_of_reaches h hst ((confined_of_ofManifest h).reaches_execute text st)
  exact after_keeps hexecute texts fun _ ho => absurd ho List.not_mem_nil

/-- Where nobody is asked, whatever texts are executed on whatever input, at every point of the run
what has failed is a line that was typed: it is remembered as wrong usage, as not found or as
ambiguous. A text ends in an error only if a line at the prompt is no text. -/
theorem unattended_failures_are_typed (settings : Settings) (format : Format) (color : Bool)
    (m : Option Manifest) (sh : Shell)
    (h : ofManifest settings .never format color m = .ok sh) (input : List UInt8)
    (texts : List String) (text : String) :
    let st := sh.after texts { input := input }
    (∀ c, sh.Reaches ⟨.running (Text.lines text), st⟩ c →
      (∀ category, c.session.lastFailure = some category →
        category = .usage ∨ category = .notFound ∨ category = .ambiguous) ∧
      ∀ o ∈ c.session.transcript.outcomes, o.Ordinary) ∧
    sh.Reaches ⟨.running (Text.lines text), st⟩
      ⟨.stopped ((sh.execute text).run st).1, ((sh.execute text).run st).2⟩ ∧
    ∀ f, ((sh.execute text).run st).1 = .error f → ∃ es : Transcript,
      ((sh.execute text).run st).2.transcript = st.transcript ++ es ∧
        EndsUnreadable f es [.closed] := by
  have hsh := confined_of_ofManifest h
  refine ⟨fun c hc => ?_, hsh.reaches_execute text _, fun f hf => ?_⟩
  · have hordinary := ordinary_of_reaches h (ordinary_after h input texts) hc
    refine ⟨fun category hcategory => ?_, hordinary⟩
    rw [hsh.remembersLast_of_reaches hc (hsh.remembersLast_after input texts)] at hcategory
    obtain ⟨o, ho, hfailed⟩ := List.mem_filterMap.1 (List.mem_of_getLast? hcategory)
    exact (hordinary o ho).category hfailed
  · obtain ⟨es, hruns⟩ := hsh.exists_runs_execute text (sh.after texts { input := input })
    have hexplains := hruns.explains trivial
    rw [hf] at hexplains
    exact ⟨es, hruns.transcript_eq, hexplains⟩

/-- A line with no number for an age, and one that is no text. -/
def garbled : List UInt8 := "user find Bob old\n".toUTF8.data.toList ++ [255]

/-- Behind a manifest's command and an unknown word, these lines are typed at the prompt. -/
theorem unattended_prompt_is_typed :
    ∃ st ran, helpdesk.after ["helpdesk billing", "nowhere"] { input := garbled } = st ∧
      (helpdesk.execute "prompt").run st = ran ∧
      ofManifest {} .never .text false (some .exitAll) = .ok helpdesk ∧
      st.lastFailure = some .notFound ∧ ran.2.lastFailure = some .usage ∧
      (∀ o ∈ ran.2.transcript.outcomes, o.Ordinary) ∧
      ran.1 = .error (.ofText notText) ∧ ∃ es : Transcript,
        ran.2.transcript = st.transcript ++ es ∧ EndsUnreadable (.ofText notText) es [.closed] := by
  have hfirst : (helpdesk.after ["helpdesk billing", "nowhere"] { input := garbled }).lastFailure =
      some .notFound := by decide +kernel
  have hsecond : ((helpdesk.execute "prompt").run
      (helpdesk.after ["helpdesk billing", "nowhere"] { input := garbled })).2.lastFailure =
        some .usage := by decide +kernel
  have hfailed : ((helpdesk.execute "prompt").run
      (helpdesk.after ["helpdesk billing", "nowhere"] { input := garbled })).1.toOption = none := by
    decide +kernel
  have hmade := ofManifest_helpdesk
  obtain ⟨hpoints, hreaches, herror⟩ := unattended_failures_are_typed {} .text false _ _ hmade
    garbled ["helpdesk billing", "nowhere"] "prompt"
  generalize helpdesk.after ["helpdesk billing", "nowhere"] { input := garbled } = st at *
  generalize hran : (helpdesk.execute "prompt").run st = ran at *
  obtain ⟨f, hf⟩ := toOption_eq_none.1 hfailed
  obtain ⟨es, htranscript, hends⟩ := herror f hf
  obtain rfl := hends.1
  exact ⟨st, ran, rfl, hran, hmade, hfirst, hsecond, (hpoints _ hreaches).2, hf, es, htranscript,
    hends⟩

end Shell

end Abbrev

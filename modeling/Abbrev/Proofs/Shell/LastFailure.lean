import Mathlib
import Abbrev.Program
import Abbrev.Proofs.Session.Steering
import Abbrev.Proofs.Shell.Runs

/-! The failure that a session remembers is the last one in its transcript, wherever it happened:
in a line of a text or in one that was typed at a prompt. What succeeds neither sets nor resets it.
The code of a run that comes to its end tells of that failure, and is zero if there was none. -/

namespace Abbrev

namespace Outcome

theorem category?_eq_none {o : Outcome} : o.category? = none ↔ o.isFailure = false := by
  cases o <;> simp [category?, isFailure]

end Outcome

namespace Transcript

theorem outcomes_append (s t : Transcript) : (s ++ t).outcomes = s.outcomes ++ t.outcomes := by
  induction s with
  | nil => rfl
  | cons e s ih => cases e <;> simp [outcomes, ih]

theorem outcomes_of_isOutput {t : Transcript} (h : t.all Event.isOutput = true) :
    t.outcomes = [] := by
  induction t with
  | nil => rfl
  | cons e t ih =>
    rw [List.all_cons, Bool.and_eq_true] at h
    cases e with
    | wrote channel text => exact ih h.2
    | handled o => exact absurd h.1 Bool.false_ne_true
    | read line => exact ih h.2
    | opened => exact ih h.2
    | closed => exact ih h.2

theorem outcomes_asking (text : String) (input : List UInt8) :
    outcomes (Session.asking text input) = [] := by
  rw [Session.asking]
  split <;> rfl

/-- The category of the last failing outcome. -/
def lastFailure (t : Transcript) : Option Category :=
  (t.outcomes.filterMap Outcome.category?).getLast?

theorem lastFailure_eq (t : Transcript) :
    t.lastFailure = ((t.outcomes.map Outcome.category?).filterMap id).getLast? := by
  rw [lastFailure, List.filterMap_map]
  rfl

theorem lastFailure_append (s t : Transcript) :
    (s ++ t).lastFailure = t.lastFailure.or s.lastFailure := by
  rw [lastFailure, outcomes_append, List.filterMap_append, List.getLast?_append]
  rfl

theorem lastFailure_of_outcomes_eq_nil {t : Transcript} (h : t.outcomes = []) :
    t.lastFailure = none := by
  rw [lastFailure, h]
  rfl

theorem OfLine.outcomes_eq {o : Outcome} {input rest : List UInt8} {es : Transcript}
    (h : OfLine o input es rest) : es.outcomes = [o] := by
  have hline : ∀ {before after : Transcript}, before.all Event.isOutput = true →
      after.all Event.isOutput = true → outcomes (before ++ .handled o :: after) = [o] :=
    fun hbefore hafter => by
      rw [outcomes_append, outcomes_of_isOutput hbefore, outcomes, outcomes_of_isOutput hafter]
      rfl
  cases h with
  | unasked hbefore hafter => exact hline hbefore hafter
  | asked choices hbefore hafter =>
    rw [outcomes_append, outcomes_asking, hline hbefore hafter, List.nil_append]

theorem OfLine.lastFailure_eq {o : Outcome} {input rest : List UInt8} {es : Transcript}
    (h : OfLine o input es rest) : es.lastFailure = o.category? := by
  rw [lastFailure, h.outcomes_eq]
  cases hcategory : o.category? <;> simp [hcategory]

theorem lastFailure_eq_none {t : Transcript} :
    t.lastFailure = none ↔ ∀ o ∈ t.outcomes, o.isFailure = false := by
  rw [lastFailure, List.getLast?_eq_none_iff, List.filterMap_eq_nil_iff]
  simp only [Outcome.category?_eq_none]

end Transcript

/-- What is remembered is what the transcript tells. -/
def Session.RemembersLast (st : Session) : Prop := st.lastFailure = st.transcript.lastFailure

namespace CommandLine

variable {c : CommandLine} {w : Surroundings} {terminal : Bool} {sh : Shell}

theorem exists_ofManifest_of_shell {color : Bool} (h : c.shell w color = .ok sh) :
    ∃ settings m, Shell.ofManifest settings c.asking c.format color m = .ok sh := by
  obtain ⟨settings, -, hrest⟩ := bind_eq_ok.1 (mapError_eq_ok.1 h)
  obtain ⟨m, -, hmade⟩ := bind_eq_ok.1 hrest
  exact ⟨settings, m, mapError_eq_ok.1 hmade⟩

/-- A run of which no text ended in an error. -/
theorem run_of_proceeds (h : c.shell w (c.colored terminal) = .ok sh) {flow : Flow}
    {st : Session} (hran : (sh.executeAll (c.texts sh.interpreter.settings)).run
      { input := w.input } = (.ok flow, st)) :
    c.run w terminal = ⟨(st.lastFailure.map Category.exitCode).getD 0, st.transcript⟩ := by
  simp only [run, h, hran]

end CommandLine

theorem Category.exitCode_ne_zero (c : Category) : c.exitCode ≠ 0 := by
  cases c <;> decide

namespace Shell

variable {sh : Shell}

/-- A step that handles a line with a failing outcome sets what is remembered, and no other step
does. -/
theorem Moves.lastFailure_eq {c d : State} {es : Transcript} (h : sh.Moves c es d) :
    d.session.lastFailure = es.lastFailure.or c.session.lastFailure := by
  cases h with
  | finish st => rfl
  | line lines h => rw [h.lastFailure_eq, h.events.lastFailure_eq]
  | openPrompt lines st => rfl
  | readCommand lines st =>
    rw [Transcript.lastFailure_of_outcomes_eq_nil (Transcript.outcomes_asking _ _)]
    rfl
  | typed typed lines h => rw [h.lastFailure_eq, h.events.lastFailure_eq]
  | closePrompt progress lines st => rfl
  | stay progress st => rfl

theorem Runs.lastFailure_eq {c d : State} {es : Transcript} (h : sh.Runs c es d) :
    d.session.lastFailure = es.lastFailure.or c.session.lastFailure := by
  induction h with
  | refl => rfl
  | step _ hmoves ih =>
    rw [hmoves.lastFailure_eq, ih, Transcript.lastFailure_append, Option.or_assoc]

namespace Confined

theorem remembersLast_of_reaches (hsh : sh.Confined) {c d : State} (h : sh.Reaches c d)
    (hc : c.session.RemembersLast) : d.session.RemembersLast := by
  obtain ⟨es, hruns⟩ := hsh.exists_runs h
  rw [Session.RemembersLast, hruns.lastFailure_eq, hruns.transcript_eq,
    Transcript.lastFailure_append, hc]

theorem remembersLast_after (hsh : sh.Confined) (input : List UInt8) (texts : List String) :
    (sh.after texts { input := input }).RemembersLast := by
  have hexecute : ∀ text st, Session.RemembersLast st →
      ((sh.execute text).run st).2.RemembersLast := fun text st =>
    hsh.remembersLast_of_reaches (hsh.reaches_execute text st)
  exact after_keeps hexecute texts rfl

end Confined

/-- The failure remembered behind any texts is the last of all that the transcript tells, and there
is none only if no line failed; this is so at every point of a run. A program that comes to its end
has that failure's code. -/
theorem lastFailure_tells :
    (∀ (settings : Settings) (asking : Asking) (format : Format) (color : Bool)
      (m : Option Manifest) (sh : Shell), ofManifest settings asking format color m = .ok sh →
      ∀ (input : List UInt8) (texts : List String),
        let st := sh.after texts { input := input }
        st.lastFailure = st.transcript.lastFailure ∧
          (st.lastFailure = none ↔ ∀ o ∈ st.transcript.outcomes, o.isFailure = false) ∧
          ∀ text c, sh.Reaches ⟨.running (Text.lines text), st⟩ c →
            c.session.lastFailure = c.session.transcript.lastFailure) ∧
    ∀ (c : CommandLine) (w : Surroundings) (terminal : Bool) (sh : Shell),
      c.shell w (c.colored terminal) = .ok sh → ∀ flow,
      ((sh.executeAll (c.texts sh.interpreter.settings)).run { input := w.input }).1 = .ok flow →
        let run := c.run w terminal
        run.code = (run.transcript.lastFailure.map Category.exitCode).getD 0 ∧
          (run.code = 0 ↔ ∀ o ∈ run.transcript.outcomes, o.isFailure = false) := by
  refine ⟨fun settings asking format color m sh h input texts => ?_,
    fun c w terminal sh h flow hflow => ?_⟩
  · have hsh := confined_of_ofManifest h
    have hlast := hsh.remembersLast_after input texts
    exact ⟨hlast, hlast ▸ Transcript.lastFailure_eq_none, fun text c hc =>
      hsh.remembersLast_of_reaches hc hlast⟩
  · -- The program executes the first of its texts, so its session is one of those above.
    obtain ⟨n, hn⟩ := sh.exists_take_executeAll (c.texts sh.interpreter.settings)
      { input := w.input }
    obtain ⟨settings, m, hmade⟩ := CommandLine.exists_ofManifest_of_shell h
    have hlast := (confined_of_ofManifest hmade).remembersLast_after w.input
      ((c.texts sh.interpreter.settings).take n)
    rw [← hn] at hlast
    rcases hran : (sh.executeAll (c.texts sh.interpreter.settings)).run { input := w.input }
      with ⟨progress, st⟩
    rw [hran] at hlast hflow
    obtain rfl : progress = .ok flow := hflow
    rw [CommandLine.run_of_proceeds h hran]
    refine ⟨congrArg (fun f => (f.map Category.exitCode).getD 0) hlast, ?_⟩
    rw [← Transcript.lastFailure_eq_none, ← hlast]
    cases st.lastFailure with
    | none => simp
    | some category => simp [category.exitCode_ne_zero]

end Shell

/-- The manifest of the helpdesk as it is written in a file. -/
def Manifest.exitAllText : String :=
  "[[command]]\npath=\"exit all\"\n" ++
    "[[command]]\npath=\"helpdesk \x7btopic\x7d\"\nparam=[[\"topic\"]]"

theorem Manifest.parse_exitAllText : Manifest.parse exitAllText = .ok .exitAll := by cbv

namespace CommandLine

/-- One line calls a command of the manifest, the next is unknown, and the last opens the prompt. -/
def helpdesk : CommandLine :=
  ⟨["helpdesk billing", "nowhere", "prompt"], [.unattended], [(.manifest, "commands.toml")]⟩

/-- At the prompt the first line has no number for an age. -/
def atHelpdesk : Surroundings where
  file _ := .bytes Manifest.exitAllText.toUTF8.data.toList
  input := "user find Bob old\nhelp\n".toUTF8.data.toList

theorem shell_helpdesk :
    helpdesk.shell atHelpdesk (helpdesk.colored false) = .ok Shell.helpdesk := by
  have hload : helpdesk.loadManifest atHelpdesk = .ok (some .exitAll) := by
    have hmanifest : helpdesk.manifest? = some "commands.toml" := rfl
    simp only [loadManifest, hmanifest, atHelpdesk, Manifest.load_toUTF8,
      Manifest.parse_exitAllText]
  exact mapError_eq_ok.2 (bind_eq_ok.2 ⟨{}, rfl, bind_eq_ok.2 ⟨_, hload,
    mapError_eq_ok.2 Shell.ofManifest_helpdesk⟩⟩)

end CommandLine

namespace Shell

/-- Two lines of this run fail, and the last of them was typed at the prompt. -/
theorem lastFailure_tells_of_typed_line :
    let c : CommandLine := .helpdesk
    let w : Surroundings := CommandLine.atHelpdesk
    let behindTwo := helpdesk.after ["helpdesk billing", "nowhere"] { input := w.input }
    ofManifest {} .never .text false (some .exitAll) = .ok helpdesk ∧
      behindTwo.lastFailure = some .notFound ∧
      behindTwo.transcript.lastFailure = some .notFound ∧
      c.shell w (c.colored false) = .ok helpdesk ∧
      ((helpdesk.executeAll (c.texts {})).run { input := w.input }).1 = .ok .proceed ∧
      (c.run w false).transcript.outcomes.map Outcome.category? =
        [none, some .notFound, none, some .usage, none] ∧
      (c.run w false).code = Category.usage.exitCode := by
  intro c w behindTwo
  have hmade := ofManifest_helpdesk
  have hshell : c.shell w (c.colored false) = .ok helpdesk := CommandLine.shell_helpdesk
  have hflow : ((helpdesk.executeAll (c.texts {})).run { input := w.input }).1 = .ok .proceed :=
    toOption_eq_some.1 (by decide +kernel)
  have houtcomes : ((helpdesk.executeAll (c.texts {})).run
      { input := w.input }).2.transcript.outcomes.map Outcome.category? =
        [none, some .notFound, none, some .usage, none] := by decide +kernel
  have hlast : behindTwo.lastFailure = some .notFound := by decide +kernel
  obtain ⟨hremembered, hcode⟩ := lastFailure_tells
  have htold := (hremembered {} .never .text false _ _ hmade w.input
    ["helpdesk billing", "nowhere"]).1
  have htells := (hcode c w false _ hshell _ hflow).1
  refine ⟨hmade, hlast, htold.symm.trans hlast, hshell, hflow, ?_⟩
  rcases hran : (helpdesk.executeAll (c.texts {})).run { input := w.input } with ⟨progress, st⟩
  rw [hran] at hflow houtcomes
  obtain rfl : progress = .ok .proceed := hflow
  rw [CommandLine.run_of_proceeds hshell hran] at htells ⊢
  refine ⟨houtcomes, htells.trans ?_⟩
  rw [Transcript.lastFailure_eq, houtcomes]
  rfl

end Shell

end Abbrev

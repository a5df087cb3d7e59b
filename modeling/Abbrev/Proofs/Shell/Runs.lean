import Abbrev.Proofs.Shell.Steps

/-! The steps of a shell with the events that each appends to the transcript. A run is a sequence of
steps with the events of all of them; every run of the machine is one, so that what holds of the
events of each step is carried over to whole runs. -/

namespace Abbrev

namespace Shell

variable {sh : Shell}

/-- What one step can do: one case for each place where a run may stand. -/
inductive Moves (sh : Shell) : State → Transcript → State → Prop
  | finish (st : Session) : Moves sh ⟨.running [], st⟩ [] ⟨.stopped (.ok .proceed), st⟩
  | line {line : String} {o : Outcome} {request : Option Request} {es : Transcript}
      {st st' : Session} (lines : List String) (h : sh.Handles line st o request es st') :
    Moves sh ⟨.running (line :: lines), st⟩ es ⟨.afterLine lines (o.flow, request), st'⟩
  | openPrompt (lines : List String) (st : Session) :
    Moves sh ⟨.opening lines, st⟩ [.opened] ⟨.prompting [] lines, st.record .opened⟩
  | readCommand (lines : List String) (st : Session) :
    Moves sh ⟨.prompting [] lines, st⟩ (Session.asking ">" st.input)
      ⟨.afterReading lines (Session.lineAnswer (some ∘ Session.typed) st.input), st.asked ">"⟩
  | typed {line : String} {o : Outcome} {request : Option Request} {es : Transcript}
      {st st' : Session} (typed lines : List String) (h : sh.Handles line st o request es st') :
    Moves sh ⟨.prompting (line :: typed) lines, st⟩ es
      ⟨.afterTyped typed lines (o.flow, request), st'⟩
  | closePrompt (progress : Progress) (lines : List String) (st : Session) :
    Moves sh ⟨.closing progress lines, st⟩ [.closed]
      ⟨.resume lines progress, st.record .closed⟩
  | stay (progress : Progress) (st : Session) :
    Moves sh ⟨.stopped progress, st⟩ [] ⟨.stopped progress, st⟩

/-- Some steps, with the events of all of them. -/
inductive Runs (sh : Shell) (c : State) : Transcript → State → Prop
  | refl : Runs sh c [] c
  | step {es es' : Transcript} {d e : State} (h : Runs sh c es d) (hmoves : sh.Moves d es' e) :
    Runs sh c (es ++ es') e

section Events

variable {c d : State} {es : Transcript}

theorem Moves.transcript_eq (h : sh.Moves c es d) :
    d.session.transcript = c.session.transcript ++ es := by
  cases h with
  | finish st => exact (List.append_nil _).symm
  | line lines h => exact h.transcript_eq
  | openPrompt lines st => rfl
  | readCommand lines st => rfl
  | typed typed lines h => exact h.transcript_eq
  | closePrompt progress lines st => rfl
  | stay progress st => exact (List.append_nil _).symm

theorem Runs.transcript_eq (h : sh.Runs c es d) :
    d.session.transcript = c.session.transcript ++ es := by
  induction h with
  | refl => exact (List.append_nil _).symm
  | step _ hmoves ih => rw [hmoves.transcript_eq, ih, List.append_assoc]

end Events

namespace Confined

variable {c d : State}

theorem moves_advance (hsh : sh.Confined) (c : State) : ∃ es, sh.Moves c es (sh.advance c) := by
  rcases c with ⟨(_ | ⟨line, lines⟩) | lines | ⟨_ | ⟨line, typed⟩, lines⟩ | ⟨progress, lines⟩ |
    progress, st⟩
  · exact ⟨_, .finish st⟩
  · obtain ⟨o, request, es, st', hran, hhandles⟩ := hsh.exists_handles line st
    rw [advance_running, hran]
    exact ⟨es, .line lines hhandles⟩
  · exact ⟨_, .openPrompt lines st⟩
  · rw [advance_prompting]
    exact ⟨_, .readCommand lines st⟩
  · obtain ⟨o, request, es, st', hran, hhandles⟩ := hsh.exists_handles line st
    rw [advance_typed, hran]
    exact ⟨es, .typed typed lines hhandles⟩
  · exact ⟨_, .closePrompt progress lines st⟩
  · exact ⟨_, .stay progress st⟩

theorem exists_runs (hsh : sh.Confined) (h : sh.Reaches c d) : ∃ es, sh.Runs c es d := by
  have hstep : ∀ e, (∃ es, sh.Runs c es e) → ∃ es, sh.Runs c es (sh.advance e) := by
    rintro e ⟨es, hruns⟩
    obtain ⟨es', hmoves⟩ := hsh.moves_advance e
    exact ⟨es ++ es', hruns.step hmoves⟩
  exact h.invariant hstep ⟨[], .refl⟩

/-- Executing a text is a run that starts with its lines and stops. -/
theorem exists_runs_execute (hsh : sh.Confined) (text : String) (st : Session) :
    ∃ es, sh.Runs ⟨.running (Text.lines text), st⟩ es
      ⟨.stopped ((sh.execute text).run st).1, ((sh.execute text).run st).2⟩ :=
  hsh.exists_runs (hsh.reaches_execute text st)

end Confined

end Shell

end Abbrev

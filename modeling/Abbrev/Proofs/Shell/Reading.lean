import Abbrev.Proofs.Shell.LastFailure

/-! How a shell reads its input. Executing a text stops, whatever the input. Each question, for a
command or for a number, is answered by exactly the next line, so the lines that are read are the
first ones of the input, in order and each only once; at most one prompt is open at a time, and
nothing is read once a line has exited. An error comes only of a line at the prompt that is no
text. -/

namespace Abbrev

namespace Event

def isExit : Event → Bool
  | .handled o => o.isExit
  | .wrote .. | .read _ | .opened | .closed => false

def isRead : Event → Bool
  | .read _ => true
  | .wrote .. | .handled _ | .opened | .closed => false

/-- The line that was read. At the end of the input there was none. -/
def line? : Event → Option (List UInt8)
  | .read line => if line = [] then none else some line
  | .wrote .. | .handled _ | .opened | .closed => none

theorem isRead_of_isOutput {e : Event} (h : e.isOutput = true) : e.isRead = false := by
  cases e with
  | read line => exact Bool.noConfusion h
  | _ => rfl

theorem isExit_of_isOutput {e : Event} (h : e.isOutput = true) : e.isExit = false := by
  cases e with
  | handled o => exact Bool.noConfusion h
  | _ => rfl

theorem isExit_of_mem_asking {e : Event} {text : String} {input : List UInt8}
    (h : e ∈ Session.asking text input) : e.isExit = false := by
  rw [Session.asking] at h
  rcases List.mem_cons.1 h with rfl | h
  · rfl
  · rcases List.mem_cons.1 h with rfl | h
    · rfl
    · split at h
      · rw [List.mem_singleton.1 h]
        rfl
      · exact absurd h List.not_mem_nil

end Event

namespace Session

end Session

namespace Transcript

/-- Events in which questions are answered by the lines of an input. Between the first flag and the
input before the events, and those behind them: the flag tells whether a prompt is open, and only
then a command is asked for. -/
inductive Follows : Bool → List UInt8 → Transcript → Bool → List UInt8 → Prop
  | nil (prompting : Bool) (input : List UInt8) : Follows prompting input [] prompting input
  | output {e : Event} {es : Transcript} {p p' : Bool} {input rest : List UInt8}
      (he : e.isOutput = true) (h : Follows p input es p' rest) : Follows p input (e :: es) p' rest
  | handled (o : Outcome) {es : Transcript} {p p' : Bool} {input rest : List UInt8}
      (h : Follows p input es p' rest) : Follows p input (.handled o :: es) p' rest
  | opened {es : Transcript} {p' : Bool} {input rest : List UInt8}
      (h : Follows true input es p' rest) : Follows false input (.opened :: es) p' rest
  | closed {es : Transcript} {p' : Bool} {input rest : List UInt8}
      (h : Follows false input es p' rest) : Follows true input (.closed :: es) p' rest
  | command {es : Transcript} {p' : Bool} {input rest : List UInt8}
      (h : Follows true (Session.afterLine input) es p' rest) :
    Follows true input (Session.asking ">" input ++ es) p' rest
  | choice (choices : List Choice) {es : Transcript} {p p' : Bool} {input rest : List UInt8}
      (h : Follows p (Session.afterLine input) es p' rest) :
    Follows p input (Session.asking (Session.question choices) input ++ es) p' rest

namespace Follows

variable {p p' p'' : Bool} {input rest rest' : List UInt8} {es es' : Transcript}

theorem append (h : Follows p input es p' rest) (h' : Follows p' rest es' p'' rest') :
    Follows p input (es ++ es') p'' rest' := by
  induction h with
  | nil => exact h'
  | output he _ ih => exact .output he (ih h')
  | handled o _ ih => exact .handled o (ih h')
  | opened _ ih => exact .opened (ih h')
  | closed _ ih => exact .closed (ih h')
  | command _ ih =>
    rw [List.append_assoc]
    exact .command (ih h')
  | choice choices _ ih =>
    rw [List.append_assoc]
    exact .choice choices (ih h')

theorem of_isOutput (h : es.all Event.isOutput = true) (p : Bool) (input : List UInt8) :
    Follows p input es p input := by
  induction es with
  | nil => exact .nil p input
  | cons e es ih =>
    rw [List.all_cons, Bool.and_eq_true] at h
    exact .output h.1 (ih h.2)

theorem of_line {o : Outcome} (h : OfLine o input es rest) (p : Bool) :
    Follows p input es p rest := by
  cases h with
  | unasked hbefore hafter =>
    exact (of_isOutput hbefore p _).append (.handled o (of_isOutput hafter p _))
  | asked choices hbefore hafter =>
    exact .choice choices ((of_isOutput hbefore p _).append (.handled o (of_isOutput hafter p _)))

end Follows

theorem OfLine.exists_split {o : Outcome} {input rest : List UInt8} {es : Transcript}
    (h : OfLine o input es rest) : ∃ before after, es = before ++ .handled o :: after ∧
      (∀ e ∈ before, e.isExit = false) ∧ ∀ e ∈ after, e.isOutput = true := by
  cases h with
  | @unasked before after hbefore hafter =>
    exact ⟨before, after, rfl, fun e he =>
      Event.isExit_of_isOutput (List.all_eq_true.1 hbefore e he), List.all_eq_true.1 hafter⟩
  | @asked choices before after hbefore hafter =>
    refine ⟨_, after, (List.append_assoc ..).symm, fun e he => ?_, List.all_eq_true.1 hafter⟩
    exact (List.mem_append.1 he).elim Event.isExit_of_mem_asking fun he =>
      Event.isExit_of_isOutput (List.all_eq_true.1 hbefore e he)

end Transcript

theorem Outcome.flow_eq (o : Outcome) : o.flow = if o.isExit then .exit else .proceed := by
  rcases o with (_ | _) | _ | _ | _ | _ <;> rfl

namespace Shell

variable {sh : Shell}

section Moves

variable {c d : State} {es : Transcript}

theorem Moves.follows (h : sh.Moves c es d) :
    Transcript.Follows c.phase.isOpen c.session.input es d.phase.isOpen d.session.input := by
  cases h with
  | finish st => exact .nil false st.input
  | line lines h =>
    rw [Phase.isOpen_afterLine]
    exact .of_line h.events false
  | openPrompt lines st => exact .opened (.nil true st.input)
  | readCommand lines st =>
    rw [Phase.isOpen_afterReading, ← List.append_nil (Session.asking ">" st.input)]
    exact .command (.nil true (Session.afterLine st.input))
  | typed typed lines h =>
    rw [Phase.isOpen_afterTyped]
    exact .of_line h.events true
  | closePrompt progress lines st =>
    rw [Phase.isOpen_resume]
    exact .closed (.nil false st.input)
  | stay progress st => exact .nil false st.input

theorem Runs.follows (h : sh.Runs c es d) :
    Transcript.Follows c.phase.isOpen c.session.input es d.phase.isOpen d.session.input := by
  induction h with
  | refl => exact .nil _ _
  | step _ hmoves ih => exact ih.append hmoves.follows

end Moves

/-- Whether the run is on its way out because a line has exited. -/
def Phase.isLeaving : Phase → Bool
  | .closing (.ok .exit) _ | .stopped (.ok .exit) => true
  | _ => false

/-- Of such events one exits just in case the run is leaving, and behind it nothing is read. -/
structure Leaves (es : Transcript) (phase : Phase) : Prop where
  any_isExit : es.any Event.isExit = phase.isLeaving
  behind : ∀ e ∈ es.dropWhile (!·.isExit), e.isRead = false

namespace Leaves

variable {es es' : Transcript} {phase : Phase}

/-- Events of which none exits, in a run that stays. -/
theorem of_stays (hes : ∀ e ∈ es, e.isExit = false) (hphase : phase.isLeaving = false) :
    Leaves es phase := by
  have hnil : es.dropWhile (!·.isExit) = [] :=
    List.dropWhile_eq_nil_iff.2 fun e he => by rw [hes e he, Bool.not_false]
  refine ⟨?_, ?_⟩
  · rw [hphase, List.any_eq_false]
    exact fun e he => Bool.eq_false_iff.1 (hes e he)
  · rw [hnil]
    exact fun e he => absurd he List.not_mem_nil

theorem nil (hphase : phase.isLeaving = false) : Leaves [] phase :=
  of_stays (fun _ he => absurd he List.not_mem_nil) hphase

theorem singleton {e : Event} (he : e.isExit = false) (hphase : phase.isLeaving = false) :
    Leaves [e] phase :=
  of_stays (fun _ hmem => List.mem_singleton.1 hmem ▸ he) hphase

theorem append (h : ∀ e ∈ es, e.isExit = false) (h' : Leaves es' phase) :
    Leaves (es ++ es') phase := by
  have hpass : ∀ e ∈ es, (!e.isExit) = true := fun e he => by rw [h e he, Bool.not_false]
  have hnone : es.any Event.isExit = false :=
    List.any_eq_false.2 fun e he => Bool.eq_false_iff.1 (h e he)
  refine ⟨?_, ?_⟩
  · rw [List.any_append, hnone, Bool.false_or, h'.any_isExit]
  · rw [List.dropWhile_append_of_pos hpass]
    exact h'.behind

theorem of_line {o : Outcome} {input rest : List UInt8} (h : Transcript.OfLine o input es rest)
    (hphase : o.isExit = phase.isLeaving) : Leaves es phase := by
  obtain ⟨before, after, rfl, hbefore, hafter⟩ := h.exists_split
  refine append hbefore ?_
  cases hexit : o.isExit with
  | false =>
    refine of_stays (fun e he => ?_) (hphase ▸ hexit)
    rcases List.mem_cons.1 he with rfl | he
    · exact hexit
    · exact Event.isExit_of_isOutput (hafter e he)
  | true =>
    have hevent : (Event.handled o).isExit = true := hexit
    refine ⟨?_, ?_⟩
    · rw [List.any_cons, hevent, Bool.true_or, ← hphase, hexit]
    · rw [List.dropWhile_cons_of_neg (by rw [hevent]; decide)]
      intro e he
      rcases List.mem_cons.1 he with rfl | he
      · rfl
      · exact Event.isRead_of_isOutput (hafter e he)

end Leaves

namespace Moves

variable {c d : State} {es : Transcript}

theorem request_eq (h : sh.Moves c es d) :
    d.session.request = none ∨ d.session.request = c.session.request := by
  cases h with
  | line lines h => exact .inl h.request_eq
  | typed typed lines h => exact .inl h.request_eq
  | _ => exact .inr rfl

theorem leaves (h : sh.Moves c es d) (hc : c.phase.isLeaving = false)
    (hrequest : c.session.request ≠ some .prompt) : Leaves es d.phase := by
  cases h with
  | finish st => exact .nil rfl
  | @line _ o request _ st st' lines h =>
    refine .of_line h.events ?_
    rw [o.flow_eq]
    cases hexit : o.isExit with
    | false => rcases request with _ | _ | _ <;> rfl
    | true =>
      have hprompt : request ≠ some .prompt := mt (h.exits hexit) hrequest
      rcases request with _ | _ | _
      · rfl
      · exact absurd rfl hprompt
      · rfl
  | openPrompt lines st => exact .singleton rfl rfl
  | readCommand lines st =>
    have hphase : ∀ answer, (Phase.afterReading lines answer).isLeaving = false := by
      rintro (reason | _ | text) <;> rfl
    exact .of_stays (fun _ => Event.isExit_of_mem_asking) (hphase _)
  | @typed _ o request _ st st' typed lines h =>
    refine .of_line h.events ?_
    rw [o.flow_eq]
    cases o.isExit <;> rfl
  | closePrompt progress lines st =>
    rcases progress with f | _ | _
    · exact .singleton rfl rfl
    · exact .singleton rfl rfl
    · exact Bool.noConfusion hc
  | stay progress st => exact .nil hc

/-- A run on its way out does not turn back, and reads no more. -/
theorem of_leaving (h : sh.Moves c es d) (hc : c.phase.isLeaving = true) :
    d.phase.isLeaving = true ∧ ∀ e ∈ es, e.isRead = false := by
  cases h with
  | closePrompt progress lines st =>
    rcases progress with f | _ | _
    · exact Bool.noConfusion hc
    · exact Bool.noConfusion hc
    · exact ⟨rfl, fun e he => List.mem_singleton.1 he ▸ rfl⟩
  | stay progress st => exact ⟨hc, fun _ he => absurd he List.not_mem_nil⟩
  | _ => exact Bool.noConfusion hc

end Moves

theorem Runs.leaves {c d : State} {es : Transcript} (h : sh.Runs c es d)
    (hc : c.phase.isLeaving = false) (hrequest : c.session.request ≠ some .prompt) :
    Leaves es d.phase ∧ d.session.request ≠ some .prompt := by
  induction h with
  | refl => exact ⟨.nil hc, hrequest⟩
  | @step es es' d e _ hmoves ih =>
    obtain ⟨⟨hany, hbehind⟩, hpending⟩ := ih
    refine ⟨?_, hmoves.request_eq.elim (fun h => h ▸ nofun) fun h => h ▸ hpending⟩
    cases hd : d.phase.isLeaving with
    | false =>
      rw [hd, List.any_eq_false] at hany
      exact .append (fun e he => Bool.eq_false_iff.2 (hany e he)) (hmoves.leaves hd hpending)
    | true =>
      -- All that can still happen is that the prompt is closed.
      obtain ⟨he, hread⟩ := hmoves.of_leaving hd
      rw [hd, List.any_eq_true] at hany
      refine ⟨?_, fun event hevent => ?_⟩
      · rw [List.any_append, List.any_eq_true.2 hany, he, Bool.true_or]
      · rw [List.dropWhile_append] at hevent
        split at hevent
        · exact hread event ((List.dropWhile_sublist _).subset hevent)
        · exact (List.mem_append.1 hevent).elim (hbehind event) (hread event)

/-- A line at the prompt that is no text, with what stands behind it. -/
def EndsUnreadable (f : Failure) (es behind : Transcript) : Prop :=
  f = .ofText notText ∧ ∃ before line, decode? line = none ∧
    es = before ++ .wrote .question ">" :: .read line :: behind

/-- An error that ends the prompt, or that has ended it, came of an unreadable line. -/
def Phase.Explains (es : Transcript) : Phase → Prop
  | .closing (.error f) _ => EndsUnreadable f es []
  | .stopped (.error f) => EndsUnreadable f es [.closed]
  | _ => True

theorem Phase.explains_afterReading (es : Transcript) (lines : List String) (input : List UInt8) :
    Phase.Explains (es ++ Session.asking ">" input)
      (.afterReading lines (Session.lineAnswer (some ∘ Session.typed) input)) := by
  cases hanswer : Session.lineAnswer (some ∘ Session.typed) input with
  | ok answer => cases answer <;> exact trivial
  | error reason =>
    obtain ⟨hline, rfl⟩ := Session.lineAnswer_eq_error.1 hanswer
    have hinput : input ≠ [] := by
      rintro rfl
      exact Option.some_ne_none _ hline
    refine ⟨rfl, es, _, hline, ?_⟩
    rw [Session.asking, if_neg hinput]

theorem Runs.explains {c d : State} {es : Transcript} (h : sh.Runs c es d)
    (hc : c.phase.Explains []) : d.phase.Explains es := by
  induction h with
  | refl => exact hc
  | step _ hmoves ih =>
    cases hmoves with
    | finish st => exact trivial
    | @line _ o request _ _ _ lines h =>
      rcases o.flow with _ | _ <;> rcases request with _ | _ | _ <;> exact trivial
    | openPrompt lines st => exact trivial
    | readCommand lines st => exact Phase.explains_afterReading _ lines st.input
    | @typed _ o request _ _ _ typed lines h =>
      rcases o.flow with _ | _ <;> exact trivial
    | closePrompt progress lines st =>
      rcases progress with f | _ | _
      · obtain ⟨hf, before, line, hline, rfl⟩ := ih
        exact ⟨hf, before, line, hline, List.append_assoc ..⟩
      · exact trivial
      · exact trivial
    | stay progress st =>
      rw [List.append_nil]
      exact ih

end Shell

end Abbrev

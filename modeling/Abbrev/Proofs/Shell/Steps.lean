import Abbrev.Proofs.Shell.Handling
import Mathlib.Logic.Function.Iterate

/-! The shell as a machine that takes one step at a time: a line is handled, the prompt opens, a
line is read, the prompt closes. No bound is given to the machine, and it stops by itself with
the answer that executing a text gives, since every line read at the prompt shortens the input. -/

namespace Abbrev

namespace Shell

/-- Where a run stands: with lines of the text still to be run, or inside the prompt with lines
typed there and, behind them, those of the text. -/
inductive Phase where
  | running (lines : List String)
  | opening (lines : List String)
  | prompting (typed lines : List String)
  | closing (progress : Progress) (lines : List String)
  | stopped (progress : Progress)

namespace Phase

/-- Whether the prompt is open. -/
def isOpen : Phase → Bool
  | .prompting .. | .closing .. => true
  | .running _ | .opening _ | .stopped _ => false

/-- Where a text goes on behind some progress. -/
def resume (lines : List String) : Progress → Phase
  | .ok .proceed => .running lines
  | .ok .exit => .stopped (.ok .exit)
  | .error f => .stopped (.error f)

/-- Behind a line of the text that left a request for the prompt, or none. -/
def afterLine (lines : List String) : Flow × Option Request → Phase
  | (_, some .prompt) => .opening lines
  | (flow, some .help) | (flow, none) => .resume lines (.ok flow)

/-- Behind a typed line; a request for the prompt, which is open, changes nothing. -/
def afterTyped (typed lines : List String) : Flow × Option Request → Phase
  | (.proceed, _) => .prompting typed lines
  | (.exit, _) => .closing (.ok .exit) lines

/-- Behind an attempt to read a line at the prompt. -/
def afterReading (lines : List String) : Except String (Option String) → Phase
  | .ok (some text) => .prompting (Text.lines text) lines
  | .ok none => .closing (.ok .proceed) lines
  | .error reason => .closing (.error (.ofText reason)) lines

variable (typed lines : List String) (answer : Flow × Option Request)

@[simp] theorem isOpen_resume (progress : Progress) : (resume lines progress).isOpen = false := by
  rcases progress with f | _ | _ <;> rfl

@[simp] theorem isOpen_afterLine : (afterLine lines answer).isOpen = false := by
  rcases answer with ⟨flow, _ | _ | _⟩
  · exact isOpen_resume lines (.ok flow)
  · rfl
  · exact isOpen_resume lines (.ok flow)

@[simp] theorem isOpen_afterTyped : (afterTyped typed lines answer).isOpen = true := by
  rcases answer with ⟨_ | _, request⟩ <;> rfl

@[simp] theorem isOpen_afterReading (read : Except String (Option String)) :
    (afterReading lines read).isOpen = true := by
  rcases read with reason | _ | text <;> rfl

end Phase

structure State where
  phase : Phase
  session : Session

variable {sh : Shell}

def next (sh : Shell) : Phase → StateM Session Phase
  | .running [] => pure (.stopped (.ok .proceed))
  | .running (line :: lines) => Phase.afterLine lines <$> sh.handle line
  | .opening lines => do
    modify (Session.record .opened)
    pure (.prompting [] lines)
  | .prompting [] lines => Phase.afterReading lines <$> Session.readCommand
  | .prompting (line :: typed) lines => Phase.afterTyped typed lines <$> sh.handle line
  | .closing progress lines => do
    modify (Session.record .closed)
    pure (.resume lines progress)
  | .stopped progress => pure (.stopped progress)

/-- One step. -/
def advance (sh : Shell) (c : State) : State :=
  let ran := (sh.next c.phase).run c.session
  ⟨ran.1, ran.2⟩

section Advance

variable {line : String} {lines typed : List String} {progress : Progress} {st : Session}

theorem advance_running : sh.advance ⟨.running (line :: lines), st⟩ =
    ⟨.afterLine lines ((sh.handle line).run st).1, ((sh.handle line).run st).2⟩ := by
  rw [advance, next, StateT.run_map]
  rfl

theorem advance_typed : sh.advance ⟨.prompting (line :: typed) lines, st⟩ =
    ⟨.afterTyped typed lines ((sh.handle line).run st).1, ((sh.handle line).run st).2⟩ := by
  rw [advance, next, StateT.run_map]
  rfl

theorem advance_prompting : sh.advance ⟨.prompting [] lines, st⟩ =
    ⟨.afterReading lines (Session.lineAnswer (some ∘ Session.typed) st.input), st.asked ">"⟩ := by
  rw [advance, next, StateT.run_map, Session.run_readCommand]
  rfl

theorem advance_stopped : sh.advance ⟨.stopped progress, st⟩ = ⟨.stopped progress, st⟩ := rfl

end Advance

/-- Some number of steps leads from one state to another. -/
def Reaches (sh : Shell) (c d : State) : Prop := ∃ n, sh.advance^[n] c = d

namespace Reaches

variable {c d e : State} {progress progress' : Progress} {st st' : Session}

theorem refl (c : State) : sh.Reaches c c := ⟨0, rfl⟩

theorem step (h : sh.Reaches (sh.advance c) d) : sh.Reaches c d := by
  obtain ⟨n, rfl⟩ := h
  exact ⟨n + 1, rfl⟩

theorem trans (h : sh.Reaches c d) (h' : sh.Reaches d e) : sh.Reaches c e := by
  obtain ⟨n, rfl⟩ := h
  obtain ⟨k, rfl⟩ := h'
  exact ⟨k + n, Function.iterate_add_apply _ _ _ _⟩

/-- What every step keeps, a run keeps. -/
theorem invariant {P : State → Prop} (hstep : ∀ c, P c → P (sh.advance c))
    (h : sh.Reaches c d) (hc : P c) : P d := by
  obtain ⟨n, rfl⟩ := h
  exact Function.Iterate.rec P hc hstep n

/-- A run stops in one way only. -/
theorem unique (h : sh.Reaches c ⟨.stopped progress, st⟩)
    (h' : sh.Reaches c ⟨.stopped progress', st'⟩) : progress = progress' ∧ st = st' := by
  obtain ⟨n, hn⟩ := h
  obtain ⟨k, hk⟩ := h'
  -- Both runs are prolonged to the same number of steps.
  have hmore : ∀ {p s i} (j : Nat), sh.advance^[i] c = ⟨.stopped p, s⟩ →
      sh.advance^[j + i] c = ⟨.stopped p, s⟩ := fun j hi => by
    rw [Function.iterate_add_apply, hi]
    exact Function.iterate_fixed advance_stopped j
  have hsame := (hmore k hn).symm.trans (Nat.add_comm n k ▸ hmore n hk)
  injection hsame with hphase hsession
  injection hphase with hprogress
  exact ⟨hprogress, hsession⟩

end Reaches

/-- Runs what comes next, if the progress so far permits. -/
def continuing (rest : StateM Session Progress) : Progress → StateM Session Progress
  | .ok .proceed => rest
  | .ok .exit => pure (.ok .exit)
  | .error f => pure (.error f)

theorem runLines_cons (enter : Flow → StateM Session Progress) (line : String)
    (lines : List String) :
    sh.runLines enter (line :: lines) =
      sh.runLine enter line >>= continuing (sh.runLines enter lines) := by
  rw [runLines]
  refine congrArg _ (funext fun progress => ?_)
  rcases progress with f | _ | _ <;> rfl

namespace Confined

variable {lines typed : List String} {progress : Progress} {st st' : Session}

theorem length_input_handle (hsh : sh.Confined) (line : String) (st : Session) :
    ((sh.handle line).run st).2.input.length ≤ st.input.length := by
  obtain ⟨o, request, es, st', hran, hhandles⟩ := hsh.exists_handles line st
  rw [hran]
  exact hhandles.events.length_le

/-- No step lengthens the input. -/
theorem length_input_advance (hsh : sh.Confined) (c : State) :
    (sh.advance c).session.input.length ≤ c.session.input.length := by
  rcases c with ⟨(_ | ⟨line, lines⟩) | lines | ⟨_ | ⟨line, typed⟩, lines⟩ | ⟨progress, lines⟩ |
    progress, st⟩
  · exact le_rfl
  · rw [advance_running]
    exact hsh.length_input_handle line st
  · exact le_rfl
  · rw [advance_prompting]
    exact Session.length_afterLine_le st.input
  · rw [advance_typed]
    exact hsh.length_input_handle line st
  · exact le_rfl
  · exact le_rfl

theorem length_input_le (hsh : sh.Confined) {c d : State}
    (h : sh.Reaches c d) : d.session.input.length ≤ c.session.input.length :=
  h.invariant (fun e he => (hsh.length_input_advance e).trans he) le_rfl

/-- Typed lines are run until one of them exits. -/
theorem reaches_typed (lines : List String)
    (h : (sh.runLines (fun flow => pure (.ok flow)) typed).run st = (progress, st')) :
    progress = .ok .proceed ∧
        sh.Reaches ⟨.prompting typed lines, st⟩ ⟨.prompting [] lines, st'⟩ ∨
      progress = .ok .exit ∧
        sh.Reaches ⟨.prompting typed lines, st⟩ ⟨.closing progress lines, st'⟩ := by
  induction typed generalizing st with
  | nil =>
    obtain ⟨rfl, rfl⟩ := Prod.mk.inj h
    exact .inl ⟨rfl, .refl _⟩
  | cons line typed ih =>
    rw [runLines_cons, run_bind, runLine_eq, run_bind] at h
    have hstep := @advance_typed sh line lines typed st
    rcases hran : (sh.handle line).run st with ⟨⟨_ | _, request⟩, st₁⟩ <;> rw [hran] at h hstep
    · have hrest : (sh.runLines (fun flow => pure (.ok flow)) typed).run st₁ = (progress, st') := by
        rcases request with _ | _ | _ <;> exact h
      exact (ih hrest).imp (fun h => ⟨h.1, .step (hstep ▸ h.2)⟩) fun h =>
        ⟨h.1, .step (hstep ▸ h.2)⟩
    · have hrest : (.ok .exit, st₁) = (progress, st') := by
        rcases request with _ | _ | _ <;> exact h
      obtain ⟨rfl, rfl⟩ := Prod.mk.inj hrest
      exact .inr ⟨rfl, .step (hstep ▸ .refl _)⟩

/-- The bound on the lines that are read at the prompt is never met. -/
theorem reaches_converse (hsh : sh.Confined) (lines : List String) {n : Nat}
    (hn : st.input.length < n) (h : (sh.converse n).run st = (progress, st')) :
    sh.Reaches ⟨.prompting [] lines, st⟩ ⟨.closing progress lines, st'⟩ := by
  induction n generalizing st with
  | zero => exact absurd hn (Nat.not_lt_zero _)
  | succ n ih =>
    refine .step (advance_prompting ▸ ?_)
    rw [converse, run_bind, Session.run_readCommand] at h
    rcases hanswer : Session.lineAnswer (some ∘ Session.typed) st.input with reason | _ | text <;>
      rw [hanswer] at h
    · obtain ⟨rfl, rfl⟩ := Prod.mk.inj h
      exact .refl _
    · obtain ⟨rfl, rfl⟩ := Prod.mk.inj h
      exact .refl _
    · change (sh.executeTyped text >>= _).run (st.asked ">") = _ at h
      rw [executeTyped, run_bind] at h
      rcases hran : (sh.runLines (fun flow => pure (.ok flow)) (Text.lines text)).run (st.asked ">")
        with ⟨_, st₁⟩
      rw [hran] at h
      rcases reaches_typed lines hran with ⟨rfl, hreach⟩ | ⟨rfl, hreach⟩
      · -- Reading has shortened the input, and the typed lines have not lengthened it.
        refine hreach.trans (ih ?_ h)
        have hread := Session.length_afterLine_lt (Session.ne_nil_of_lineAnswer hanswer)
        have hrest := hsh.length_input_le hreach
        change st₁.input.length ≤ (Session.afterLine st.input).length at hrest
        omega
      · obtain ⟨rfl, rfl⟩ := Prod.mk.inj h
        exact hreach

theorem reaches_prompt (hsh : sh.Confined) (h : sh.prompt.run st = (progress, st')) :
    sh.Reaches ⟨.opening lines, st⟩ ⟨.resume lines progress, st'⟩ := by
  rcases hran : (sh.converse (st.input.length + 1)).run (st.record .opened) with ⟨progress₁, st₁⟩
  have hprompt : sh.prompt.run st = (progress₁, st₁.record .closed) := by
    have hbind : sh.prompt.run st =
        ((sh.converse (st.input.length + 1) >>= fun progress => do
          modify (Session.record .closed)
          pure progress : StateM Session Progress)).run (st.record .opened) := rfl
    rw [hbind, run_bind, hran]
    rfl
  obtain ⟨rfl, rfl⟩ := Prod.mk.inj (hprompt.symm.trans h)
  have hconverse := hsh.reaches_converse lines (Nat.lt_succ_self _) hran
  exact .step (hconverse.trans (.step (.refl _)))

theorem reaches_runLines (hsh : sh.Confined)
    (h : (sh.runLines (fun _ => sh.prompt) lines).run st = (progress, st')) :
    sh.Reaches ⟨.running lines, st⟩ ⟨.stopped progress, st'⟩ := by
  induction lines generalizing st with
  | nil =>
    obtain ⟨rfl, rfl⟩ := Prod.mk.inj h
    exact .step (.refl _)
  | cons line lines ih =>
    rw [runLines_cons, run_bind, runLine_eq, run_bind] at h
    rcases hran : (sh.handle line).run st with ⟨⟨flow, request⟩, st₁⟩
    rw [hran] at h
    refine .step ?_
    rw [advance_running, hran]
    have hresume : ∀ {progress₁ st₂},
        (continuing (sh.runLines (fun _ => sh.prompt) lines) progress₁).run st₂ = (progress, st') →
        sh.Reaches ⟨.resume lines progress₁, st₂⟩ ⟨.stopped progress, st'⟩ := by
      rintro (f | _ | _) st₂ h
      · obtain ⟨rfl, rfl⟩ := Prod.mk.inj h
        exact .refl _
      · exact ih h
      · obtain ⟨rfl, rfl⟩ := Prod.mk.inj h
        exact .refl _
    rcases request with _ | _ | _
    · exact hresume h
    · rcases hprompt : sh.prompt.run st₁ with ⟨progress₁, st₂⟩
      rw [entering, hprompt] at h
      exact (hsh.reaches_prompt hprompt).trans (hresume h)
    · exact hresume h

/-- Executing a text is running the machine until it stops, which it does. -/
theorem reaches_execute (hsh : sh.Confined) (text : String) (st : Session) :
    sh.Reaches ⟨.running (Text.lines text), st⟩
      ⟨.stopped ((sh.execute text).run st).1, ((sh.execute text).run st).2⟩ :=
  hsh.reaches_runLines rfl

/-- No other answer and no other session can come of it. -/
theorem run_execute_eq_iff (hsh : sh.Confined) {text : String} :
    (sh.execute text).run st = (progress, st') ↔
      sh.Reaches ⟨.running (Text.lines text), st⟩ ⟨.stopped progress, st'⟩ := by
  refine ⟨fun h => ?_, fun h => ?_⟩
  · have hreach := hsh.reaches_execute text st
    rwa [h] at hreach
  · obtain ⟨hprogress, hsession⟩ := (hsh.reaches_execute text st).unique h
    exact Prod.ext hprogress hsession

end Confined

/-- The session behind some texts, each executed whatever came of those before it. -/
def after (sh : Shell) (texts : List String) (st : Session) : Session :=
  texts.foldl (fun st text => ((sh.execute text).run st).2) st

theorem after_keeps {P : Session → Prop}
    (hexecute : ∀ text st, P st → P ((sh.execute text).run st).2) (texts : List String)
    {st : Session} (h : P st) : P (sh.after texts st) := by
  induction texts generalizing st with
  | nil => exact h
  | cons text texts ih => exact ih (hexecute text st h)

/-- Executing texts as long as they proceed is executing the first of them. -/
theorem exists_take_executeAll (sh : Shell) (texts : List String) (st : Session) :
    ∃ n, ((sh.executeAll texts).run st).2 = sh.after (texts.take n) st := by
  induction texts generalizing st with
  | nil => exact ⟨0, rfl⟩
  | cons text texts ih =>
    rw [executeAll, run_bind]
    rcases hran : (sh.execute text).run st with ⟨f | _ | _, st₁⟩
    · exact ⟨1, (congrArg Prod.snd hran).symm⟩
    · obtain ⟨n, hn⟩ := ih st₁
      refine ⟨n + 1, hn.trans ?_⟩
      rw [after, after, List.take_succ_cons, List.foldl_cons, hran]
    · exact ⟨1, (congrArg Prod.snd hran).symm⟩

end Shell

end Abbrev

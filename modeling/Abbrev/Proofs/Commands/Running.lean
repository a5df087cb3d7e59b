import Abbrev.Proofs.Commands.Dispatch
import Abbrev.Proofs.Resolution.Reported

/-! Running a text. Its lines are run one after the other, each on the state that the one before it
left, up to the first that exits; so two texts with a line break between them run one after the
other, unless the first one exits. What a line leaves behind is what its question and its handler
did. The state is all that handlers and the chooser can see and change, so whatever is not run
leaves no trace in it. -/

namespace Abbrev

theorem run_bind {σ α β : Type} (x : StateM σ α) (f : α → StateM σ β) (st : σ) :
    (x >>= f).run st = (f (x.run st).1).run (x.run st).2 := rfl

theorem verdict_eq_error {ms : List Match} {answer : Except Fault (Option Nat)} {f : Fault} :
    verdict ms answer = .error f ↔ answer = .error f := by
  rcases answer with g | _ | i
  · simp [verdict]
  · simp [verdict]
  · cases h : ms[i]? <;> simp [verdict, h]

namespace Catalog

variable {σ : Type} {c : Catalog} {s : Settings} {chooser : Chooser σ} {text : String} {st : σ}

/-- The state behind the question about a text, if one is asked. -/
def afterQuestion (c : Catalog) (s : Settings) (chooser : Chooser σ) (text : String) (st : σ) : σ :=
  if c.Asks s text then ((chooser (choices s.separator (c.contenders s text))).run st).2 else st

theorem run_resolve_snd :
    ((c.resolve s chooser text).run st).2 = c.afterQuestion s chooser text st := by
  by_cases hasks : c.Asks s text
  · rw [resolve_of_asks hasks, afterQuestion, if_pos hasks]
    rfl
  · rw [resolve_of_not_asks hasks, afterQuestion, if_neg hasks]
    rfl

/-- That there are several lines is said of one line by nobody but the chooser. -/
theorem answer_of_resolve_multipleLines (hsingle : (Text.lines text).length ≤ 1) {n : Nat}
    (h : ((c.resolve s chooser text).run st).1 = .error (.multipleLines n)) :
    c.Asks s text ∧ ((chooser (choices s.separator (c.contenders s text))).run st).1 =
      .error (.multipleLines n) := by
  by_cases hasks : c.Asks s text
  · rw [resolve_of_asks hasks] at h
    exact ⟨hasks, verdict_eq_error.1 h⟩
  · rw [resolve_of_not_asks hasks] at h
    cases hread : c.read s text with
    | error f =>
      rw [hread] at h
      cases h
      exact absurd hread (read_ne_multipleLines hsingle n)
    | ok reading =>
      rw [hread] at h
      rcases reading with ids | ⟨m, _ | ⟨k, ms⟩⟩ <;> cases h

end Catalog

namespace Commands

/-- Dispatching runs a handler of the table, or none and changes nothing. -/
theorem dispatch_cases {σ : Type} (c : Commands σ) (m : Match) :
    (∃ command args, c.list[m.id]? = some command ∧ c.dispatch m = command.handler args) ∨
      ∃ f, c.dispatch m = pure (.error (.ofFault f)) := by
  unfold dispatch
  cases hcommand : c.list[m.id]? with
  | none => exact .inr ⟨_, rfl⟩
  | some command =>
    cases Arguments.ofMatch m with
    | error f => exact .inr ⟨f, rfl⟩
    | ok args => exact .inl ⟨command, args, rfl, rfl⟩

end Commands

namespace Interpreter

variable {σ : Type} (i : Interpreter σ)

/-- The state behind the question about a line, if one is asked. -/
def afterQuestion (line : String) (st : σ) : σ :=
  i.commands.catalog.afterQuestion i.settings i.chooser line st

theorem run_runLine_of_matched {line : String} {st : σ} {m : Match}
    (h : ((i.commands.catalog.resolve i.settings i.chooser line).run st).1 = .ok (.matched m)) :
    (i.runLine line).run st =
      (.ofDispatch ((i.commands.dispatch m).run (i.afterQuestion line st)).1,
        ((i.commands.dispatch m).run (i.afterQuestion line st)).2) := by
  rw [afterQuestion, ← Catalog.run_resolve_snd, runLine, run_bind, h]
  rfl

theorem run_runLine_snd_of_not_matched {line : String} {st : σ}
    (h : ∀ m, ((i.commands.catalog.resolve i.settings i.chooser line).run st).1 ≠
      .ok (.matched m)) : ((i.runLine line).run st).2 = i.afterQuestion line st := by
  rw [afterQuestion, ← Catalog.run_resolve_snd, runLine, run_bind]
  rcases hresolved : ((i.commands.catalog.resolve i.settings i.chooser line).run st).1 with
    f | m | ids | _
  · rfl
  · exact absurd hresolved (h m)
  · rfl
  · rfl

theorem run_runLines_of_exit {line : String} {st : σ}
    (h : ((i.runLine line).run st).1.isExit = true) (lines : List String) :
    (i.runLines (line :: lines)).run st =
      ([((i.runLine line).run st).1], ((i.runLine line).run st).2) := by
  rw [runLines, run_bind, if_pos h]
  rfl

theorem run_runLines_of_not_exit {line : String} {st : σ}
    (h : ((i.runLine line).run st).1.isExit = false) (lines : List String) :
    (i.runLines (line :: lines)).run st =
      (((i.runLine line).run st).1 :: ((i.runLines lines).run ((i.runLine line).run st).2).1,
        ((i.runLines lines).run ((i.runLine line).run st).2).2) := by
  rw [runLines, run_bind, if_neg (Bool.eq_false_iff.1 h)]
  rfl

/-- Only the last line that is run can exit. -/
theorem isExit_of_mem_dropLast {lines : List String} {st : σ} :
    ∀ o ∈ ((i.runLines lines).run st).1.dropLast, o.isExit = false := by
  induction lines generalizing st with
  | nil =>
    intro o ho
    cases ho
  | cons line lines ih =>
    cases hexit : ((i.runLine line).run st).1.isExit with
    | true =>
      rw [run_runLines_of_exit i hexit]
      intro o ho
      cases ho
    | false =>
      rw [run_runLines_of_not_exit i hexit]
      intro o ho
      obtain rfl | ho : o = ((i.runLine line).run st).1 ∨
          o ∈ ((i.runLines lines).run ((i.runLine line).run st).2).1.dropLast := by
        rcases hrest : ((i.runLines lines).run ((i.runLine line).run st).2).1 with _ | ⟨p, os⟩
        · rw [hrest] at ho
          cases ho
        · rwa [hrest, List.dropLast_cons_cons, List.mem_cons] at ho
      · exact hexit
      · exact ih o ho

theorem isExit_getLast? {lines : List String} {st : σ}
    (h : ∃ o ∈ ((i.runLines lines).run st).1, o.isExit = true) :
    ∃ o ∈ ((i.runLines lines).run st).1.getLast?, o.isExit = true := by
  obtain ⟨o, ho, hexit⟩ := h
  have hne : ((i.runLines lines).run st).1 ≠ [] := List.ne_nil_of_mem ho
  refine ⟨_, List.getLast?_eq_some_getLast hne, ?_⟩
  rw [← List.dropLast_append_getLast hne, List.mem_append, List.mem_singleton] at ho
  rcases ho with ho | rfl
  · rw [i.isExit_of_mem_dropLast o ho] at hexit
    cases hexit
  · exact hexit

/-- The lines that are run at all are run in turn. -/
theorem run_runLines_eq_mapM (lines : List String) (st : σ) :
    (i.runLines lines).run st =
      ((lines.take ((i.runLines lines).run st).1.length).mapM i.runLine).run st := by
  induction lines generalizing st with
  | nil => rfl
  | cons line lines ih =>
    cases hexit : ((i.runLine line).run st).1.isExit with
    | true =>
      rw [run_runLines_of_exit i hexit]
      simp only [List.length_singleton, List.take_succ_cons, List.take_zero, List.mapM_cons,
        List.mapM_nil]
      rfl
    | false =>
      rw [run_runLines_of_not_exit i hexit, List.length_cons, List.take_succ_cons, List.mapM_cons,
        run_bind, run_bind, ← ih]
      rfl

theorem length_runLines (lines : List String) (st : σ) :
    ((i.runLines lines).run st).1.length = lines.length ∨
      ∃ o ∈ ((i.runLines lines).run st).1.getLast?, o.isExit = true := by
  induction lines generalizing st with
  | nil => exact .inl rfl
  | cons line lines ih =>
    cases hexit : ((i.runLine line).run st).1.isExit with
    | true =>
      rw [run_runLines_of_exit i hexit]
      exact .inr ⟨_, rfl, hexit⟩
    | false =>
      rw [run_runLines_of_not_exit i hexit]
      rcases ih ((i.runLine line).run st).2 with hall | ⟨o, ho, hlast⟩
      · exact .inl (congrArg (· + 1) hall)
      · refine .inr ⟨o, ?_, hlast⟩
        rw [Option.mem_def] at ho ⊢
        rw [List.getLast?_cons, ho, Option.getD_some]

theorem run_runLines_append (lines more : List String) (st : σ) :
    (i.runLines (lines ++ more)).run st =
      if ((i.runLines lines).run st).1.any Outcome.isExit then (i.runLines lines).run st
      else (((i.runLines lines).run st).1 ++
          ((i.runLines more).run ((i.runLines lines).run st).2).1,
        ((i.runLines more).run ((i.runLines lines).run st).2).2) := by
  induction lines generalizing st with
  | nil => rfl
  | cons line lines ih =>
    rw [List.cons_append]
    cases hexit : ((i.runLine line).run st).1.isExit with
    | true =>
      rw [run_runLines_of_exit i hexit, run_runLines_of_exit i hexit, List.any_cons, hexit,
        Bool.true_or, if_pos rfl]
    | false =>
      rw [run_runLines_of_not_exit i hexit, run_runLines_of_not_exit i hexit, ih, List.any_cons,
        hexit, Bool.false_or]
      split <;> rfl

/-- What a line leaves behind is what its question left, or what its handler made of that. -/
def LeavesOwnEffects (line : String) (st : σ) : Prop :=
  ((i.runLine line).run st).2 = i.afterQuestion line st ∨
    ∃ m command args,
      ((i.commands.catalog.resolve i.settings i.chooser line).run st).1 = .ok (.matched m) ∧
      i.commands.list[m.id]? = some command ∧
      (i.runLine line).run st =
        (.ofDispatch ((command.handler args).run (i.afterQuestion line st)).1,
          ((command.handler args).run (i.afterQuestion line st)).2)

theorem leavesOwnEffects (line : String) (st : σ) : i.LeavesOwnEffects line st := by
  by_cases hmatched : ∃ m,
      ((i.commands.catalog.resolve i.settings i.chooser line).run st).1 = .ok (.matched m)
  · obtain ⟨m, hm⟩ := hmatched
    rw [LeavesOwnEffects, run_runLine_of_matched i hm]
    rcases i.commands.dispatch_cases m with ⟨command, args, hcommand, hrun⟩ | ⟨f, hnone⟩
    · exact .inr ⟨m, command, args, hm, hcommand, by rw [hrun]⟩
    · rw [hnone]
      exact .inl rfl
  · exact .inl (run_runLine_snd_of_not_matched i (not_exists.1 hmatched))

/-- A text is run line by line up to the first line that exits, and no line is taken for several. -/
structure RunsInTurn (text : String) (st : σ) : Prop where
  /-- The outcomes are those of the first lines, each run on what the one before it left. -/
  inTurn : (i.run text).run st =
    (((Text.lines text).take ((i.run text).run st).1.length).mapM i.runLine).run st
  all_or_exit : ((i.run text).run st).1.length = (Text.lines text).length ∨
    ∃ o ∈ ((i.run text).run st).1.getLast?, o.isExit = true
  exit_last : ∀ o ∈ ((i.run text).run st).1.dropLast, o.isExit = false
  /-- Whatever becomes of a line, only its question and its handler change the state. -/
  leaves : ∀ line ∈ Text.lines text, ∀ st', i.LeavesOwnEffects line st'
  /-- Only the chooser's own answer can say that there are several lines. -/
  single : ∀ line ∈ Text.lines text, ∀ st' n,
    ((i.commands.catalog.resolve i.settings i.chooser line).run st').1 =
        .error (.multipleLines n) →
      i.commands.catalog.Asks i.settings line ∧
        ((i.chooser (choices i.settings.separator
          (i.commands.catalog.contenders i.settings line))).run st').1 = .error (.multipleLines n)

theorem runsInTurn (text : String) (st : σ) : i.RunsInTurn text st where
  inTurn := i.run_runLines_eq_mapM _ st
  all_or_exit := i.length_runLines _ st
  exit_last := i.isExit_of_mem_dropLast
  leaves line _ st' := i.leavesOwnEffects line st'
  single line hline st' n := by
    have hsingle : (Text.lines line).length ≤ 1 := by
      rw [Text.lines_of_mem_lines hline]
      exact Nat.le_refl 1
    exact Catalog.answer_of_resolve_multipleLines hsingle

/-- Two texts with a line break between them: after an exit in the first one the second is not run,
and else it is run on what the first one left. -/
theorem run_append_lineBreak (a b : String) {c : Char} (hc : c = '\r' ∨ c = '\n') (st : σ) :
    ((∃ o ∈ ((i.run a).run st).1, o.isExit = true) →
        (∃ o ∈ ((i.run a).run st).1.getLast?, o.isExit = true) ∧
          (i.run (a ++ String.singleton c ++ b)).run st = (i.run a).run st) ∧
      ((∀ o ∈ ((i.run a).run st).1, o.isExit = false) →
        (i.run (a ++ String.singleton c ++ b)).run st =
          (((i.run a).run st).1 ++ ((i.run b).run ((i.run a).run st).2).1,
            ((i.run b).run ((i.run a).run st).2).2)) ∧
      i.RunsInTurn a st := by
  have hbreak : Text.isLineBreak c = true := by
    rcases hc with rfl | rfl <;> decide
  have happend := i.run_runLines_append (Text.lines a) (Text.lines b) st
  rw [← Text.lines_append_cons a b hbreak] at happend
  refine ⟨fun hexit => ⟨i.isExit_getLast? hexit, ?_⟩, fun hproceeds => ?_, i.runsInTurn a st⟩
  · exact happend.trans (if_pos (List.any_eq_true.2 hexit))
  · refine happend.trans (if_neg ?_)
    rw [List.any_eq_true]
    rintro ⟨o, ho, hexit⟩
    rw [hproceeds o ho] at hexit
    cases hexit

end Interpreter

/-- A handler that writes down its mark and stops the run. -/
def Commands.stopping (mark : Nat) : Handler (List Nat) := fun args => do
  let _ ← marked mark args
  pure (.ok .exit)

namespace Interpreter

/-- Listing users goes on, and finding one stops. -/
def users : Interpreter (List Nat) where
  commands := ⟨[⟨.listUsers, Commands.marked 0⟩, ⟨.findUser, Commands.stopping 1⟩]⟩
  settings := {}
  chooser := .refuse

/-- Behind a line that stops nothing is run, and behind one without meaning everything. -/
theorem run_users :
    (users.run ("u l\nu f Bob 3" ++ String.singleton '\r' ++ "u l")).run [] =
        (users.run "u l\nu f Bob 3").run [] ∧
      ((users.run "u l\nu f Bob 3").run []).2 = [0, 1] ∧
      ((users.run ("nobody\r" ++ String.singleton '\n' ++ "\nu l")).run []).2 = [0] := by
  have hstops := (users.run_append_lineBreak "u l\nu f Bob 3" "u l" (.inl rfl) []).1
  have hproceeds := (users.run_append_lineBreak "nobody\r" "\nu l" (.inr rfl) []).2.1
  refine ⟨(hstops ⟨.dispatched .exit, ?_, rfl⟩).2, rfl, ?_⟩
  · exact List.mem_of_getElem? (i := 1) rfl
  · refine congrArg Prod.snd (hproceeds ?_)
    intro o ho
    obtain rfl : o = .failed (.commandNotFound "nobody") := List.mem_singleton.1 ho
    rfl

end Interpreter

end Abbrev

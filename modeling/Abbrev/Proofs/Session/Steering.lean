import Abbrev.Proofs.Binding.Defaults
import Abbrev.Proofs.Commands.Running
import Abbrev.Proofs.Resolution.Filters
import Abbrev.Proofs.Session.Repertoire
import Abbrev.Shell

/-! The words that steer a session, with a manifest's commands behind the session's own. A word
alone calls every command whose path is one word that it begins and whose slots all have defaults.
Where no command of the manifest is called so, `exit`, `help` and `prompt` do what they always do,
and nobody is asked; where one is, the word has several meanings. -/

namespace Abbrev

namespace Template

variable {t : Template} {token : String} {separator : Char}

/-- Called by a token alone: the path is one word, which the token begins, and no slot needs an
argument. -/
def AnswersTo (t : Template) (token : String) : Prop :=
  t.words.length = 1 ∧ Text.abbreviates token t.firstWord = true ∧
    ∀ s ∈ t.slots, s.default.isSome = true

instance : Decidable (t.AnswersTo token) := inferInstanceAs (Decidable (_ ∧ _ ∧ _))

theorem WellFormed.words_eq_singleton (ht : t.WellFormed) (h : t.words.length = 1) :
    t.words = [t.firstWord] := by
  obtain ⟨w, ps, hparts⟩ := ht.startsWithWord
  rw [firstWord_of_parts hparts]
  rw [words_of_parts hparts, List.length_cons] at h
  rw [words_of_parts hparts, List.eq_nil_of_length_eq_zero (Nat.succ.inj h)]

theorem exists_bindPositional_iff_answersTo (ht : t.WellFormed) (separator : Char) :
    (∃ b, t.bindPositional [token] separator = .ok b) ↔ t.AnswersTo token := by
  have hparts := ht.length_words_add_length_slots
  constructor
  · rintro ⟨b, h⟩
    have hword := abbreviates_firstWord_of_bindPositional ht h
    have hpos : 0 < t.words.length := by
      obtain ⟨w, ps, hstart⟩ := ht.startsWithWord
      rw [words_of_parts hstart]
      exact Nat.succ_pos _
    rcases bindPositional_eq_ok.1 h with ⟨hlength, -⟩ | ⟨-, hall, hcount, -⟩
    · rw [List.length_singleton] at hlength
      have hnone : t.slots = [] := List.eq_nil_of_length_eq_zero (by omega)
      exact ⟨by omega, hword, by simp [hnone]⟩
    · have hslots := ht.allDefaults_iff.1 hall
      have hdefaults := ht.defaultCount_eq_length hslots
      rw [List.length_singleton] at hcount
      exact ⟨by omega, hword, hslots⟩
  · rintro ⟨hone, hword, hslots⟩
    by_cases hnone : t.slots = []
    · obtain ⟨w, ps, hstart⟩ := ht.startsWithWord
      have hlength : t.parts.length = 1 := by rw [← hparts, hone, hnone, List.length_nil]
      obtain rfl : ps = [] := by simpa [hstart] using hlength
      refine ⟨Binding.ofList [], bindPositional_eq_ok.2 (.inl ⟨hlength, [], ?_, rfl⟩)⟩
      rw [hstart, fill, ← firstWord_of_parts hstart, if_pos hword]
      rfl
    · have hlength : [token].length = t.words.length := hone.symm
      have hwords : Text.abbreviateAll [token] t.words = true := by
        simpa [ht.words_eq_singleton hone, Text.abbreviateAll] using hword
      exact ⟨_, (bindPositional_words_eq_ok ht hnone hslots hlength).2 ⟨hwords, rfl⟩⟩

theorem exists_bind_iff_answersTo (ht : t.WellFormed)
    (htoken : (Argument.ofToken token).isNamed = false) :
    (∃ b, t.bind [token] separator = .ok b) ↔ t.AnswersTo token := by
  rw [← exists_bindPositional_iff_answersTo ht separator]
  refine exists_congr fun b => ?_
  simp [bind_eq_ok, htoken]

theorem bind_ofWord {word : String} (help : String)
    (hword : (Argument.ofToken word).isNamed = false) :
    (ofWord word help).bind [word] separator = .ok .empty := by
  have hparts : (ofWord word help).parts = [.word word] := rfl
  refine bind_eq_ok.2 (.inr ⟨by simp [hword], bindPositional_eq_ok.2 (.inl ⟨rfl, [], ?_, rfl⟩)⟩)
  rw [hparts, fill, Text.abbreviates_self, if_pos rfl]
  rfl

end Template

/-- Whether a word alone calls a command of the manifest. -/
def Manifest.AnswersTo (m : Manifest) (separator : Char) (word : String) : Prop :=
  ∃ e ∈ m.commands, ∃ t, e.template separator = .ok t ∧ t.AnswersTo word

theorem Manifest.answersTo_iff {m : Manifest} {separator : Char} {declared : List Template}
    (h : m.templates separator = .ok declared) {word : String} :
    m.AnswersTo separator word ↔ ∃ t ∈ declared, t.AnswersTo word := by
  constructor
  · rintro ⟨e, he, t, htemplate, hanswers⟩
    obtain ⟨t', ht', htemplate'⟩ := exists_template_of_templates h he
    exact ⟨t', ht', Except.ok.inj (htemplate.symm.trans htemplate') ▸ hanswers⟩
  · rintro ⟨t, ht, hanswers⟩
    obtain ⟨e, he, htemplate⟩ := exists_entry_of_templates h ht
    exact ⟨e, he, t, htemplate, hanswers⟩

namespace Session

variable {r : Report} {m : Manifest} {c : Commands Session} {word help : String} {id : Nat}

/-- A word that is its own token and calls one command of the session's own, which takes no
arguments. -/
structure Steers (id : Nat) (word help : String) : Prop where
  lines : Text.lines word = [word]
  read : Line.ofText ({} : Settings).sigil word = ⟨[word], false⟩
  not_named : (Argument.ofToken word).isNamed = false
  own : ownTemplates[id]? = some (.ofWord word help)
  only : ∀ x ∈ ownTemplates.zipIdx, x.1.AnswersTo word → x.2 = id

theorem steers_prompt : Steers 0 "prompt" "To enter commands from console" :=
  ⟨by decide, by decide, by decide, rfl, by decide⟩

theorem steers_exit : Steers 1 "exit" "To exit from console" :=
  ⟨by decide, by decide, by decide, rfl, by decide⟩

theorem steers_help : Steers 2 "help" "Describe every command" :=
  ⟨by decide, by decide, by decide, rfl, by decide⟩

theorem Steers.get?_eq (hword : Steers id word help) (h : repertoire r (some m) = .ok c) :
    c.catalog.get? id = some (.ofWord word help) := by
  obtain ⟨declared, -, htemplates⟩ := templates_of_repertoire h
  obtain ⟨hlt, -⟩ := List.getElem?_eq_some_iff.1 hword.own
  rw [Catalog.get?, htemplates, List.getElem?_append_left hlt, hword.own]

/-- Where no command of the manifest answers to the word, it is resolved without a question. -/
theorem Steers.resolve_eq (hword : Steers id word help) (h : repertoire r (some m) = .ok c)
    (hnone : ¬ m.AnswersTo r.separator word) {σ : Type} (chooser : Chooser σ) :
    c.catalog.resolve {} chooser word = pure (.ok (.matched ⟨id, .ofWord word help, .empty⟩)) := by
  have hbuilt := built_of_repertoire h
  have hsingle : (Text.lines word).length ≤ 1 := by rw [hword.lines, List.length_singleton]
  refine Catalog.resolve_of_unique hbuilt hsingle (by rw [hword.read]) (by rw [hword.read])
    hword.not_named ?_ chooser
  rintro ⟨id', t, b⟩
  constructor
  · rintro ⟨hid, hbind⟩
    have hanswers : t.AnswersTo word :=
      (Template.exists_bind_iff_answersTo (hbuilt t (List.mem_of_getElem? hid)).wellFormed
        hword.not_named).1 ⟨b, hbind⟩
    obtain rfl : id' = id := by
      obtain ⟨declared, hdeclared, htemplates⟩ := templates_of_repertoire h
      rw [Catalog.get?, htemplates] at hid
      rcases Nat.lt_or_ge id' ownTemplates.length with hlt | hge
      · rw [List.getElem?_append_left hlt] at hid
        exact hword.only (t, id') (List.mem_zipIdx_iff_getElem?.2 hid) hanswers
      · rw [List.getElem?_append_right hge] at hid
        exact absurd ((Manifest.answersTo_iff hdeclared).2
          ⟨t, List.mem_of_getElem? hid, hanswers⟩) hnone
    obtain rfl : t = .ofWord word help := Option.some.inj (hid.symm.trans (hword.get?_eq h))
    obtain rfl : b = .empty :=
      Except.ok.inj (hbind.symm.trans (Template.bind_ofWord help hword.not_named))
    rfl
  · rintro ⟨⟩
    exact ⟨hword.get?_eq h, Template.bind_ofWord help hword.not_named⟩

/-- Where one does, the word has at least two meanings. -/
theorem Steers.two_le_contenders (hword : Steers id word help)
    (h : repertoire r (some m) = .ok c) (hsome : m.AnswersTo r.separator word) :
    2 ≤ (c.catalog.contenders {} word).length := by
  obtain ⟨declared, hdeclared, htemplates⟩ := templates_of_repertoire h
  obtain ⟨t, ht, hanswers⟩ := (Manifest.answersTo_iff hdeclared).1 hsome
  obtain ⟨place, hplace⟩ := List.getElem?_of_mem ht
  have hget : c.catalog.get? (ownTemplates.length + place) = some t := by
    rw [Catalog.get?, htemplates, List.getElem?_append_right (Nat.le_add_right _ _),
      Nat.add_sub_cancel_left, hplace]
  have hbuilt := built_of_repertoire h
  obtain ⟨b, hbind⟩ := (Template.exists_bind_iff_answersTo
    (hbuilt t (List.mem_of_getElem? hget)).wellFormed hword.not_named).2 hanswers
  have hmem : ∀ n : Match, c.catalog.get? n.id = some n.template →
      n.template.bind [word] ',' = .ok n.binding → n ∈ c.catalog.contenders {} word :=
    fun n hid hbind => (Catalog.mem_contenders_iff_bind hbuilt (by rw [hword.read])
      hword.not_named).2 ⟨hid, hbind⟩
  have hfirst := hmem ⟨id, .ofWord word help, .empty⟩ (hword.get?_eq h)
    (Template.bind_ofWord help hword.not_named)
  have hsecond := hmem ⟨ownTemplates.length + place, t, b⟩ hget hbind
  obtain ⟨hlt, -⟩ := List.getElem?_eq_some_iff.1 hword.own
  obtain ⟨n, ms, hms⟩ := List.exists_cons_of_ne_nil (List.ne_nil_of_mem hfirst)
  have hmore : ms ≠ [] := by
    rintro rfl
    rw [hms, List.mem_singleton] at hfirst hsecond
    have hid : id = ownTemplates.length + place :=
      congrArg Match.id (hfirst.trans hsecond.symm)
    omega
  rw [hms, List.length_cons]
  exact Nat.succ_le_succ (List.length_pos_iff.2 hmore)

end Session

namespace Interpreter

variable {σ : Type} {i : Interpreter σ} {line : String} {m : Match}

theorem run_runLine_of_resolve
    (h : i.commands.catalog.resolve i.settings i.chooser line = pure (.ok (.matched m))) (st : σ) :
    (i.runLine line).run st =
      (.ofDispatch ((i.commands.dispatch m).run st).1, ((i.commands.dispatch m).run st).2) := by
  rw [runLine, h]
  rfl

end Interpreter

namespace Report

/-- Asked about all its identities, a catalog is described template by template. -/
theorem help_ids (r : Report) (c : Catalog) :
    r.help c c.ids = unlines (c.templates.flatMap r.helpLines) := by
  have hget : c.ids.map c.get? = c.templates.map some :=
    List.ext_getElem (by simp [Catalog.ids, Catalog.size]) fun id hid _ => by
      simp [Catalog.ids, Catalog.get?, List.getElem?_eq_getElem
        (show id < c.templates.length by simpa [Catalog.ids, Catalog.size] using hid)]
  have hall : c.ids.filterMap c.get? = c.templates :=
    calc c.ids.filterMap c.get? = (c.ids.map c.get?).filterMap id := by rw [List.filterMap_map]; rfl
      _ = c.templates := by rw [hget, List.filterMap_map]; exact List.filterMap_some
  rw [help, hall]

end Report

namespace Shell

variable {sh : Shell} {line : String}

theorem run_runLines_singleton (enter : Flow → StateM Session Progress) (st : Session) :
    (sh.runLines enter [line]).run st = (sh.runLine enter line).run st := by
  rw [runLines, run_bind]
  generalize (sh.runLine enter line).run st = ran
  obtain ⟨f | _ | _, st'⟩ := ran <;> rfl

/-- At the end of the input the prompt opens, finds no line and closes. -/
theorem run_prompt_of_end {st : Session} (h : st.input = []) :
    sh.prompt.run st = (.ok .proceed, { st with transcript := st.transcript ++
      [.opened, .wrote .question ">", .read [], .wrote .question "\n", .closed] }) := by
  obtain ⟨input, transcript, request, lastFailure⟩ := st
  obtain rfl : input = [] := h
  have hevents : transcript ++ [.opened, .wrote .question ">", .read [], .wrote .question "\n",
      .closed] = transcript ++ [.opened] ++ [.wrote .question ">"] ++ [.read []] ++
        [.wrote .question "\n"] ++ [.closed] := by simp
  rw [hevents]
  rfl

/-- What is done about the request that a handler left. -/
def comply (sh : Shell) (enter : Flow → StateM Session Progress) (flow : Flow) :
    StateM Session Progress := do
  match ← Session.takeRequest with
  | none => pure (.ok flow)
  | some .help => do
    sh.describe sh.catalog.ids
    pure (.ok flow)
  | some .prompt => enter flow

variable {m : Manifest} {id : Nat} {word help : String} {handler : Handler Session} {flow : Flow}
  {st st' : Session}

/-- A steering word to which no command of the manifest answers runs the session's own handler, and
then what this asked for is done. -/
theorem run_execute_of_steers (hword : Session.Steers id word help)
    (hcommands : Session.repertoire sh.report (some m) = .ok sh.interpreter.commands)
    (hsettings : sh.interpreter.settings = {}) (hnone : ¬ m.AnswersTo sh.report.separator word)
    (hown : (Session.ownCommands sh.report)[id]? = some ⟨.ofWord word help, handler⟩)
    (hran : (handler ⟨word, []⟩).run st = (.ok flow, st')) :
    (sh.execute word).run st =
      (sh.comply (fun _ => sh.prompt) flow).run (st'.record (.handled (.dispatched flow))) := by
  have hresolve : sh.interpreter.commands.catalog.resolve sh.interpreter.settings
      sh.interpreter.chooser word = pure (.ok (.matched ⟨id, .ofWord word help, .empty⟩)) := by
    rw [hsettings]
    exact hword.resolve_eq hcommands hnone sh.interpreter.chooser
  have hcommand : sh.interpreter.commands.list[id]? = some ⟨.ofWord word help, handler⟩ := by
    obtain ⟨declared, -, hlist⟩ := Session.list_of_repertoire hcommands
    obtain ⟨hlt, -⟩ := List.getElem?_eq_some_iff.1 hown
    rw [hlist, List.getElem?_append_left hlt, hown]
  have hdispatch : sh.interpreter.commands.dispatch ⟨id, .ofWord word help, .empty⟩ =
      handler ⟨word, []⟩ := by
    simp only [Commands.dispatch, hcommand]
    rfl
  rw [execute, hword.lines, run_runLines_singleton, runLine, run_bind,
    Interpreter.run_runLine_of_resolve hresolve, hdispatch, hran]
  rfl

theorem run_execute_of_error {f : Fault} (hlines : Text.lines line = [line])
    (h : sh.interpreter.commands.catalog.resolve sh.interpreter.settings sh.interpreter.chooser
      line = pure (.error f)) :
    (sh.execute line).run st = (do
      sh.tell (.failed f)
      sh.comply (fun _ => sh.prompt) .proceed : StateM Session Progress).run
        (st.record (.handled (.failed f))) := by
  rw [execute, hlines, run_runLines_singleton, runLine, run_bind, Interpreter.runLine, run_bind, h]
  rfl

/-- The words that steer a session do so, without a question and without a failure, unless a command
of the manifest answers to the word alone; then the word has several meanings. -/
theorem execute_steering
    (hcommands : Session.repertoire sh.report (some m) = .ok sh.interpreter.commands)
    (hsettings : sh.interpreter.settings = {}) (hidle : st.request = none) :
    (¬ m.AnswersTo sh.report.separator "exit" →
        (sh.execute "exit").run st = (.ok .exit, st.record (.handled (.dispatched .exit)))) ∧
      (¬ m.AnswersTo sh.report.separator "help" →
        (sh.execute "help").run st =
          (.ok .proceed, (st.record (.handled (.dispatched .proceed))).record
            (.wrote .result (unlines (sh.catalog.templates.flatMap sh.report.helpLines))))) ∧
      (¬ m.AnswersTo sh.report.separator "prompt" → st.input = [] →
        (sh.execute "prompt").run st =
          (.ok .proceed, { st with transcript := st.transcript ++ [.handled (.dispatched .proceed),
            .opened, .wrote .question ">", .read [], .wrote .question "\n", .closed] })) ∧
      ∀ word ∈ ["exit", "help", "prompt"], m.AnswersTo sh.report.separator word →
        2 ≤ (sh.catalog.contenders {} word).length := by
  obtain ⟨input, transcript, request, lastFailure⟩ := st
  obtain rfl : request = none := hidle
  refine ⟨fun hnone => ?_, fun hnone => ?_, fun hnone hinput => ?_, fun word hword hsome => ?_⟩
  · rw [run_execute_of_steers Session.steers_exit hcommands hsettings hnone rfl rfl]
    rfl
  · rw [run_execute_of_steers Session.steers_help hcommands hsettings hnone rfl rfl,
      ← Report.help_ids]
    rfl
  · obtain rfl : input = [] := hinput
    have hprompt : (sh.comply (fun _ => sh.prompt) .proceed).run
        (Session.record (.handled (.dispatched .proceed))
          ⟨[], transcript, some .prompt, lastFailure⟩) =
        sh.prompt.run ⟨[], transcript ++ [.handled (.dispatched .proceed)], none, lastFailure⟩ :=
      rfl
    rw [run_execute_of_steers Session.steers_prompt hcommands hsettings hnone rfl rfl, hprompt,
      run_prompt_of_end rfl, List.append_assoc]
    rfl
  · simp only [List.mem_cons, List.not_mem_nil, or_false] at hword
    rcases hword with rfl | rfl | rfl
    · exact Session.steers_exit.two_le_contenders hcommands hsome
    · exact Session.steers_help.two_le_contenders hcommands hsome
    · exact Session.steers_prompt.two_le_contenders hcommands hsome

end Shell

/-- Commands that begin like steering words but are not called by these alone: one has a second
word, the other needs an argument. -/
def Manifest.exitAll : Manifest := ⟨[
  ⟨"exit all", none, [], []⟩,
  ⟨"helpdesk \x7btopic\x7d", none, [⟨"topic", "string"⟩], []⟩]⟩

namespace Template

def exitAll : Template :=
  .ofParts "exit all" "" [] [.word "exit", .word "all"]

def helpdesk : Template :=
  .ofParts "helpdesk \x7btopic\x7d" "" [⟨"topic", .string⟩]
    [.word "helpdesk", .slot ⟨⟨"topic", .string⟩, "topic", none, ""⟩]

end Template

theorem Manifest.templates_exitAll :
    Manifest.exitAll.templates ',' = .ok [.exitAll, .helpdesk] := by
  have hbuild : Declaration.build ⟨"helpdesk \x7btopic\x7d", "", [⟨"topic", .string⟩], [], ','⟩ =
      .ok .helpdesk :=
    Declaration.build_of_laid (by decide) rfl (by decide) (by decide) rfl rfl rfl rfl
  exact mapM_eq_ok.2 (.cons rfl (.cons hbuild .nil))

namespace Shell

/-- The session's own commands with some of a manifest behind them, under default settings. -/
def withCommands (asking : Asking) (declared : List Template) : Shell :=
  let commands := Session.ownCommands {} ++ declared.map (⟨·, Session.echo {}⟩)
  ⟨⟨⟨commands⟩, {}, Session.chooser asking⟩, {}⟩

theorem ofManifest_eq_withCommands {m : Manifest} {declared : List Template}
    (h : m.templates ',' = .ok declared)
    (hpaths : ((Session.ownTemplates ++ declared).map (·.path)).Nodup) (asking : Asking) :
    ofManifest {} asking .text false (some m) = .ok (withCommands asking declared) :=
  bind_eq_ok.2 ⟨_, Session.repertoire_eq_ok.2 ⟨declared, h, hpaths, rfl⟩, rfl⟩

/-- The shell of the manifest above, where nobody is asked. -/
def helpdesk : Shell := withCommands .never [.exitAll, .helpdesk]

theorem ofManifest_helpdesk : ofManifest {} .never .text false (some .exitAll) = .ok helpdesk :=
  ofManifest_eq_withCommands Manifest.templates_exitAll (by decide) .never

/-- Beside such commands `help` describes them with all others, `prompt` opens and closes, and
`exit` ends the session. -/
theorem execute_help_prompt_exit :
    ∃ sh, ofManifest {} .numbered .text false (some .exitAll) = .ok sh ∧
      (sh.execute "help").run { input := [] } =
        (.ok .proceed, { input := [], transcript := [.handled (.dispatched .proceed),
          .wrote .result (unlines
            ((Session.ownTemplates ++ [Template.exitAll, Template.helpdesk]).flatMap
              (Report.helpLines {})))] }) ∧
      (sh.execute "prompt").run { input := [] } =
        (.ok .proceed, { input := [], transcript := [.handled (.dispatched .proceed), .opened,
          .wrote .question ">", .read [], .wrote .question "\n", .closed] }) ∧
      (sh.execute "exit").run { input := [] } =
        (.ok .exit, { input := [], transcript := [.handled (.dispatched .exit)] }) := by
  have hcommands : Session.repertoire {} (some .exitAll) =
      .ok (withCommands .numbered [.exitAll, .helpdesk]).interpreter.commands :=
    Session.repertoire_eq_ok.2 ⟨_, Manifest.templates_exitAll, by decide, rfl⟩
  have hnone : ∀ word ∈ ["exit", "help", "prompt"], ¬ Manifest.exitAll.AnswersTo ',' word := by
    intro word hword
    rw [Manifest.answersTo_iff Manifest.templates_exitAll]
    revert word
    decide
  obtain ⟨hexit, hhelp, hprompt, -⟩ :=
    @execute_steering (withCommands .numbered [.exitAll, .helpdesk]) .exitAll { input := [] }
      hcommands rfl rfl
  exact ⟨_, ofManifest_eq_withCommands Manifest.templates_exitAll (by decide) _,
    hhelp (hnone "help" (by decide)), hprompt (hnone "prompt" (by decide)) rfl,
    hexit (hnone "exit" (by decide))⟩

/-- A word of the manifest that `exit` begins makes `exit` ambiguous. -/
theorem execute_exit_ambiguous :
    ∃ sh, ofManifest {} .never .text false (some ⟨[⟨"exits", none, [], []⟩]⟩) = .ok sh ∧
      ((sh.execute "exit").run { input := [] }).1 = .ok .proceed ∧
      ((sh.execute "exit").run { input := [] }).2.lastFailure = some .ambiguous := by
  have htemplates : Manifest.templates ⟨[⟨"exits", none, [], []⟩]⟩ ',' =
      .ok [.ofWord "exits" ""] := rfl
  have hresolve : Catalog.resolve ⟨Session.ownTemplates ++ [.ofWord "exits" ""]⟩ {}
      Chooser.refuse "exit" = (pure (.error (.ambiguousCommand ["exit", "exits"])) :
        StateM Session (Except Fault Resolution)) := rfl
  have hran := @run_execute_of_error (withCommands .never [.ofWord "exits" ""]) "exit"
    { input := [] } _ (by decide) hresolve
  refine ⟨_, ofManifest_eq_withCommands htemplates (by decide) .never, ?_, ?_⟩
  · exact (congrArg Prod.fst hran).trans rfl
  · exact (congrArg (fun ran => ran.2.lastFailure) hran).trans rfl

end Shell

end Abbrev

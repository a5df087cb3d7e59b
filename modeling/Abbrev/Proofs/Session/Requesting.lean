import Abbrev.Proofs.Session.Repertoire

/-! What the commands of a session ask for. The one called `help` asks for help, the one called
`prompt` for the prompt, and both proceed; no other command asks for anything, and a manifest cannot
declare another of either name. -/

namespace Abbrev

namespace Request

/-- The path of the command that makes a request. -/
def path : Request → String
  | .prompt => "prompt"
  | .help => "help"

/-- The request that the command of a path makes. -/
def ofPath? (path : String) : Option Request :=
  if path = Request.path .prompt then some .prompt
  else if path = Request.path .help then some .help
  else none

theorem ofPath?_eq_some {path : String} {request : Request} :
    ofPath? path = some request ↔ path = request.path := by
  have hdistinct : Request.path .prompt ≠ Request.path .help := by decide
  rw [ofPath?]
  split_ifs with hprompt hhelp
  · subst hprompt
    cases request <;> simp [hdistinct]
  · subst hhelp
    cases request <;> simp [hdistinct.symm]
  · cases request <;> simp [hprompt, hhelp]

theorem ofPath?_eq_none {path : String} (h : path ∉ [Request.path .prompt, Request.path .help]) :
    ofPath? path = none := by
  rw [List.mem_cons, List.mem_singleton, not_or] at h
  rw [ofPath?, if_neg h.1, if_neg h.2]

end Request

namespace Session

/-- A handler that replaces the pending request by a given one, if there is one, and proceeds then.
-/
structure MakesRequest (handler : Handler Session) (request : Option Request) : Prop where
  request_eq : ∀ args st, ((handler args).run st).2.request = request.or st.request
  proceeds : request.isSome = true → ∀ args st, ((handler args).run st).1 = .ok .proceed

theorem makesRequest_enterPrompt : MakesRequest enterPrompt (some .prompt) :=
  ⟨fun _ _ => rfl, fun _ _ _ => rfl⟩

theorem makesRequest_leave : MakesRequest leave none := ⟨fun _ _ => rfl, nofun⟩

theorem makesRequest_describeAll : MakesRequest describeAll (some .help) :=
  ⟨fun _ _ => rfl, fun _ _ _ => rfl⟩

theorem makesRequest_echo (r : Report) : MakesRequest (echo r) none := ⟨fun _ _ => rfl, nofun⟩

theorem makesRequest_answering (r : Report) (answer : Arguments → Except Fault (String × Json)) :
    MakesRequest (answering r answer) none := by
  refine ⟨fun args st => ?_, nofun⟩
  rw [answering]
  cases answer args <;> rfl

variable {r : Report} {m : Manifest} {c : Commands Session} {command : Command Session}

theorem makesRequest_of_mem_ownCommands (h : command ∈ ownCommands r) :
    MakesRequest command.handler (Request.ofPath? command.template.path) := by
  simp only [ownCommands, List.mem_cons, List.not_mem_nil, or_false] at h
  rcases h with rfl | rfl | rfl | rfl | rfl
  · exact makesRequest_enterPrompt
  · exact makesRequest_leave
  · exact makesRequest_describeAll
  · exact makesRequest_answering r findUser
  · exact makesRequest_answering r countProducts

theorem makesRequest_of_repertoire (h : repertoire r (some m) = .ok c) :
    ∀ command ∈ c.list, MakesRequest command.handler (Request.ofPath? command.template.path) := by
  obtain ⟨declared, -, hnodup, rfl⟩ := repertoire_eq_ok.1 h
  rw [List.map_append] at hnodup
  intro command hcommand
  rw [List.mem_append, List.mem_map] at hcommand
  rcases hcommand with hown | ⟨t, ht, rfl⟩
  · exact makesRequest_of_mem_ownCommands hown
  · -- The paths of the manifest are none of the session's own.
    have hpaths : t.path ∉ ownTemplates.map (·.path) := fun hmem =>
      List.disjoint_of_nodup_append hnodup hmem (List.mem_map_of_mem ht)
    have howned : [Request.path .prompt, Request.path .help] ⊆ ownTemplates.map (·.path) := by
      decide
    have hnone := Request.ofPath?_eq_none fun hmem => hpaths (howned hmem)
    exact hnone ▸ makesRequest_echo r

end Session

end Abbrev

import Abbrev.Proofs.Commands.Running
import Abbrev.Proofs.Template.Building
import Mathlib.Data.Finset.Dedup
import Mathlib.Data.Finset.Insert

/-! Templates, the set of their paths and their handlers, each in a container of its own.
Registering fills one after the other and leaves off at the first when it finds the path taken.
However calls that succeed and calls that fail follow each other, the three containers together stay
the commands that were registered, so a call that fails might as well not have been made. -/

namespace Abbrev

namespace Catalog

/-- Templates in the order of their registration, and the set of their paths. -/
structure Store where
  templates : List Template
  paths : Finset String

namespace Store

/-- The path is put into the set first. If it was there already, the template is not added. -/
def add (t : Template) : StateM Store (Except Fault Nat) := do
  let known := (← get).paths
  modify fun s => { s with paths := insert t.path s.paths }
  if t.path ∈ known then return .error (.duplicateName .command t.path t.path)
  let id := (← get).templates.length
  modify fun s => { s with templates := s.templates ++ [t] }
  return .ok id

def addAll (ts : List Template) : StateM Store (List (Except Fault Nat)) := ts.mapM add

end Store

def store (c : Catalog) : Store := ⟨c.templates, c.paths.toFinset⟩

end Catalog

namespace Commands

/-- A catalog, and a handler for each of its templates. -/
structure Store (σ : Type) where
  catalog : Catalog.Store
  handlers : List (Handler σ)

variable {σ : Type}

namespace Store

/-- The template is added first. If that fails, the handler is not. -/
def register (call : Command σ) : StateM (Store σ) (Except Fault Nat) := do
  let answer ← modifyGet fun s =>
    let (answer, catalog) := (Catalog.Store.add call.template).run s.catalog
    (answer, { s with catalog := catalog })
  if let .ok _ := answer then
    modify fun s => { s with handlers := s.handlers ++ [call.handler] }
  return answer

def registerAll (calls : List (Command σ)) : StateM (Store σ) (List (Except Fault Nat)) :=
  calls.mapM register

/-- What each of some calls returns, the first of them made on empty containers. -/
def answers (calls : List (Command σ)) : List (Except Fault Nat) :=
  ((registerAll calls).run ⟨⟨[], ∅⟩, []⟩).1

/-- What the containers hold behind some calls. -/
def after (calls : List (Command σ)) : Store σ := ((registerAll calls).run ⟨⟨[], ∅⟩, []⟩).2

end Store

def store (c : Commands σ) : Store σ := ⟨c.catalog.store, c.list.map (·.handler)⟩

theorem paths_concat (c : Catalog) (t : Template) :
    Catalog.paths ⟨c.templates ++ [t]⟩ = c.paths ++ [t.path] := by
  rw [Catalog.paths, List.map_append]
  rfl

theorem catalog_concat (c : Commands σ) (call : Command σ) :
    catalog ⟨c.list ++ [call]⟩ = ⟨c.catalog.templates ++ [call.template]⟩ := by
  simp [catalog]

/-- Adding finds a path in the set exactly when a template has it, and the set stays that of the
templates' paths. -/
theorem run_add (c : Catalog) (t : Template) : (Catalog.Store.add t).run c.store =
    (c.freshId t.path,
      if t.path ∈ c.paths then c.store else Catalog.store ⟨c.templates ++ [t]⟩) := by
  by_cases h : t.path ∈ c.paths
  · have hpaths : insert t.path c.paths.toFinset = c.paths.toFinset :=
      Finset.insert_eq_of_mem (List.mem_toFinset.2 h)
    simp [Catalog.Store.add, Catalog.freshId, Catalog.store, h, hpaths]
    rfl
  · have hpaths : insert t.path c.paths.toFinset =
        (Catalog.paths ⟨c.templates ++ [t]⟩).toFinset := by
      ext path
      rw [paths_concat, Finset.mem_insert, List.mem_toFinset, List.mem_toFinset, List.mem_append,
        List.mem_singleton]
      exact or_comm
    simp [Catalog.Store.add, Catalog.freshId, Catalog.store, Catalog.size, h, hpaths]
    rfl

namespace Store

variable {s : Store σ} {call : Command σ} {catalog : Catalog.Store}

theorem run_register_of_error {f : Fault}
    (h : (Catalog.Store.add call.template).run s.catalog = (.error f, catalog)) :
    (register call).run s = (.error f, { s with catalog := catalog }) := by
  simp [register, h]
  rfl

theorem run_register_of_ok {id : Nat}
    (h : (Catalog.Store.add call.template).run s.catalog = (.ok id, catalog)) :
    (register call).run s = (.ok id, ⟨catalog, s.handlers ++ [call.handler]⟩) := by
  simp [register, h]
  rfl

/-- The catalog's containers are filled as if there were no handlers. -/
theorem run_add_catalog (s : Store σ) (call : Command σ) :
    (Catalog.Store.add call.template).run s.catalog =
      (((register call).run s).1, ((register call).run s).2.catalog) := by
  rcases h : (Catalog.Store.add call.template).run s.catalog with ⟨f | id, catalog⟩
  · rw [run_register_of_error h]
  · rw [run_register_of_ok h]

theorem run_addAll_catalog (s : Store σ) (calls : List (Command σ)) :
    (Catalog.Store.addAll (calls.map (·.template))).run s.catalog =
      (((registerAll calls).run s).1, ((registerAll calls).run s).2.catalog) := by
  induction calls generalizing s with
  | nil => rfl
  | cons call calls ih =>
    have hfirst := run_add_catalog s call
    have hrest := ih ((register call).run s).2
    rw [Catalog.Store.addAll] at hrest ⊢
    rw [List.map_cons, List.mapM_cons, run_bind, run_bind, hfirst, hrest]
    simp only [registerAll, List.mapM_cons, run_bind]
    rfl

theorem run_registerAll_append (s : Store σ) (calls more : List (Command σ)) :
    (registerAll (calls ++ more)).run s =
      (((registerAll calls).run s).1 ++ ((registerAll more).run ((registerAll calls).run s).2).1,
        ((registerAll more).run ((registerAll calls).run s).2).2) := by
  rw [registerAll, List.mapM_append]
  rfl

theorem run_registerAll_singleton (s : Store σ) (call : Command σ) :
    (registerAll [call]).run s = ([((register call).run s).1], ((register call).run s).2) := by
  rw [registerAll, List.mapM_cons]
  rfl

end Store

/-- Registering in the containers does what registering does. -/
theorem run_register (c : Commands σ) (call : Command σ) :
    (Store.register call).run c.store =
      (c.catalog.freshId call.template.path, (c.attempt call).store) := by
  have hadd := run_add c.catalog call.template
  by_cases h : call.template.path ∈ c.catalog.paths
  · rw [if_pos h, Catalog.freshId, if_pos (by simpa)] at hadd
    rw [attempt_of_mem h, Catalog.freshId, if_pos (by simpa)]
    exact Store.run_register_of_error hadd
  · rw [if_neg h, Catalog.freshId, if_neg (by simpa)] at hadd
    have hstore : store ⟨c.list ++ [call]⟩ =
        ⟨Catalog.store ⟨c.catalog.templates ++ [call.template]⟩,
          c.store.handlers ++ [call.handler]⟩ := by
      simp [store, catalog_concat]
    rw [attempt_of_not_mem h, Catalog.freshId, if_neg (by simpa), hstore]
    exact Store.run_register_of_ok hadd

theorem after_eq (calls : List (Command σ)) : Store.after calls = (ofCalls calls).store := by
  induction calls using List.reverseRecOn with
  | nil => rfl
  | append_singleton calls call ih =>
    rw [Store.after] at ih ⊢
    rw [Store.run_registerAll_append, Store.run_registerAll_singleton, ih, run_register,
      ofCalls_concat]

theorem answers_append (calls more : List (Command σ)) :
    Store.answers (calls ++ more) =
      Store.answers calls ++ ((Store.registerAll more).run (ofCalls calls).store).1 := by
  rw [← after_eq, Store.answers, Store.run_registerAll_append]
  rfl

theorem length_answers (calls : List (Command σ)) :
    (Store.answers calls).length = calls.length := by
  induction calls using List.reverseRecOn with
  | nil => rfl
  | append_singleton calls call ih =>
    rw [answers_append, Store.run_registerAll_singleton, List.length_append, ih]
    simp

/-- A call is answered in view of what the calls before it have left. -/
theorem getElem?_answers {calls : List (Command σ)} {j : Nat} {call : Command σ}
    (h : calls[j]? = some call) : (Store.answers calls)[j]? =
      some ((ofCalls (calls.take j)).catalog.freshId call.template.path) := by
  obtain ⟨hj, rfl⟩ := List.getElem?_eq_some_iff.1 h
  have hsplit : calls = calls.take j ++ ([calls[j]] ++ calls.drop (j + 1)) := by simp
  have hlength : (Store.answers (calls.take j)).length = j := by
    rw [length_answers, List.length_take_of_le (Nat.le_of_lt hj)]
  conv_lhs => rw [hsplit]
  rw [answers_append, List.getElem?_append_right (by omega), hlength, Nat.sub_self,
    Store.run_registerAll_append, Store.run_registerAll_singleton, run_register]
  rfl

theorem answers_eq_ok {calls : List (Command σ)} {j id : Nat} :
    (Store.answers calls)[j]? = some (.ok id) ↔ ∃ call, Registered calls j call id := by
  simp only [registered_iff]
  cases hcall : calls[j]? with
  | none =>
    have hnone : (Store.answers calls)[j]? = none := by
      rw [List.getElem?_eq_none_iff] at hcall ⊢
      rwa [length_answers]
    simp [hnone]
  | some call =>
    rw [getElem?_answers hcall]
    by_cases hpath : call.template.path ∈ (ofCalls (calls.take j)).catalog.paths
    · simp [Catalog.freshId, hpath]
    · simp [Catalog.freshId, hpath]

theorem paths_nodup (calls : List (Command σ)) : (ofCalls calls).catalog.paths.Nodup := by
  induction calls using List.reverseRecOn with
  | nil => exact List.nodup_nil
  | append_singleton calls call ih =>
    rw [ofCalls_concat]
    by_cases hpath : call.template.path ∈ (ofCalls calls).catalog.paths
    · rwa [attempt_of_mem hpath]
    · rw [attempt_of_not_mem hpath, catalog_concat, paths_concat]
      exact List.nodup_append.2 ⟨ih, List.nodup_singleton _, by grind⟩

/-- What holds of the containers behind some calls, and of a further call. -/
structure RegistersAtomically (calls : List (Command σ)) : Prop where
  paths_nodup : ((Store.after calls).catalog.templates.map (·.path)).Nodup
  mem_paths : ∀ path, path ∈ (Store.after calls).catalog.paths ↔
    ∃ t ∈ (Store.after calls).catalog.templates, t.path = path
  length_handlers :
    (Store.after calls).handlers.length = (Store.after calls).catalog.templates.length
  /-- Template and handler at one place are those of one call, which returned the place. -/
  belongs : ∀ (i : Nat) t h, (Store.after calls).catalog.templates[i]? = some t →
    (Store.after calls).handlers[i]? = some h →
    ∃ j : Nat, calls[j]? = some ⟨t, h⟩ ∧ (Store.answers calls)[j]? = some (.ok i)
  fails_iff : ∀ call, (∃ f, ((Store.register call).run (Store.after calls)).1 = .error f) ↔
    ∃ t ∈ (Store.after calls).catalog.templates, t.path = call.template.path
  /-- The path of a template is the declared one with single spaces between its words. -/
  fails_iff_normalPath : ∀ (call : Command σ) (d : Declaration), d.build = .ok call.template →
    ((∃ f, ((Store.register call).run (Store.after calls)).1 = .error f) ↔
      ∃ t ∈ (Store.after calls).catalog.templates, t.path = d.normalPath)
  failed : ∀ call f, ((Store.register call).run (Store.after calls)).1 = .error f →
    f = .duplicateName .command call.template.path call.template.path ∧
      ((Store.register call).run (Store.after calls)).2 = Store.after calls
  /-- Later calls are answered as if the failed one had not been made, and leave the same. -/
  skipped : ∀ call f later, ((Store.register call).run (Store.after calls)).1 = .error f →
    Store.after (calls ++ call :: later) = Store.after (calls ++ later) ∧
      ∃ answered, Store.answers (calls ++ later) = Store.answers calls ++ answered ∧
        Store.answers (calls ++ call :: later) = Store.answers calls ++ .error f :: answered
  /-- An identity once returned stands for the call's template and handler ever after. -/
  kept : ∀ j id : Nat, (Store.answers calls)[j]? = some (.ok id) → ∃ call, calls[j]? = some call ∧
    ∀ later, (Store.after (calls ++ later)).catalog.templates[id]? = some call.template ∧
      (Store.after (calls ++ later)).handlers[id]? = some call.handler ∧
      (ofCalls (calls ++ later)).catalog.get? id = some call.template ∧
      ∀ m args, m.id = id → Arguments.ofMatch m = .ok args →
        (ofCalls (calls ++ later)).dispatch m = call.handler args
  /-- The containers are those of the registered commands. -/
  after_eq : Store.after calls = (ofCalls calls).store
  register_eq : ∀ call, ((Store.register call).run (Store.after calls)).1 =
    ((ofCalls calls).register call.template call.handler).map fun _ => (ofCalls calls).catalog.size
  /-- Templates alone are added with the same answers and leave the same catalog. -/
  added_alike : (Catalog.Store.addAll (calls.map (·.template))).run ⟨[], ∅⟩ =
    (Store.answers calls, (Store.after calls).catalog)

theorem exists_freshId_eq_error {c : Catalog} {path : String} :
    (∃ f, c.freshId path = .error f) ↔ path ∈ c.paths := by
  by_cases h : path ∈ c.paths <;> simp [Catalog.freshId, h]

theorem map_register (c : Commands σ) (call : Command σ) :
    (c.register call.template call.handler).map (fun _ => c.catalog.size) =
      c.catalog.freshId call.template.path := by
  by_cases h : call.template.path ∈ c.catalog.paths
  · simp [register, Catalog.freshId, h, bind, Except.bind, Except.map]
  · simp [register, Catalog.freshId, h, bind, Except.bind, Except.map, pure, Except.pure]

theorem registersAtomically (calls : List (Command σ)) : RegistersAtomically calls := by
  have hanswer (call : Command σ) : ((Store.register call).run (Store.after calls)).1 =
      (ofCalls calls).catalog.freshId call.template.path := by
    rw [after_eq, run_register]
  have htaken (path : String) : path ∈ (ofCalls calls).catalog.paths ↔
      ∃ t ∈ (Store.after calls).catalog.templates, t.path = path := by
    rw [after_eq]
    exact List.mem_map
  have hfails (call : Command σ) :
      (∃ f, ((Store.register call).run (Store.after calls)).1 = .error f) ↔
        ∃ t ∈ (Store.after calls).catalog.templates, t.path = call.template.path := by
    rw [hanswer, exists_freshId_eq_error, htaken]
  constructor
  case paths_nodup =>
    rw [after_eq]
    exact Commands.paths_nodup calls
  case mem_paths =>
    intro path
    rw [← htaken, after_eq]
    exact List.mem_toFinset
  case length_handlers => simp [after_eq, store, Catalog.store, catalog]
  case belongs =>
    intro i t h ht hh
    simp only [after_eq, store, Catalog.store, catalog, List.getElem?_map,
      Option.map_eq_some_iff] at ht hh
    obtain ⟨command, hcommand, rfl⟩ := ht
    obtain ⟨_, hsame, rfl⟩ := hh
    obtain rfl := Option.some.inj (hcommand.symm.trans hsame)
    obtain ⟨j, hj⟩ := exists_registered hcommand
    exact ⟨j, hj.call_eq, answers_eq_ok.2 ⟨_, hj⟩⟩
  case fails_iff => exact hfails
  case fails_iff_normalPath =>
    intro call d hd
    obtain ⟨details, hb⟩ := Declaration.exists_buildsFrom hd
    rw [hfails, hb.path_eq]
  case failed =>
    intro call f hf
    have hpath := (htaken _).2 ((hfails call).1 ⟨f, hf⟩)
    rw [hanswer, Catalog.freshId, if_pos (by simpa)] at hf
    refine ⟨(Except.error.inj hf).symm, ?_⟩
    rw [after_eq, run_register, attempt_of_mem hpath]
  case skipped =>
    intro call f later hf
    have hpath := (htaken _).2 ((hfails call).1 ⟨f, hf⟩)
    have hcatalog : ofCalls (calls ++ call :: later) = ofCalls (calls ++ later) := by
      rw [ofCalls, ofCalls, List.foldl_append, List.foldl_append, List.foldl_cons]
      exact congrArg (later.foldl attempt) (attempt_of_mem hpath)
    refine ⟨by rw [after_eq, after_eq, hcatalog], _, answers_append calls later, ?_⟩
    rw [← List.singleton_append, answers_append, Store.run_registerAll_append,
      Store.run_registerAll_singleton, run_register, attempt_of_mem hpath, ← hanswer, hf]
    rfl
  case kept =>
    intro j id hid
    obtain ⟨call, hj⟩ := answers_eq_ok.1 hid
    refine ⟨call, hj.call_eq, fun later => ?_⟩
    have hlater := hj.append later
    have hget := hlater.getElem?_eq
    simp only [after_eq, store, Catalog.store, Catalog.get?, catalog, List.getElem?_map, hget,
      Option.map_some, true_and]
    rintro m args rfl hargs
    exact dispatch_of_registered hlater hargs
  case after_eq => exact Commands.after_eq calls
  case register_eq =>
    intro call
    rw [hanswer, map_register]
  case added_alike => exact Store.run_addAll_catalog ⟨⟨[], ∅⟩, []⟩ calls

end Commands

end Abbrev

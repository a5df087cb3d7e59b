import Abbrev.Proofs.Binding.Complete
import Abbrev.Proofs.Commands.Registration
import Abbrev.Proofs.Resolution.Ambiguity

/-! A match that was resolved is dispatched to the handler that was registered with its template,
and to no other, with a value of its type for each parameter in the order of their declaration.
Handlers that write down their runs count them. -/

namespace Abbrev

namespace Arguments

/-- For each parameter of a template, in the order of declaration, its name with a value of its
type, which is what asking for the name by that type gives. -/
structure Fit (a : Arguments) (t : Template) : Prop where
  path_eq : a.path = t.path
  entries : List.Forall₂ (fun p e =>
    e.1 = p.name ∧ e.2.HasType p.type ∧ a.get p.type.shape p.name = .ok e.2) t.params a.entries

theorem get_of_mem {a : Arguments} (hn : (a.entries.map (·.1)).Nodup) {name : String} {v : Value}
    (h : (name, v) ∈ a.entries) {wanted : Shape} (hv : wanted.admits v = true) :
    a.get wanted name = .ok v := by
  rw [get, (lookup_eq_some_iff_mem hn).2 h]
  simp only [ofShape, hv, if_true]

theorem ofMatch_eq_ok {m : Match} {a : Arguments} :
    ofMatch m = .ok a ↔
      a.path = m.template.path ∧
      List.Forall₂ (fun p e => e.1 = p.name ∧ m.binding.get? p.name = some e.2)
        m.template.params a.entries ∧
      ∀ name ∈ m.binding.names, ∃ p ∈ m.template.params, p.name = name := by
  have hextra : m.binding.names.find? (fun n => (m.template.param? n).isNone) = none ↔
      ∀ name ∈ m.binding.names, ∃ p ∈ m.template.params, p.name = name := by
    simp [List.find?_eq_none, Template.param?]
  unfold ofMatch
  constructor
  · intro h
    obtain ⟨es, hes, h⟩ := bind_eq_ok.1 h
    split at h
    · cases h
    · rename_i hnone
      cases h
      refine ⟨rfl, (mapM_eq_ok.1 hes).imp fun p e hpe => ?_, hextra.1 hnone⟩
      split at hpe
      · rename_i v hv
        cases hpe
        exact ⟨rfl, hv⟩
      · cases hpe
  · rintro ⟨hpath, hes, hnames⟩
    refine bind_eq_ok.2 ⟨a.entries, mapM_eq_ok.2 (hes.imp ?_), ?_⟩
    · rintro p ⟨name, v⟩ ⟨rfl, hv⟩
      simp only [hv]
    · simp only [hextra.2 hnames, ← hpath]

theorem exists_ofMatch {m : Match} (ht : m.template.WellFormed)
    (h : m.binding.Completes m.template) : ∃ a, ofMatch m = .ok a ∧ a.Fit m.template := by
  obtain ⟨es, hes⟩ := exists_forall₂ (R := fun p (e : String × Value) =>
      e.1 = p.name ∧ m.binding.get? p.name = some e.2 ∧ e.2.HasType p.type)
    fun p hp => (h.hasType p hp).elim fun v hv => ⟨(p.name, v), rfl, hv⟩
  have hnames : es.map (·.1) = m.template.params.map (·.name) :=
    map_eq_map_of_forall₂ (hes.imp fun _ _ hpe => hpe.1)
  have hnodup : (es.map (·.1)).Nodup := hnames ▸ ht.paramNames_nodup
  refine ⟨⟨m.template.path, es⟩, ofMatch_eq_ok.2 ⟨rfl, ?_, h.mem_params⟩, rfl, ?_⟩
  · exact hes.imp fun _ _ hpe => ⟨hpe.1, hpe.2.1⟩
  · obtain ⟨hlength, hzip⟩ := List.forall₂_iff_zip.1 hes
    refine List.forall₂_iff_zip.2 ⟨hlength, ?_⟩
    rintro p ⟨name, v⟩ hpe
    obtain ⟨hname, -, htype⟩ := hzip hpe
    obtain rfl : name = p.name := hname
    exact ⟨rfl, htype, get_of_mem hnodup (List.of_mem_zip hpe).2 htype⟩

end Arguments

/-- Handles as a handler does and writes down its number with what it was given. -/
def Handler.recorded {σ : Type} (h : Handler σ) (j : Nat) : Handler (σ × List (Nat × Arguments)) :=
  fun args st =>
    let ran := (h args).run st.1
    (ran.1, ran.2, st.2 ++ [(j, args)])

namespace Commands

variable {σ : Type} {calls : List (Command σ)}

/-- The same calls with handlers that write down each run under the number of their call. -/
def recordedCalls (calls : List (Command σ)) : List (Command (σ × List (Nat × Arguments))) :=
  calls.mapIdx fun j call => ⟨call.template, call.handler.recorded j⟩

theorem map_template_recordedCalls (calls : List (Command σ)) :
    (recordedCalls calls).map (·.template) = calls.map (·.template) := by
  refine List.ext_getElem? fun j => ?_
  rw [recordedCalls, List.getElem?_map, List.getElem?_map, List.getElem?_mapIdx, Option.map_map]
  rfl

theorem Registered.recorded {j : Nat} {call : Command σ} {id : Nat}
    (h : Registered calls j call id) :
    Registered (recordedCalls calls) j ⟨call.template, call.handler.recorded j⟩ id := by
  obtain ⟨hcall, hpath, hid⟩ := registered_iff.1 h
  have hcatalog : (ofCalls ((recordedCalls calls).take j)).catalog =
      (ofCalls (calls.take j)).catalog := by
    refine catalog_ofCalls_congr ?_
    rw [List.map_take, List.map_take, map_template_recordedCalls]
  refine registered_iff.2 ⟨?_, hcatalog ▸ hpath, hcatalog ▸ hid⟩
  simp [recordedCalls, hcall]

theorem dispatch_of_registered {j : Nat} {call : Command σ} {m : Match} {args : Arguments}
    (h : Registered calls j call m.id) (hargs : Arguments.ofMatch m = .ok args) :
    (ofCalls calls).dispatch m = call.handler args := by
  simp only [dispatch, h.getElem?_eq, hargs]

theorem exists_registered_of_get? {id : Nat} {t : Template}
    (h : (ofCalls calls).catalog.get? id = some t) :
    ∃ j call, Registered calls j call id ∧ call.template = t := by
  rw [Catalog.get?, catalog, List.getElem?_map, Option.map_eq_some_iff] at h
  obtain ⟨call, hcall, ht⟩ := h
  obtain ⟨j, hj⟩ := exists_registered hcall
  exact ⟨j, call, hj, ht⟩

/-- A resolved match runs the handler of the one call that registered its template, once, and no
other handler; the arguments fit the template, so dispatch adds no fault of its own. -/
theorem dispatch_of_matched {τ : Type} (hbuilt : ∀ call ∈ calls, call.template.Built) {s : Settings}
    {chooser : Chooser τ} {text : String} {st : τ} {m : Match}
    (h : (((ofCalls calls).catalog.resolve s chooser text).run st).1 = .ok (.matched m)) :
    ∃ j call args, Registered calls j call m.id ∧ call.template = m.template ∧
      (∀ k other id, Registered calls k other id → other.template.path = m.template.path → k = j) ∧
      args.Fit m.template ∧
      (ofCalls calls).dispatch m = call.handler args ∧
      ∀ ctx log, ((ofCalls (recordedCalls calls)).dispatch m).run (ctx, log) =
        (((call.handler args).run ctx).1, ((call.handler args).run ctx).2, log ++ [(j, args)]) := by
  obtain ⟨hid, hbind⟩ : (ofCalls calls).catalog.get? m.id = some m.template ∧
      m.template.bind (Line.ofText s.sigil text).tokens s.separator = .ok m.binding := by
    obtain ⟨hid, -, -, hbind⟩ :=
      (Catalog.mem_contenders ..).1 (Catalog.mem_contenders_of_resolve h)
    exact ⟨hid, hbind⟩
  obtain ⟨j, call, hj, ht⟩ := exists_registered_of_get? hid
  have hwell : m.template.WellFormed :=
    ht ▸ (hbuilt call (List.mem_of_getElem? hj.call_eq)).wellFormed
  obtain ⟨args, hargs, hfit⟩ :=
    Arguments.exists_ofMatch hwell (Template.completes_of_bind hwell hbind)
  refine ⟨j, call, args, hj, ht, ?_, hfit, dispatch_of_registered hj hargs, fun ctx log => ?_⟩
  · intro k other id hk hpath
    exact hk.unique hj (hpath.trans (congrArg Template.path ht.symm))
  · rw [dispatch_of_registered hj.recorded hargs]
    rfl

/-- In any table of built templates, a resolved match is dispatched to the handler behind its
template, with arguments that fit. -/
theorem exists_dispatch_eq {τ : Type} {c : Commands σ}
    (hbuilt : ∀ t ∈ c.catalog.templates, t.Built) {s : Settings} {chooser : Chooser τ}
    {text : String} {st : τ} {m : Match}
    (h : ((c.catalog.resolve s chooser text).run st).1 = .ok (.matched m)) :
    ∃ command ∈ c.list, command.template = m.template ∧
      ∃ args, args.Fit command.template ∧ c.dispatch m = command.handler args := by
  obtain ⟨hid, -, -, hbind⟩ := (Catalog.mem_contenders ..).1 (Catalog.mem_contenders_of_resolve h)
  have hwell := (hbuilt _ (List.mem_of_getElem? hid)).wellFormed
  obtain ⟨args, hargs, hfit⟩ :=
    Arguments.exists_ofMatch hwell (Template.completes_of_bind hwell hbind)
  rw [Catalog.get?, catalog, List.getElem?_map, Option.map_eq_some_iff] at hid
  obtain ⟨command, hcommand, htemplate⟩ := hid
  refine ⟨command, List.mem_of_getElem? hcommand, htemplate, args, htemplate ▸ hfit, ?_⟩
  simp only [dispatch, hcommand, hargs]

/-- A handler that writes down its mark. -/
def marked (mark : Nat) : Handler (List Nat) := fun _ => do
  modify (· ++ [mark])
  pure (.ok .proceed)

/-- The second call fails, so that the third gets the next identity. -/
def userCalls : List (Command (List Nat)) :=
  [⟨.listUsers, marked 0⟩, ⟨.listUsers, marked 1⟩, ⟨.findUser, marked 2⟩]

theorem dispatch_findUser : ∃ args, args.Fit .findUser ∧
    (ofCalls userCalls).dispatch ⟨1, .findUser, .ofList [("name", .scalar (.string "Bob")),
      ("age", .scalar (.int .i32 ⟨24, by decide⟩))]⟩ = marked 2 args := by
  have hbuilt : ∀ call ∈ userCalls, call.template.Built := by
    simp [userCalls, Template.built_listUsers, Template.built_findUser]
  have hresolved : (((ofCalls userCalls).catalog.resolve {} Chooser.refuse "u f n=Bob").run ()).1 =
      .ok (.matched ⟨1, .findUser, .ofList [("name", .scalar (.string "Bob")),
        ("age", .scalar (.int .i32 ⟨24, by decide⟩))]⟩) := rfl
  obtain ⟨j, call, args, hj, ht, hunique, hfit, hdispatch, -⟩ :=
    dispatch_of_matched hbuilt hresolved
  have hthird : Registered userCalls 2 ⟨.findUser, marked 2⟩ 1 := ⟨rfl, rfl, rfl⟩
  obtain rfl : 2 = j := hunique 2 _ 1 hthird rfl
  obtain rfl : _ = call := Option.some.inj hj.call_eq
  exact ⟨args, hfit, hdispatch⟩

end Commands

end Abbrev

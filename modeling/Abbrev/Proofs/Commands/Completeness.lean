import Abbrev.Proofs.Commands.Dispatch
import Abbrev.Proofs.Failing

/-! Whatever a match binds, its command runs exactly when each parameter has a value and nothing
else has one. Otherwise nothing runs, and the fault names the first parameter without a value, or else
the least name that is no parameter. -/

namespace Abbrev

namespace Template

def paramNames (t : Template) : List String := t.params.map (·.name)

theorem param?_eq_none {t : Template} {name : String} :
    t.param? name = none ↔ name ∉ t.paramNames := by
  simp [param?, paramNames, List.find?_eq_none]

end Template

namespace Binding

/-- The names with a value are those of the parameters. -/
def Covers (b : Binding) (t : Template) : Prop :=
  ∀ name, name ∈ b.names ↔ name ∈ t.paramNames

/-- The name for which a binding is no complete one. Parameters come first, in the order of their
declaration; names that are none come behind, in the order of their characters. -/
inductive Faulted (b : Binding) (t : Template) : String → Prop
  | unbound {before after : List Param} {p : Param} (split : t.params = before ++ p :: after)
    (earlier : ∀ q ∈ before, q.name ∈ b.names) (missing : p.name ∉ b.names) : Faulted b t p.name
  | extra {name : String} (bound : ∀ p ∈ t.params, p.name ∈ b.names) (mem : name ∈ b.names)
    (foreign : name ∉ t.paramNames)
    (least : ∀ other ∈ b.names, other ∉ t.paramNames → name ≤ other) : Faulted b t name

variable {b : Binding} {t : Template}

theorem get?_eq_none {name : String} : b.get? name = none ↔ name ∉ b.names := by
  rw [mem_names, Option.eq_none_iff_forall_ne_some, not_exists]

/-- The names come in their order, so that the first of a kind is the least. -/
theorem find?_names_eq_some {q : String → Bool} {name : String} :
    b.names.find? q = some name ↔
      name ∈ b.names ∧ q name = true ∧ ∀ other ∈ b.names, q other = true → name ≤ other := by
  have hsorted : b.names.Pairwise (· < ·) := List.pairwise_map.2 b.sorted
  rw [List.find?_eq_some_iff_append]
  constructor
  · rintro ⟨hq, before, after, hsplit, hbefore⟩
    rw [hsplit] at hsorted ⊢
    obtain ⟨-, hafter, -⟩ := List.pairwise_append.1 hsorted
    refine ⟨List.mem_append_right _ List.mem_cons_self, hq, fun other hother hqo => ?_⟩
    rcases List.mem_append.1 hother with hearly | hlate
    · exact absurd hqo (by simpa using hbefore other hearly)
    · rcases List.mem_cons.1 hlate with rfl | hlate
      · exact String.le_refl _
      · exact String.not_lt.1 (String.lt_asymm (List.rel_of_pairwise_cons hafter hlate))
  · rintro ⟨hmem, hq, hleast⟩
    obtain ⟨before, after, hsplit⟩ := List.append_of_mem hmem
    refine ⟨hq, before, after, hsplit, fun other hother => ?_⟩
    rw [hsplit] at hsorted hleast
    have hlt : other < name :=
      (List.pairwise_append.1 hsorted).2.2 other hother name List.mem_cons_self
    rw [Bool.not_eq_true']
    refine Bool.eq_false_iff.2 fun hqo => ?_
    exact String.not_lt.2 (hleast other (List.mem_append_left _ hother) hqo) hlt

end Binding

/-- A parameter with its value, which is what a handler is given of it. -/
def Match.entry (m : Match) (p : Param) : Except Fault (String × Value) :=
  match m.binding.get? p.name with
  | some v => .ok (p.name, v)
  | none => .error (.incompleteBinding m.template.path p.name)

namespace Arguments

variable {m : Match}

theorem exists_ofMatch_iff : (∃ a, ofMatch m = .ok a) ↔ m.binding.Covers m.template := by
  simp only [ofMatch_eq_ok]
  constructor
  · rintro ⟨a, -, hentries, hnames⟩ name
    refine ⟨fun hname => ?_, fun hname => ?_⟩
    · obtain ⟨p, hp, rfl⟩ := hnames name hname
      exact List.mem_map_of_mem hp
    · obtain ⟨p, hp, rfl⟩ := List.mem_map.1 hname
      obtain ⟨e, -, -, hv⟩ := exists_of_forall₂ hentries hp
      exact Binding.mem_names.2 ⟨_, hv⟩
  · intro h
    have hvalue (p : Param) (hp : p ∈ m.template.params) :
        ∃ e : String × Value, e.1 = p.name ∧ m.binding.get? p.name = some e.2 := by
      obtain ⟨v, hv⟩ := Binding.mem_names.1 ((h p.name).2 (List.mem_map_of_mem hp))
      exact ⟨(p.name, v), rfl, hv⟩
    obtain ⟨es, hes⟩ := exists_forall₂ hvalue
    exact ⟨⟨m.template.path, es⟩, rfl, hes, fun name hname => List.mem_map.1 ((h name).1 hname)⟩

theorem entry_eq_error {p : Param} {f : Fault} :
    m.entry p = .error f ↔
      p.name ∉ m.binding.names ∧ f = .incompleteBinding m.template.path p.name := by
  rw [Match.entry, ← Binding.get?_eq_none]
  cases m.binding.get? p.name <;> simp [eq_comm]

theorem exists_entry_iff {p : Param} : (∃ e, m.entry p = .ok e) ↔ p.name ∈ m.binding.names := by
  rw [Match.entry, Binding.mem_names]
  cases m.binding.get? p.name <;> simp

theorem ofMatch_eq_error {f : Fault} :
    ofMatch m = .error f ↔ ∃ name, m.binding.Faulted m.template name ∧
      f = .incompleteBinding m.template.path name := by
  change (m.template.params.mapM m.entry >>= _) = .error f ↔ _
  rw [bind_eq_error, mapM_eq_error]
  constructor
  · rintro (⟨before, p, after, hparams, hbefore, hp⟩ | ⟨es, hes, hextra⟩)
    · obtain ⟨hmissing, rfl⟩ := entry_eq_error.1 hp
      exact ⟨p.name, .unbound hparams (fun q hq => exists_entry_iff.1 (hbefore q hq)) hmissing, rfl⟩
    · split at hextra
      · rename_i extra hfind
        cases hextra
        obtain ⟨hmem, hforeign, hleast⟩ := Binding.find?_names_eq_some.1 hfind
        simp only [Option.isNone_iff_eq_none, Template.param?_eq_none] at hforeign hleast
        refine ⟨extra, .extra (fun p hp => ?_) hmem hforeign hleast, rfl⟩
        obtain ⟨e, -, he⟩ := exists_of_forall₂ (mapM_eq_ok.1 hes) hp
        exact exists_entry_iff.1 ⟨e, he⟩
      · cases hextra
  · rintro ⟨name, hname, rfl⟩
    cases hname with
    | @unbound before after p hparams hearlier hmissing =>
      exact .inl ⟨before, p, after, hparams, fun q hq => exists_entry_iff.2 (hearlier q hq),
        entry_eq_error.2 ⟨hmissing, rfl⟩⟩
    | extra hbound hmem hforeign hleast =>
      obtain ⟨es, hes⟩ := exists_forall₂ fun p hp => exists_entry_iff.2 (hbound p hp)
      have hfind : m.binding.names.find? (fun n => (m.template.param? n).isNone) = some name := by
        refine Binding.find?_names_eq_some.2 ⟨hmem, ?_, ?_⟩
        · simpa only [Option.isNone_iff_eq_none, Template.param?_eq_none] using hforeign
        · simpa only [Option.isNone_iff_eq_none, Template.param?_eq_none] using hleast
      exact .inr ⟨es, mapM_eq_ok.2 hes, by simp only [hfind]⟩

/-- A binding is complete or there is a name for which it is not, but never both. -/
theorem exists_faulted_iff :
    (∃ name, m.binding.Faulted m.template name) ↔ ¬ m.binding.Covers m.template := by
  rw [← exists_ofMatch_iff]
  cases h : ofMatch m with
  | ok a =>
    refine iff_of_false (fun ⟨name, hname⟩ => ?_) (not_not_intro ⟨a, rfl⟩)
    cases h.symm.trans (ofMatch_eq_error.2 ⟨name, hname, rfl⟩)
  | error f =>
    obtain ⟨name, hname, -⟩ := ofMatch_eq_error.1 h
    exact iff_of_true ⟨name, hname⟩ (by rintro ⟨a, ⟨⟩⟩)

end Arguments

namespace Commands

variable {σ : Type}

/-- The same commands with handlers that write down each run under the place of their command. -/
def recorded (c : Commands σ) : Commands (σ × List (Nat × Arguments)) :=
  ⟨c.list.mapIdx fun i command => ⟨command.template, command.handler.recorded i⟩⟩

theorem getElem?_recorded {c : Commands σ} {i : Nat} {command : Command σ}
    (h : c.list[i]? = some command) :
    c.recorded.list[i]? = some ⟨command.template, command.handler.recorded i⟩ := by
  rw [recorded, List.getElem?_mapIdx, h, Option.map_some]

theorem dispatch_of_ofMatch {c : Commands σ} {m : Match} {command : Command σ}
    (h : c.list[m.id]? = some command) {args : Arguments} (hargs : Arguments.ofMatch m = .ok args) :
    c.dispatch m = command.handler args := by
  simp only [dispatch, h, hargs]

theorem dispatch_of_ofMatch_error {c : Commands σ} {m : Match} {command : Command σ}
    (h : c.list[m.id]? = some command) {f : Fault} (hf : Arguments.ofMatch m = .error f) :
    c.dispatch m = pure (.error (.ofFault f)) := by
  simp only [dispatch, h, hf]

/-- What dispatching a match does. Runs are read off the record that the handlers write. -/
structure DispatchesComplete (c : Commands σ) (m : Match) : Prop where
  runs_iff : ∀ ctx log, ((c.recorded.dispatch m).run (ctx, log)).2.2 ≠ log ↔
    m.binding.Covers m.template
  /-- The template's own handler runs once, with the values in the order of declaration. -/
  handled : m.binding.Covers m.template → ∃ command args, c.list[m.id]? = some command ∧
    command.template = m.template ∧ args.path = m.template.path ∧
    args.entries.map (·.1) = m.template.paramNames ∧
    args.values.map some = m.template.params.map (fun p => m.binding.get? p.name) ∧
    c.dispatch m = command.handler args ∧
    ∀ ctx log, (c.recorded.dispatch m).run (ctx, log) =
      (((command.handler args).run ctx).1, ((command.handler args).run ctx).2, log ++ [(m.id, args)])
  faulted_iff : (∃ name, m.binding.Faulted m.template name) ↔ ¬ m.binding.Covers m.template
  /-- No handler runs and the state stays. -/
  refused : ∀ name, m.binding.Faulted m.template name →
    let failure := Failure.ofFault (.incompleteBinding m.template.path name)
    (∀ ctx, (c.dispatch m).run ctx = (.error failure, ctx)) ∧
    ∀ ctx log, (c.recorded.dispatch m).run (ctx, log) = (.error failure, ctx, log)

theorem dispatchesComplete {c : Commands σ} {m : Match}
    (h : c.catalog.get? m.id = some m.template) : c.DispatchesComplete m := by
  obtain ⟨command, hcommand, ht⟩ : ∃ command, c.list[m.id]? = some command ∧
      command.template = m.template := by
    rwa [Catalog.get?, catalog, List.getElem?_map, Option.map_eq_some_iff] at h
  have hhandled {args : Arguments} (hargs : Arguments.ofMatch m = .ok args) (ctx : σ)
      (log : List (Nat × Arguments)) : (c.recorded.dispatch m).run (ctx, log) =
        (((command.handler args).run ctx).1, ((command.handler args).run ctx).2,
          log ++ [(m.id, args)]) := by
    rw [dispatch_of_ofMatch (getElem?_recorded hcommand) hargs]
    rfl
  have hrefused {f : Fault} (hf : Arguments.ofMatch m = .error f) (ctx : σ)
      (log : List (Nat × Arguments)) :
      (c.recorded.dispatch m).run (ctx, log) = (.error (.ofFault f), ctx, log) := by
    rw [dispatch_of_ofMatch_error (getElem?_recorded hcommand) hf]
    rfl
  constructor
  case runs_iff =>
    intro ctx log
    rw [← Arguments.exists_ofMatch_iff]
    cases hargs : Arguments.ofMatch m with
    | ok args => simp [hhandled hargs]
    | error f => simp [hrefused hargs]
  case handled =>
    intro hcovers
    obtain ⟨args, hargs⟩ := Arguments.exists_ofMatch_iff.2 hcovers
    obtain ⟨hpath, hentries, -⟩ := Arguments.ofMatch_eq_ok.1 hargs
    have hnames : args.entries.map (·.1) = m.template.paramNames :=
      map_eq_map_of_forall₂ (hentries.imp fun _ _ he => he.1)
    have hvalues : args.entries.map (fun e => some e.2) =
        m.template.params.map fun p => m.binding.get? p.name :=
      map_eq_map_of_forall₂ (hentries.imp fun _ _ he => he.2.symm)
    refine ⟨command, args, hcommand, ht, hpath, hnames, ?_, dispatch_of_ofMatch hcommand hargs,
      hhandled hargs⟩
    rw [Arguments.values, List.map_map]
    exact hvalues
  case faulted_iff => exact Arguments.exists_faulted_iff
  case refused =>
    intro name hname
    have hf := Arguments.ofMatch_eq_error.2 ⟨name, hname, rfl⟩
    refine ⟨fun ctx => ?_, hrefused hf⟩
    rw [dispatch_of_ofMatch_error hcommand hf]
    rfl

/-- A parameter is without a value, and a value without a parameter. -/
def townOfBob : Binding :=
  .ofList [("town", .scalar (.string "Ulm")), ("name", .scalar (.string "Bob"))]

theorem dispatch_townOfBob :
    (ofCalls userCalls).catalog.get? 1 = some .findUser ∧
    (ofCalls userCalls).DispatchesComplete ⟨1, .findUser, townOfBob⟩ ∧
    ∀ ctx, ((ofCalls userCalls).dispatch ⟨1, .findUser, townOfBob⟩).run ctx =
      (.error (.ofFault (.incompleteBinding "user find \x7bname\x7d \x7bage\x7d" "age")), ctx) := by
  have hdispatches : (ofCalls userCalls).DispatchesComplete ⟨1, .findUser, townOfBob⟩ :=
    dispatchesComplete rfl
  have hage : townOfBob.Faulted .findUser "age" :=
    @Binding.Faulted.unbound townOfBob .findUser [⟨"name", .one .string⟩] []
      ⟨"age", .one (.int .i32)⟩ rfl (by decide) (by decide)
  exact ⟨rfl, hdispatches, (hdispatches.refused "age" hage).1⟩

end Commands

end Abbrev

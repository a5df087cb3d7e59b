import Abbrev.Proofs.Binding.Reasons
import Abbrev.Proofs.Resolution.Contenders
import Abbrev.Proofs.Template.WellFormed

/-! What is told of a line without meaning. Among the templates that pass both filters only the one
registered last is asked why it does not bind; what it has to report is told, or else that the text
names no command. So the order of registration decides what is told, and it can be any template's
report. -/

namespace Abbrev

/-- The fault of a text for which a template was tried last and refused. -/
def Rejection.told (text : String) (r : Rejection) : Fault :=
  r.fault?.getD (.commandNotFound (Text.trim text))

theorem lastReport?_of_getLast? {separator : Char} {tokens : List String}
    {candidates : List (Template × Nat)} {t : Template} {r : Rejection}
    (hlast : (candidates.map (·.1)).getLast? = some t) (hr : t.bind tokens separator = .error r) :
    lastReport? separator tokens candidates = r.fault? := by
  rw [List.getLast?_map, Option.map_eq_some_iff] at hlast
  obtain ⟨⟨t, id⟩, hlast, rfl⟩ := hlast
  simp only [lastReport?, hlast, Option.bind_some, hr]

theorem failsOnly_meanings (s : Settings) (text : String) (tokens : List String)
    (candidates : List (Template × Nat)) :
    FailsOnly (fun f => f.OfArguments ∨ f = .commandNotFound (Text.trim text))
      (meanings s text tokens candidates) := by
  unfold meanings
  split
  · exact .ok _
  · refine .error ?_
    cases hreport : lastReport? s.separator tokens candidates with
    | none => exact .inr rfl
    | some f =>
      obtain ⟨⟨t, id⟩, -, ht⟩ := Option.bind_eq_some_iff.1 hreport
      dsimp only at ht
      split at ht
      · cases ht
      · rename_i r hr
        exact .inl (Template.failsOnly_bind t tokens s.separator r hr f ht)

theorem survivors_eq_nil_iff {separator : Char} {tokens : List String}
    {candidates : List (Template × Nat)} :
    survivors separator tokens candidates = [] ↔
      ∀ t ∈ candidates.map (·.1), ∃ r, t.bind tokens separator = .error r := by
  rw [survivors, List.filterMap_eq_nil_iff, List.forall_mem_map]
  refine forall₂_congr fun p _ => ?_
  cases hbind : p.1.bind tokens separator <;> simp [hbind]

namespace Catalog

variable {c : Catalog} {s : Settings} {text : String}

/-- Whether a template passes both filters in front of the binders. -/
def admits (tokens : List String) (t : Template) : Bool :=
  match tokens with
  | [] => false
  | first :: _ => Text.abbreviates first t.firstWord && tokens.length ≤ t.parts.length

theorem map_fst_fitting (c : Catalog) (tokens : List String) :
    (c.fitting tokens).map (·.1) = c.templates.filter (admits tokens) := by
  cases tokens with
  | nil => simp [fitting, admits]
  | cons first rest =>
    have hfst : c.templates = c.templates.zipIdx.map Prod.fst := (List.zipIdx_map_fst 0 _).symm
    conv_rhs => rw [hfst, List.filter_map]
    rw [fitting, candidates, List.filter_filter]
    refine congrArg _ (List.filter_congr ?_)
    rintro ⟨t, id⟩ -
    exact Bool.and_comm _ _

/-- A text of one line is never taken for several. -/
theorem read_ne_multipleLines (hsingle : (Text.lines text).length ≤ 1) (n : Nat) :
    c.read s text ≠ .error (.multipleLines n) := by
  cases hhelp : (Line.ofText s.sigil text).help with
  | true =>
    rw [read_of_help hsingle hhelp]
    cases (Line.ofText s.sigil text).tokens.head? with
    | none => rintro ⟨⟩
    | some first =>
      rw [helpOn]
      split <;> rintro ⟨⟩
  | false =>
    cases htokens : (Line.ofText s.sigil text).tokens with
    | nil =>
      simp only [read, Nat.not_lt.2 hsingle, if_false, htokens, hhelp]
      rintro ⟨⟩
    | cons first rest =>
      rw [read_of_tokens hsingle hhelp htokens]
      split
      · rintro ⟨⟩
      · split
        · rintro ⟨⟩
        · intro hfault
          obtain h | h := failsOnly_meanings _ _ _ _ _ hfault <;> cases h

/-- The templates that pass both filters for a text, in the order of registration. -/
def admitted (c : Catalog) (s : Settings) (text : String) : List Template :=
  c.templates.filter (admits (Line.ofText s.sigil text).tokens)

end Catalog

/-- Why a template does not bind a text. -/
def Template.Rejects (t : Template) (s : Settings) (text : String) (r : Rejection) : Prop :=
  t.bind (Line.ofText s.sigil text).tokens s.separator = .error r

namespace Catalog

variable {c : Catalog} {s : Settings} {text : String}

theorem contenders_eq_nil_iff :
    c.contenders s text = [] ↔ ∀ t ∈ c.admitted s text, ∃ r, t.Rejects s text r := by
  rw [contenders, survivors_eq_nil_iff, map_fst_fitting]
  rfl

/-- Where nothing binds, the last template that passed the filters decides what is told. -/
theorem read_of_unbound (hsingle : (Text.lines text).length ≤ 1)
    (hhelp : (Line.ofText s.sigil text).help = false) (hnone : c.contenders s text = [])
    {t : Template} {r : Rejection} (hlast : (c.admitted s text).getLast? = some t)
    (hr : t.Rejects s text r) : c.read s text = .error (r.told text) := by
  rw [admitted, ← map_fst_fitting] at hlast
  cases htokens : (Line.ofText s.sigil text).tokens with
  | nil => simp [htokens, fitting] at hlast
  | cons first rest =>
    rw [Template.Rejects, htokens] at hr
    rw [htokens] at hlast
    rw [contenders, htokens] at hnone
    have hfitting : c.fitting (first :: rest) ≠ [] := by
      intro hnil
      simp [hnil] at hlast
    have hcandidates : c.candidates first ≠ [] := by
      intro hnil
      simp [fitting, hnil] at hfitting
    rw [read_of_tokens hsingle hhelp htokens]
    simp only [List.isEmpty_iff, hcandidates, hfitting, if_false, meanings, hnone,
      lastReport?_of_getLast? hlast hr]
    rfl

/-- Some order of registration puts any given template last. -/
theorem exists_perm_getLast? {t : Template} (ht : t ∈ c.admitted s text) :
    ∃ c' : Catalog, c'.templates.Perm c.templates ∧ (c'.admitted s text).getLast? = some t := by
  obtain ⟨ht, hadmits⟩ := List.mem_filter.1 ht
  obtain ⟨before, after, hsplit⟩ := List.append_of_mem ht
  refine ⟨⟨before ++ after ++ [t]⟩, ?_, ?_⟩
  · rw [hsplit]
    exact (List.perm_append_singleton t (before ++ after)).trans List.perm_middle.symm
  · rw [admitted, List.filter_append, List.filter_singleton, hadmits, cond_true,
      List.getLast?_concat]

theorem resolve_of_unbound (hsingle : (Text.lines text).length ≤ 1)
    (hhelp : (Line.ofText s.sigil text).help = false) (hnone : c.contenders s text = [])
    {c' : Catalog} (hperm : c'.templates.Perm c.templates) {t : Template} {r : Rejection}
    (hlast : (c'.admitted s text).getLast? = some t) (hr : t.Rejects s text r) {σ : Type}
    (chooser : Chooser σ) : c'.resolve s chooser text = pure (.error (r.told text)) := by
  have hnone' : c'.contenders s text = [] :=
    contenders_eq_nil_iff.2 fun u hu =>
      contenders_eq_nil_iff.1 hnone u ((hperm.filter _).mem_iff.1 hu)
  exact resolve_of_error chooser (read_of_unbound hsingle hhelp hnone' hlast hr)

/-- What is told of a line that nothing binds is, in each order of registration, what the last
template that passed the filters has to report, or else that there is no such command; and what any
of them has to report is told in some order. -/
theorem resolve_of_unbound_reordered (hsingle : (Text.lines text).length ≤ 1)
    (hhelp : (Line.ofText s.sigil text).help = false) (hnone : c.contenders s text = [])
    (hsome : c.admitted s text ≠ []) :
    (∀ c' : Catalog, c'.templates.Perm c.templates →
        ∃ t r, (c'.admitted s text).getLast? = some t ∧ t.Rejects s text r ∧
          ∀ (σ : Type) (chooser : Chooser σ),
            c'.resolve s chooser text = pure (.error (r.told text))) ∧
      ∀ t ∈ c.admitted s text, ∃ r, t.Rejects s text r ∧ r.OfArguments ∧
        ∃ c' : Catalog, c'.templates.Perm c.templates ∧
          ∀ (σ : Type) (chooser : Chooser σ),
            c'.resolve s chooser text = pure (.error (r.told text)) := by
  have hrejects := contenders_eq_nil_iff.1 hnone
  constructor
  · intro c' hperm
    have hadmitted : (c'.admitted s text).Perm (c.admitted s text) := hperm.filter _
    have hne : c'.admitted s text ≠ [] := fun hnil => hsome (hnil ▸ hadmitted).nil_eq.symm
    obtain ⟨r, hr⟩ := hrejects _ (hadmitted.mem_iff.1 (List.getLast_mem hne))
    have hlast := List.getLast?_eq_some_getLast hne
    exact ⟨_, r, hlast, hr, fun σ => resolve_of_unbound hsingle hhelp hnone hperm hlast hr⟩
  · intro t ht
    obtain ⟨r, hr⟩ := hrejects t ht
    obtain ⟨c', hperm, hlast⟩ := exists_perm_getLast? ht
    exact ⟨r, hr, Template.failsOnly_bind t _ _ r hr, c', hperm,
      fun σ => resolve_of_unbound hsingle hhelp hnone hperm hlast hr⟩

end Catalog

/-- Two commands of the same length, of which one takes a number. -/
def Declaration.setNumber : Declaration where
  path := "set \x7bn\x7d"
  params := [⟨"n", .one (.int .i32)⟩]

def Declaration.setAll : Declaration where
  path := "set all"

namespace Template

def setNumber : Template :=
  .ofParts "set \x7bn\x7d" "" [⟨"n", .one (.int .i32)⟩]
    [.word "set", .slot ⟨⟨"n", .one (.int .i32)⟩, "n", none, ""⟩]

def setAll : Template :=
  .ofParts "set all" "" [] [.word "set", .word "all"]

theorem built_setNumber : setNumber.Built :=
  ⟨.setNumber, Declaration.build_of_laid (by decide) rfl (by decide) (by decide) rfl rfl rfl rfl⟩

theorem built_setAll : setAll.Built := ⟨.setAll, rfl⟩

end Template

namespace Catalog

/-- A text that is no number is reported when the command that takes one is registered last. -/
theorem resolve_setNumber_last :
    ∃ r, Template.setNumber.Rejects {} "set x" r ∧
      r.told "set x" = .incorrectArgumentType "n" (.one (.int .i32)) ∧
      ∃ c' : Catalog, c'.templates.Perm [Template.setNumber, .setAll] ∧
        ∀ (σ : Type) (chooser : Chooser σ),
          c'.resolve {} chooser "set x" = pure (.error (r.told "set x")) := by
  obtain ⟨-, htold⟩ := @resolve_of_unbound_reordered ⟨[.setNumber, .setAll]⟩ {} "set x"
    (by decide) (by decide) rfl (List.cons_ne_nil _ _)
  obtain ⟨r, hr, -, horder⟩ := htold .setNumber List.mem_cons_self
  have hreport : r = .report (.incorrectArgumentType "n" (.one (.int .i32))) := by
    cases hr
    rfl
  exact ⟨r, hr, hreport ▸ rfl, horder⟩

/-- Not every order of registration tells what a template has to report: the report about a number
is lost behind a command that is not meant. -/
theorem not_reported_in_every_order :
    ¬ ∀ (c c' : Catalog) (s : Settings) (text : String), (∀ t ∈ c.templates, t.Built) →
      (Text.lines text).length ≤ 1 → (Line.ofText s.sigil text).help = false →
      c.contenders s text = [] → (∃ t ∈ c.admitted s text, ∃ f, t.Rejects s text (.report f)) →
      c'.templates.Perm c.templates →
      ∃ t ∈ c.admitted s text, ∃ f, t.Rejects s text (.report f) ∧
        c'.resolve s (@Chooser.refuse Unit) text = pure (.error f) := by
  intro h
  have hbuilt : ∀ t ∈ [Template.setNumber, .setAll], t.Built := by
    simp [Template.built_setNumber, Template.built_setAll]
  have hlost : Catalog.resolve ⟨[.setNumber, .setAll]⟩ {} (@Chooser.refuse Unit) "set x" =
      pure (.error (.commandNotFound "set x")) := rfl
  obtain ⟨t, -, f, hf, hresolve⟩ := h ⟨[.setNumber, .setAll]⟩ ⟨[.setNumber, .setAll]⟩ {} "set x"
    hbuilt (by decide) (by decide) rfl ⟨.setNumber, List.mem_cons_self, _, rfl⟩ (.refl _)
  cases congrArg Prod.fst (congrFun (hlost.symm.trans hresolve) ())
  cases Template.failsOnly_bind t _ _ _ hf _ rfl

end Catalog

end Abbrev

import Abbrev.Proofs.Binding.Complete
import Abbrev.Proofs.Resolution.Contenders

/-! The two filters in front of the binders, by first word and by length, lose nothing: a template
that they drop would not have been bound, by place or by name. So the meanings put before the choice
are those of the whole catalog, as if every template had been tried. -/

namespace Abbrev

namespace Catalog

variable {c : Catalog} {s : Settings} {text : String} {first : String} {rest : List String}

/-- The meanings of a text that are handed on to be settled. -/
def handed (c : Catalog) (s : Settings) (text : String) : List Match :=
  match c.read s text with
  | .ok (.meanings m ms) => m :: ms
  | _ => []

theorem handed_eq_contenders (hsingle : (Text.lines text).length ≤ 1)
    (hhelp : (Line.ofText s.sigil text).help = false) :
    c.handed s text = c.contenders s text := by
  cases h : c.contenders s text with
  | nil =>
    obtain ⟨f, hf⟩ := read_of_no_contenders hsingle hhelp h
    rw [handed, hf]
  | cons m ms => rw [handed, read_of_contenders hsingle hhelp h]

/-- A template that binds passes both filters, so the contenders are all that bind. -/
theorem mem_contenders_iff_bind (hbuilt : ∀ t ∈ c.templates, t.Built)
    (htokens : (Line.ofText s.sigil text).tokens = first :: rest)
    (hfirst : (Argument.ofToken first).isNamed = false) {m : Match} :
    m ∈ c.contenders s text ↔
      c.get? m.id = some m.template ∧
        m.template.bind (first :: rest) s.separator = .ok m.binding := by
  rw [mem_contenders, htokens]
  constructor
  · rintro ⟨hid, -, -, hbind⟩
    exact ⟨hid, hbind⟩
  · rintro ⟨hid, hbind⟩
    have hwell := (hbuilt m.template (List.mem_of_getElem? hid)).wellFormed
    have hword := Template.abbreviates_firstWord_of_bind hwell hfirst hbind
    exact ⟨hid, ⟨first, rfl, hword⟩, Template.length_le_of_bind hwell hbind, hbind⟩

/-- A line that only one template binds is resolved to it, and nobody is asked. -/
theorem resolve_of_unique (hbuilt : ∀ t ∈ c.templates, t.Built)
    (hsingle : (Text.lines text).length ≤ 1) (hhelp : (Line.ofText s.sigil text).help = false)
    (htokens : (Line.ofText s.sigil text).tokens = first :: rest)
    (hfirst : (Argument.ofToken first).isNamed = false) {m : Match}
    (h : ∀ n : Match, c.get? n.id = some n.template ∧
      n.template.bind (first :: rest) s.separator = .ok n.binding ↔ n = m)
    {σ : Type} (chooser : Chooser σ) : c.resolve s chooser text = pure (.ok (.matched m)) := by
  have hone : c.contenders s text = [m] :=
    contenders_eq_singleton fun n => (mem_contenders_iff_bind hbuilt htokens hfirst).trans (h n)
  rw [resolve_of_meanings chooser (read_of_contenders hsingle hhelp hone)]
  rfl

/-- A catalog of one template resolves each line that it binds. -/
theorem resolve_alone {t : Template} (ht : t.Built) (hsingle : (Text.lines text).length ≤ 1)
    (hhelp : (Line.ofText s.sigil text).help = false)
    (htokens : (Line.ofText s.sigil text).tokens = first :: rest)
    (hfirst : (Argument.ofToken first).isNamed = false) {b : Binding}
    (h : t.bind (first :: rest) s.separator = .ok b) {σ : Type} (chooser : Chooser σ) :
    Catalog.resolve ⟨[t]⟩ s chooser text = pure (.ok (.matched ⟨0, t, b⟩)) := by
  refine resolve_of_unique (by simpa using ht) hsingle hhelp htokens hfirst ?_ chooser
  rintro ⟨id, u, b'⟩
  constructor
  · rintro ⟨hid, hbind⟩
    obtain ⟨rfl, rfl⟩ : id = 0 ∧ u = t := by
      cases id with
      | zero => exact ⟨rfl, (Option.some.inj hid).symm⟩
      | succ id => cases hid
    obtain rfl : b' = b := Except.ok.inj (hbind.symm.trans h)
    rfl
  · rintro ⟨⟩
    exact ⟨rfl, h⟩

theorem bind_ne_ok_of_no_contenders (hbuilt : ∀ t ∈ c.templates, t.Built)
    (htokens : (Line.ofText s.sigil text).tokens = first :: rest)
    (hfirst : (Argument.ofToken first).isNamed = false) (h : c.contenders s text = [])
    {t : Template} (ht : t ∈ c.templates) (b : Binding) :
    t.bind (first :: rest) s.separator ≠ .ok b := by
  intro hbind
  obtain ⟨id, hid⟩ := List.getElem?_of_mem ht
  have hmem : (⟨id, t, b⟩ : Match) ∈ c.contenders s text :=
    (mem_contenders_iff_bind hbuilt htokens hfirst).2 ⟨hid, hbind⟩
  rw [h] at hmem
  cases hmem

/-- For a line that starts with an argument given by place, the meanings handed on are exactly the
templates of the catalog that bind, each with its identity and binding, in the order of
registration. Where a filter leaves nothing, nothing would have been bound. -/
theorem handed_iff_binds (hbuilt : ∀ t ∈ c.templates, t.Built)
    (hsingle : (Text.lines text).length ≤ 1)
    (hhelp : (Line.ofText s.sigil text).help = false)
    (htokens : (Line.ofText s.sigil text).tokens = first :: rest)
    (hfirst : (Argument.ofToken first).isNamed = false) :
    (∀ m, m ∈ c.handed s text ↔
        c.get? m.id = some m.template ∧
          m.template.bind (first :: rest) s.separator = .ok m.binding) ∧
      (c.handed s text).Pairwise (·.id < ·.id) ∧
      (∀ m ms, c.handed s text = m :: ms →
        ∀ (σ : Type) (chooser : Chooser σ), c.resolve s chooser text = settle s chooser m ms) ∧
      (c.handed s text = [] →
        ∃ f, ∀ (σ : Type) (chooser : Chooser σ), c.resolve s chooser text = pure (.error f)) ∧
      (c.candidates first = [] →
        (∀ (σ : Type) (chooser : Chooser σ),
          c.resolve s chooser text = pure (.error (.commandNotFound first))) ∧
        ∀ t ∈ c.templates, ∀ b, t.bind (first :: rest) s.separator ≠ .ok b) ∧
      (c.candidates first ≠ [] → c.fitting (first :: rest) = [] →
        (∀ (σ : Type) (chooser : Chooser σ),
          c.resolve s chooser text = pure (.error .tooManyArguments)) ∧
        ∀ t ∈ c.templates, ∀ b, t.bind (first :: rest) s.separator ≠ .ok b) := by
  have hhanded : c.handed s text = c.contenders s text := handed_eq_contenders hsingle hhelp
  rw [hhanded]
  refine ⟨fun m => mem_contenders_iff_bind hbuilt htokens hfirst, c.pairwise_contenders s text,
    fun m ms hms σ chooser => ?_, fun hnone => ?_, fun hnone => ?_, fun hsome hnone => ?_⟩
  · exact resolve_of_meanings chooser (read_of_contenders hsingle hhelp hms)
  · obtain ⟨f, hf⟩ := read_of_no_contenders hsingle hhelp hnone
    exact ⟨f, fun σ chooser => resolve_of_error chooser hf⟩
  · have hcontenders : c.contenders s text = [] := by
      simp [contenders, htokens, fitting, hnone, survivors]
    have hread : c.read s text = .error (.commandNotFound first) := by
      simp [read_of_tokens hsingle hhelp htokens, hnone]
    exact ⟨fun σ chooser => resolve_of_error chooser hread, fun t ht b =>
      bind_ne_ok_of_no_contenders hbuilt htokens hfirst hcontenders ht b⟩
  · have hcontenders : c.contenders s text = [] := by
      simp [contenders, htokens, hnone, survivors]
    have hread : c.read s text = .error .tooManyArguments := by
      simp [read_of_tokens hsingle hhelp htokens, hsome, hnone]
    exact ⟨fun σ chooser => resolve_of_error chooser hread, fun t ht b =>
      bind_ne_ok_of_no_contenders hbuilt htokens hfirst hcontenders ht b⟩

/-- The shorter of two commands that begin alike is filtered out, and the other is handed on with
its default. -/
theorem mem_handed_findUser :
    (⟨1, .findUser, .ofList [("name", .scalar (.string "Bob")),
        ("age", .scalar (.int .i32 ⟨24, by decide⟩))]⟩ : Match) ∈
      Catalog.handed ⟨[.listUsers, .findUser]⟩ {} "u f n=Bob" := by
  have hbuilt : ∀ t ∈ [Template.listUsers, Template.findUser], t.Built := by
    simp [Template.built_listUsers, Template.built_findUser]
  have hsingle : (Text.lines "u f n=Bob").length ≤ 1 := by decide
  have hhelp : (Line.ofText ({} : Settings).sigil "u f n=Bob").help = false := by decide
  have htokens :
      (Line.ofText ({} : Settings).sigil "u f n=Bob").tokens = "u" :: ["f", "n=Bob"] := by
    decide
  have hfirst : (Argument.ofToken "u").isNamed = false := by decide
  exact ((handed_iff_binds (c := ⟨_⟩) hbuilt hsingle hhelp htokens hfirst).1 _).2 ⟨rfl, rfl⟩

end Catalog

end Abbrev

import Abbrev.Manifest
import Abbrev.Settings
import Abbrev.Proofs.Binding.Defaults
import Abbrev.Proofs.Conversion.Elements

/-! What an array becomes that a manifest gives as a default. Its elements are typed between
separators like those of an argument, and come back from that text in pieces: an element that is not
empty and has no separator in it as itself, any other cut up or not at all. -/

namespace Abbrev

/-- One element for each text, the value of that text. -/
def Slot.Keeps (s : Slot) (k : Kind) (texts : List String) : Prop :=
  ∃ vs, k.ConvertsAll texts vs ∧ s.default = some (.array vs)

namespace CommandEntry

variable {e : CommandEntry} {o : OptionEntry} {separator : Char} {t : Template}

theorem optionSpec_eq_ok {spec : OptionSpec} (h : e.optionSpec separator o = .ok spec)
    {v : Toml.Value} (hv : o.default = some v) :
    spec.param = o.param ∧
      ∃ text, OptionEntry.defaultText? separator v = some text ∧ spec.default = some text := by
  cases htext : OptionEntry.defaultText? separator v with
  | none => simp [optionSpec, hv, htext] at h
  | some text =>
    simp only [optionSpec, hv, htext, bind_eq_ok, pure_eq_ok, Except.ok.injEq] at h
    obtain ⟨_, rfl, rfl⟩ := h
    exact ⟨rfl, text, rfl, rfl⟩

theorem declaration_eq_ok {d : Declaration} (h : e.declaration separator = .ok d) :
    d.separator = separator ∧
      List.Forall₂ (fun o spec => e.optionSpec separator o = .ok spec) e.options d.options := by
  simp only [declaration, bind_eq_ok, pure_eq_ok, mapM_eq_ok] at h
  obtain ⟨params, -, options, hoptions, rfl⟩ := h
  exact ⟨rfl, hoptions⟩

/-- A default of a manifest is that of a slot, as the text that it is typed as. -/
theorem exists_defaultsTo (h : e.template separator = .ok t) (ho : o ∈ e.options)
    {v : Toml.Value} (hv : o.default = some v) :
    ∃ s ∈ t.slots, s.param.name = o.param ∧
      ∃ text, OptionEntry.defaultText? separator v = some text ∧ s.DefaultsTo separator text := by
  obtain ⟨d, hd, hbuild⟩ := bind_eq_ok.1 h
  obtain ⟨rfl, hoptions⟩ := declaration_eq_ok hd
  obtain ⟨spec, hspec, hread⟩ := exists_of_forall₂ hoptions ho
  obtain ⟨hparam, text, htext, hdefault⟩ := optionSpec_eq_ok hread hv
  obtain ⟨s, hs, hname⟩ := Declaration.exists_slot_of_option hbuild hspec
  have hslot : d.DefaultText s text := ⟨spec, hspec, hname.symm, hdefault⟩
  exact ⟨s, hs, hname.trans hparam, text, htext, hslot.defaultsTo hbuild hs⟩

end CommandEntry

theorem Slot.DefaultsTo.array {s : Slot} {separator : Char} {k : Kind} {texts : List String}
    (h : s.DefaultsTo separator (String.intercalate (String.singleton separator) texts))
    (htype : s.param.type = .many k) :
    ∃ vs, k.ConvertsAll (texts.flatMap (Text.pieces separator)) vs ∧
      s.default = some (.array vs) := by
  obtain ⟨v, hv, hdefault⟩ := h
  rw [htype, ParamType.convert_many_eq_ok, Text.pieces_intercalate] at hv
  obtain ⟨vs, hvs, rfl⟩ := hv
  exact ⟨vs, hvs, hdefault⟩

namespace CommandEntry

/-- An array that a manifest gives as a default comes to the values of the pieces of its elements'
texts. These are the values of the elements where each of the texts is one piece, and for texts as
elements only there. -/
theorem keeps_arrayDefault {e : CommandEntry} {o : OptionEntry} {separator : Char} {t : Template}
    (h : e.template separator = .ok t) (ho : o ∈ e.options) {items : List Toml.Value}
    (hitems : o.default = some (.array items)) :
    ∃ texts, items.mapM OptionEntry.scalarText? = some texts ∧
      ∃ s ∈ t.slots, s.param.name = o.param ∧ ∀ k, s.param.type = .many k →
        (∃ vss, List.Forall₂ (fun text vs => k.ConvertsAll (Text.pieces separator text) vs)
            texts vss ∧ s.default = some (.array vss.flatten)) ∧
        ((∀ text ∈ texts, Text.Whole separator text) → s.Keeps k texts) ∧
        (k = .string → s.Keeps k texts → ∀ text ∈ texts, Text.Whole separator text) := by
  obtain ⟨s, hs, hname, text, htext, hdefault⟩ := exists_defaultsTo h ho hitems
  obtain ⟨texts, htexts, rfl⟩ := Option.map_eq_some_iff.1 htext
  refine ⟨texts, htexts, s, hs, hname, fun k htype => ?_⟩
  obtain ⟨vs, hvs, hslot⟩ := hdefault.array htype
  refine ⟨?_, fun hwhole => ?_, ?_⟩
  · obtain ⟨vss, hvss, rfl⟩ := forall₂_flatMap_left_iff.1 hvs
    exact ⟨vss, hvss, hslot⟩
  · rw [Text.flatMap_pieces_eq_self_iff.2 hwhole] at hvs
    exact ⟨vs, hvs, hslot⟩
  · rintro rfl ⟨ws, hws, hkept⟩
    -- Texts are their own values, so equal values mean that cutting has changed nothing.
    have hsame : ws = vs := by simpa [hslot] using hkept.symm
    rw [Kind.convertsAll_string_iff] at hvs hws
    rw [← hvs, ← hws] at hsame
    have hinj : Function.Injective fun text => Value.scalar (.string text) := by
      intro a b hab
      simpa using hab
    exact Text.flatMap_pieces_eq_self_iff.1 (hinj.list_map hsame).symm

end CommandEntry

/-- A command with two labels unless there are others, the first of them of two words. -/
def CommandEntry.tag : CommandEntry where
  path := "tag \x7blabels\x7d"
  help := none
  params := [⟨"labels", "string[]"⟩]
  options := [⟨"labels", none, some (.array [.string "red, dark", .string "blue"]), none⟩]

namespace Template

/-- The template whose labels are these. -/
def tag (labels : List String) : Template :=
  .ofParts "tag \x7blabels\x7d" "" [⟨"labels", .many .string⟩]
    [.word "tag", .slot ⟨⟨"labels", .many .string⟩, "labels",
      some (.array (labels.map fun label => .scalar (.string label))), ""⟩]

end Template

namespace CommandEntry

/-- Between semicolons the first label stays whole. -/
theorem keeps_arrayDefault_tag :
    tag.template ';' = .ok (.tag ["red, dark", "blue"]) ∧
      ∃ s ∈ (Template.tag ["red, dark", "blue"]).slots, s.param.name = "labels" ∧
        s.Keeps .string ["red, dark", "blue"] := by
  have hbuild : tag.template ';' = .ok (.tag ["red, dark", "blue"]) := rfl
  obtain ⟨texts, htexts, s, hs, hname, hkept⟩ := keeps_arrayDefault hbuild (.head _) rfl
  cases htexts
  have htype : s.param.type = .many .string := by
    rw [List.mem_singleton.1 hs]
  have hwhole : ∀ text ∈ ["red, dark", "blue"], Text.Whole ';' text := by
    unfold Text.Whole
    decide
  exact ⟨hbuild, s, hs, hname, (hkept .string htype).2.1 hwhole⟩

/-- Between commas, as the settings have them at first, it falls into two. -/
theorem not_keeps_tag :
    Settings.validate {} = .ok {} ∧
      tag.template ({} : Settings).separator = .ok (.tag ["red", " dark", "blue"]) ∧
      ∀ s ∈ (Template.tag ["red", " dark", "blue"]).slots,
        ¬ s.Keeps .string ["red, dark", "blue"] := by
  refine ⟨rfl, rfl, fun s hs => ?_⟩
  rw [List.mem_singleton.1 hs]
  rintro ⟨vs, hvs, hdefault⟩
  rw [Kind.convertsAll_string_iff] at hvs
  simp [← hvs] at hdefault

end CommandEntry

end Abbrev

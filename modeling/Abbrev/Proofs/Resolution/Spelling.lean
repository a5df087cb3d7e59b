import Abbrev.Proofs.Line.Written
import Abbrev.Proofs.Resolution.Ambiguity
import Abbrev.Proofs.Resolution.Rearrangement
import Abbrev.Proofs.Binding.Agreement

/-! Calling a command by its full spelling, with a text in the place of each slot. A line gives back
the tokens it was written from, but flags are taken out of it and a token with an equals sign names
an argument. Building a template looks for neither in the words of its path, so the commands that
can be called with any texts are those each of whose words is read as it stands. -/

namespace Abbrev

namespace Line

/-- A token that is read as it stands: it is no flag and names no argument, and it does not break
the line. -/
structure Plain (sigil : Char) (token : String) : Prop where
  ne_empty : token ≠ ""
  not_flag : token.toList.head? ≠ some sigil
  not_named : '=' ∈ token.toList → token.toList.head? = some '='
  one_line : ∀ c ∈ token.toList, Text.isLineBreak c = false

instance {sigil : Char} {token : String} : Decidable (Plain sigil token) :=
  decidable_of_iff (token ≠ "" ∧ token.toList.head? ≠ some sigil ∧
    ('=' ∈ token.toList → token.toList.head? = some '=') ∧
    token.toList.all (!Text.isLineBreak ·) = true)
    ⟨fun ⟨hne, hflag, hnamed, hline⟩ => ⟨hne, hflag, hnamed, by simpa using hline⟩,
      fun h => ⟨h.ne_empty, h.not_flag, h.not_named, by simpa using h.one_line⟩⟩

theorem Plain.isNamed {sigil : Char} {token : String} (h : Plain sigil token) :
    (Argument.ofToken token).isNamed = false :=
  Argument.isNamed_ofToken_eq_false_iff.2 h.not_named

theorem plain_space {sigil : Char} (h : sigil ≠ ' ') : Plain sigil " " where
  ne_empty := by decide
  not_flag := by simpa using Ne.symm h
  not_named := by decide
  one_line := by simp [Text.isLineBreak]

end Line

/-- What is found on its own is bound to the line's tokens. -/
theorem Catalog.bind_of_resolve_eq {c : Catalog} {s : Settings} {text : String} {m : Match}
    {chooser : Chooser Unit} (h : c.resolve s chooser text = pure (.ok (.matched m))) :
    m.template.bind (Line.ofText s.sigil text).tokens s.separator = .ok m.binding := by
  have hresolved : ((c.resolve s chooser text).run ()).1 = .ok (.matched m) := by
    rw [h]
    rfl
  exact ((mem_contenders _ _ _).1 (mem_contenders_of_resolve hresolved)).2.2.2

namespace Supply

/-- Texts for parameters that take any text are their values. -/
theorem exists_values_of_string {slots : List Slot} {texts : List String} (separator : Char)
    (hstring : ∀ s ∈ slots, s.param.type = .string) (hlength : texts.length = slots.length) :
    ∃ es, (ofTexts slots texts).mapM (value separator) = .ok es ∧
      es.map (·.1) = slots.map (·.param.name) ∧
      List.Forall₂ (fun s text => (s.param.name, .scalar (.string text)) ∈ es) slots texts := by
  induction slots generalizing texts with
  | nil =>
    obtain rfl : texts = [] := List.eq_nil_of_length_eq_zero hlength
    exact ⟨[], rfl, rfl, .nil⟩
  | cons s slots ih =>
    obtain _ | ⟨text, texts⟩ := texts
    · cases hlength
    · obtain ⟨es, hvalues, hnames, hes⟩ :=
        ih (fun u hu => hstring u (List.mem_cons_of_mem s hu)) (Nat.succ.inj hlength)
      have hvalue : value separator (s, some text) =
          .ok (s.param.name, .scalar (.string text)) := by
        rw [value, hstring s List.mem_cons_self]
        rfl
      refine ⟨(s.param.name, .scalar (.string text)) :: es, ?_, by simp [hnames],
        .cons List.mem_cons_self (hes.imp fun _ _ h => List.mem_cons_of_mem _ h)⟩
      rw [ofTexts, List.zipWith_cons_cons, ← ofTexts, List.mapM_cons, hvalue, hvalues]
      rfl

end Supply

namespace Template

variable {t : Template} {separator : Char} {texts tokens : List String} {b : Binding}

/-- Spelled in full, with any plain texts in the slots' places, the command is found on its own and
each text is bound to the parameter of its slot. -/
def Callable (t : Template) (s : Settings) : Prop :=
  ∀ texts : List String, texts.length = t.slots.length → (∀ u ∈ texts, Line.Plain s.sigil u) →
    ∃ b : Binding,
      List.Forall₂ (fun slot u => b.get? slot.param.name = some (.scalar (.string u)))
        t.slots texts ∧
      ∀ (σ : Type) (chooser : Chooser σ),
        Catalog.resolve ⟨[t]⟩ s chooser (Line.encode (weave t.parts t.words texts)) =
          pure (.ok (.matched ⟨0, t, b⟩))

theorem exists_bindPositional_weave (separator : Char) (ht : t.WellFormed)
    (hstring : ∀ p ∈ t.params, p.type = .string) (hlength : texts.length = t.slots.length) :
    ∃ b : Binding, t.bindPositional (weave t.parts t.words texts) separator = .ok b ∧
      List.Forall₂ (fun slot u => b.get? slot.param.name = some (.scalar (.string u)))
        t.slots texts := by
  obtain ⟨es, hvalues, hnames, hes⟩ := Supply.exists_values_of_string separator
    (fun s hs => hstring s.param (ht.slots_perm.mem_iff.1 (List.mem_map_of_mem hs))) hlength
  have hnodup : (es.map (·.1)).Nodup := hnames ▸ ht.slotParamNames_nodup
  rw [ht.slots_eq] at hlength hvalues
  have hfill : fill separator t.parts (weave t.parts t.words texts) = .ok es :=
    (fill_weave_eq_ok rfl hlength).2 ⟨Text.abbreviateAll_self _, hvalues⟩
  refine ⟨Binding.ofList es, bindPositional_eq_ok.2 (.inl ⟨?_, es, hfill, rfl⟩), hes.imp ?_⟩
  · exact (length_weave rfl hlength).symm
  · exact fun s text hmem => (Binding.get?_ofList hnodup).2 hmem

theorem callable_of_plain_words {s : Settings} (ht : t.Built)
    (hstring : ∀ p ∈ t.params, p.type = .string)
    (hwords : ∀ w ∈ t.words, Line.Plain s.sigil w) : t.Callable s := by
  intro texts hlength htexts
  obtain ⟨b, hbind, hvalues⟩ :=
    exists_bindPositional_weave s.separator ht.wellFormed hstring hlength
  refine ⟨b, hvalues, fun σ chooser => ?_⟩
  have hplain : ∀ u ∈ weave t.parts t.words texts, Line.Plain s.sigil u := fun u hu =>
    (List.mem_append.1 ((weave_perm rfl (ht.wellFormed.slots_eq ▸ hlength)).mem_iff.1 hu)).elim
      (hwords u) (htexts u)
  have hline : Line.ofText s.sigil (Line.encode (weave t.parts t.words texts)) =
      ⟨weave t.parts t.words texts, false⟩ :=
    Line.ofText_encode fun u hu => ⟨(hplain u hu).ne_empty, (hplain u hu).not_flag⟩
  have hsingle : (Text.lines (Line.encode (weave t.parts t.words texts))).length ≤ 1 :=
    Line.length_lines_encode_le_one fun u hu => (hplain u hu).one_line
  have hnamed : ((weave t.parts t.words texts).map Argument.ofToken).any Argument.isNamed =
      false := by
    simpa using fun u hu => (hplain u hu).isNamed
  obtain ⟨w, ps, hparts⟩ := ht.wellFormed.startsWithWord
  have hfirst : weave t.parts t.words texts = w :: weave ps (ps.filterMap Part.word?) texts := by
    rw [words_of_parts hparts, hparts, weave]
  exact Catalog.resolve_alone ht hsingle (by rw [hline]) (by rw [hline, hfirst])
    (hplain w (hfirst ▸ List.mem_cons_self)).isNamed
    (hfirst ▸ bind_eq_ok.2 (.inr ⟨hnamed, hbind⟩)) chooser

/-- White space abbreviates no word. -/
theorem space_not_mem_of_abbreviateAll (ht : t.Built) (hlength : tokens.length = t.words.length)
    (h : Text.abbreviateAll tokens t.words = true) : " " ∉ tokens := by
  intro hmem
  obtain ⟨w, hw, habbreviates⟩ := Text.exists_abbreviates_of_abbreviateAll hlength h hmem
  have hspace : ' ' ∈ w.toList := (Text.abbreviates_iff.1 habbreviates).subset (by decide)
  exact absurd ((ht.mem_words hw).2 ' ' hspace) (by decide)

/-- White space in the place of a slot leaves one way to bind, with a token for each part. -/
theorem forall_positional_of_bind_space (ht : t.Built) (h : t.bind tokens separator = .ok b)
    (hspace : " " ∉ tokens → t.slots = []) :
    tokens.length = t.parts.length ∧ ∀ u ∈ tokens, (Argument.ofToken u).isNamed = false := by
  have hparts := ht.wellFormed.length_words_add_length_slots
  have hwordsOnly : " " ∉ tokens → t.words.length = t.parts.length := by
    intro hnone
    rw [← hparts, hspace hnone, List.length_nil, Nat.add_zero]
  rcases bind_eq_ok.1 h with ⟨-, hbind⟩ | ⟨hnamed, hbind⟩
  · obtain ⟨hlength, hwords, -⟩ := bindNamed_iff_distributes.1 hbind
    rw [Argument.filterMap_positional?_ofToken] at hlength hwords
    rw [ht.wellFormed.wordCount_eq] at hlength
    have hnone : " " ∉ tokens := fun hmem =>
      space_not_mem_of_abbreviateAll ht hlength hwords (List.mem_filter.2 ⟨hmem, by decide⟩)
    have hmost := length_le_of_bind ht.wellFormed h
    have hfewer := List.length_filter_le (fun u => !(Argument.ofToken u).isNamed) tokens
    have hparts := hwordsOnly hnone
    have hall := List.length_filter_eq_length_iff.1 (Nat.le_antisymm hfewer (by omega))
    exact ⟨by omega, by simpa using hall⟩
  · have hall : ∀ u ∈ tokens, (Argument.ofToken u).isNamed = false := by simpa using hnamed
    rcases bindPositional_eq_ok.1 hbind with ⟨hlength, -⟩ | ⟨hlength, hdefaults, hcount, hwords, -⟩
    · exact ⟨hlength.symm, hall⟩
    · have hslots : t.defaultCount = t.slots.length := by
        rw [ht.wellFormed.length_slots]
        exact beq_iff_eq.1 hdefaults
      have hnone := space_not_mem_of_abbreviateAll ht (by omega) hwords
      have hparts := hwordsOnly hnone
      omega

theorem Callable.plain_words {s : Settings} (h : t.Callable s) (ht : t.Built)
    (hsigil : s.sigil ≠ ' ') : ∀ w ∈ t.words, Line.Plain s.sigil w := by
  have hlength : (List.replicate t.slots.length " ").length = t.slots.length :=
    List.length_replicate
  have htexts : (List.replicate t.slots.length " ").length =
      (t.parts.filterMap Part.slot?).length := ht.wellFormed.slots_eq ▸ hlength
  obtain ⟨b, -, hfound⟩ := h _ hlength fun u hu => by
    rw [List.eq_of_mem_replicate hu]
    exact Line.plain_space hsigil
  have hperm : (weave t.parts t.words (List.replicate t.slots.length " ")).Perm
      (t.words ++ List.replicate t.slots.length " ") := weave_perm rfl htexts
  have hparts : (weave t.parts t.words (List.replicate t.slots.length " ")).length =
      t.parts.length := length_weave rfl htexts
  generalize weave t.parts t.words (List.replicate t.slots.length " ") = us
    at hfound hperm hparts
  have hne : ∀ u ∈ us, u ≠ "" := by
    intro u hu
    rcases List.mem_append.1 (hperm.mem_iff.1 hu) with hu | hu
    · exact (ht.mem_words hu).1
    · rw [List.eq_of_mem_replicate hu]
      decide
  have hbind : t.bind (us.filter fun u => u.toList.head? != some s.sigil) s.separator = .ok b := by
    rw [← Line.tokens_ofText_encode hne]
    exact Catalog.bind_of_resolve_eq (hfound Unit Chooser.refuse)
  have hspace : " " ∉ us.filter (fun u => u.toList.head? != some s.sigil) → t.slots = [] := by
    intro hnone
    by_contra hslots
    have hsome : " " ∈ List.replicate t.slots.length " " :=
      List.mem_replicate.2 ⟨by simpa using hslots, rfl⟩
    have hmem : " " ∈ us := hperm.mem_iff.2 (List.mem_append_right _ hsome)
    exact hnone (List.mem_filter.2 ⟨hmem, by simpa using Ne.symm hsigil⟩)
  obtain ⟨hkept, hnamed⟩ := forall_positional_of_bind_space ht hbind hspace
  have hflags := List.length_filter_eq_length_iff.1 (hkept.trans hparts.symm)
  intro w hw
  obtain ⟨hword, hblank⟩ := ht.mem_words hw
  have hmem := hperm.mem_iff.2 (List.mem_append_left _ hw)
  have hflag := hflags w hmem
  refine ⟨hword, by simpa using hflag, ?_, fun c hc => ?_⟩
  · exact Argument.isNamed_ofToken_eq_false_iff.1 (hnamed w (List.mem_filter.2 ⟨hmem, hflag⟩))
  · exact Text.isLineBreak_eq_false (hblank c hc)

/-- A command whose parameters take any text can be called by its full spelling, whatever the texts,
exactly when each word of its path is read as it stands. -/
theorem callable_iff_plain_words {s : Settings} (ht : t.Built)
    (hstring : ∀ p ∈ t.params, p.type = .string) (hsigil : s.sigil ≠ ' ') :
    t.Callable s ↔ ∀ w ∈ t.words, Line.Plain s.sigil w :=
  ⟨fun h => h.plain_words ht hsigil, callable_of_plain_words ht hstring⟩

end Template

/-- A command with a quote in its first word. -/
def Declaration.letsTag : Declaration where
  path := "let's tag \x7bitem\x7d as \x7blabel\x7d"
  params := [⟨"item", .string⟩, ⟨"label", .string⟩]

/-- A command with a word that looks like a named argument. -/
def Declaration.setMode : Declaration where
  path := "set mode=fast"

namespace Template

def letsTag : Template :=
  .ofParts "let's tag \x7bitem\x7d as \x7blabel\x7d" "" [⟨"item", .string⟩, ⟨"label", .string⟩]
    [.word "let's", .word "tag", .slot ⟨⟨"item", .string⟩, "item", none, ""⟩, .word "as",
      .slot ⟨⟨"label", .string⟩, "label", none, ""⟩]

theorem built_letsTag : letsTag.Built :=
  ⟨.letsTag, Declaration.build_of_laid (by decide) rfl (by decide) (by decide) rfl rfl rfl rfl⟩

def setMode : Template :=
  .ofParts "set mode=fast" "" [] [.word "set", .word "mode=fast"]

/-- White space, a quote and an equals sign in the texts, and a quote in a word. -/
theorem resolve_letsTag :
    ∃ b : Binding, b.get? "item" = some (.scalar (.string "two words")) ∧
      b.get? "label" = some (.scalar (.string "=\"x")) ∧
      ∀ (σ : Type) (chooser : Chooser σ),
        Catalog.resolve ⟨[letsTag]⟩ {} chooser "let\\'s tag \"two \"words as =\\\"x" =
          pure (.ok (.matched ⟨0, letsTag, b⟩)) := by
  have hwords : ∀ w ∈ letsTag.words, Line.Plain '/' w := by decide
  have hcallable : letsTag.Callable {} :=
    (callable_iff_plain_words built_letsTag (by decide) (by decide)).2 hwords
  obtain ⟨b, hvalues, hfound⟩ := hcallable ["two words", "=\"x"] rfl (by decide)
  obtain ⟨hitem, hlabel, -⟩ := List.forall₂_cons.1 hvalues |>.imp_right List.forall₂_cons.1
  exact ⟨b, hitem, hlabel, hfound⟩

/-- What is built without complaint may still not be callable. -/
theorem not_callable_setMode :
    Declaration.setMode.build = .ok setMode ∧ (∀ p ∈ setMode.params, p.type = .string) ∧
      ¬ setMode.Callable {} ∧
      ∀ (σ : Type) (chooser : Chooser σ),
        Catalog.resolve ⟨[setMode]⟩ {} chooser "set mode=fast" =
          pure (.error (.commandNotFound "set mode=fast")) := by
  have hunknown : ∀ (σ : Type) (chooser : Chooser σ),
      Catalog.resolve ⟨[setMode]⟩ {} chooser "set mode=fast" =
        pure (.error (.commandNotFound "set mode=fast")) := fun _ _ => rfl
  refine ⟨rfl, by decide, fun hcallable => ?_, hunknown⟩
  obtain ⟨b, -, hfound⟩ := hcallable [] rfl (by simp)
  have hsame := congrArg (fun resolved => (resolved.run ()).1)
    ((hunknown Unit Chooser.refuse).symm.trans (hfound Unit Chooser.refuse))
  cases hsame

end Template

end Abbrev

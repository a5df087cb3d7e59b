import Abbrev.Proofs.Binding.Agreement
import Abbrev.Proofs.Template.Representation

/-! Leaving an argument out means typing its default. The value kept with a slot is what its default
converts to under the separator it was declared with, so the text of the default, given by name
anywhere among the arguments or by place for all slots at once, binds as no argument at all. -/

namespace Abbrev

/-- A text whose value is the slot's default. -/
def Slot.DefaultsTo (s : Slot) (separator : Char) (text : String) : Prop :=
  ∃ v, s.param.type.convert separator text = .ok v ∧ s.default = some v

namespace Declaration

variable {d : Declaration} {t : Template} {s : Slot} {text : String}

/-- The text that is declared as the default of a slot. -/
def DefaultText (d : Declaration) (s : Slot) (text : String) : Prop :=
  ∃ o ∈ d.options, o.param = s.param.name ∧ o.default = some text

theorem exists_slot_of_option (h : d.build = .ok t) {o : OptionSpec} (ho : o ∈ d.options) :
    ∃ s ∈ t.slots, s.param.name = o.param := by
  obtain ⟨p, hp, hname, -⟩ := (valid_of_build h).option_param o ho
  obtain ⟨details, hb⟩ := exists_buildsFrom h
  obtain ⟨s, hs, hparam⟩ := hb.covered p hp
  exact ⟨s, hs, hparam.trans hname⟩

theorem DefaultText.defaultsTo (htext : d.DefaultText s text) (h : d.build = .ok t)
    (hs : s ∈ t.slots) : s.DefaultsTo d.separator text := by
  obtain ⟨o, ho, hparam, hdefault⟩ := htext
  obtain ⟨p, hp, hname, hconvert⟩ := (valid_of_build h).option_param o ho
  obtain ⟨details, hb⟩ := exists_buildsFrom h
  have hn := hb.paramNames_nodup
  obtain ⟨hmem, hslot⟩ := hb.slot_eq hs
  obtain rfl : p = s.param := List.inj_on_of_nodup_map hn hp hmem (hname.trans hparam)
  obtain ⟨v, hv⟩ := hconvert text hdefault
  refine ⟨v, hv, ?_⟩
  rw [hslot]
  exact (slotOf_default_eq_some hb.detailed hn hmem).2 ⟨o, ho, hparam, text, hdefault, hv⟩

end Declaration

namespace Supply

variable {slots : List Slot} {supplies supplies' : List Supply} {key text : String}
  {named : List (String × String)} {separator : Char}

/-- The arguments that come first are distributed on their own. -/
theorem Distributes.left {more : List (String × String)}
    (h : Distributes slots (named ++ more) supplies') :
    ∃ supplies, Distributes slots named supplies := by
  have hselects := fun g hg => h.selects g (List.mem_append_left more hg)
  obtain ⟨supplies, hgiven⟩ := exists_giveAll hselects (List.pairwise_append.1 h.apart).1
  exact ⟨supplies, giveAll_eq_ok.1 hgiven⟩

/-- A text that converts to the default is worth as much as none. -/
theorem value_receive {u : Supply}
    (h : Text.abbreviates key u.1.name = true → u.2 = none ∧ u.1.DefaultsTo separator text) :
    value separator (receive key text u) = value separator u := by
  unfold receive
  split
  · rename_i hkey
    obtain ⟨hnone, v, hconvert, hdefault⟩ := h hkey
    simp only [value, hnone, hconvert, hdefault]
  · rfl

theorem mapM_value_receive
    (h : ∀ u ∈ supplies, Text.abbreviates key u.1.name = true →
      u.2 = none ∧ u.1.DefaultsTo separator text) :
    (supplies.map (receive key text)).mapM (value separator) =
      supplies.mapM (value separator) := by
  induction supplies with
  | nil => rfl
  | cons u supplies ih =>
    rw [List.map_cons, List.mapM_cons, List.mapM_cons, value_receive (h u List.mem_cons_self),
      ih fun v hv => h v (List.mem_cons_of_mem u hv)]

theorem mapM_value_ofTexts {texts : List String}
    (h : List.Forall₂ (fun s text => s.DefaultsTo separator text) slots texts) :
    (ofTexts slots texts).mapM (value separator) =
      .ok (slots.filterMap fun s => s.default.map (s.param.name, ·)) := by
  refine mapM_eq_ok.2 ?_
  induction h with
  | nil => exact .nil
  | @cons s text slots texts hs _ ih =>
    obtain ⟨v, hconvert, hdefault⟩ := hs
    rw [ofTexts, List.zipWith_cons_cons, List.filterMap_cons, hdefault, Option.map_some]
    refine .cons ?_ ih
    simp only [value, hconvert]

end Supply

namespace Template

variable {t : Template} {s : Slot} {key text : String} {separator : Char}

/-- A default that is typed reaches its slot, which is empty, and leaves all values as they were. -/
theorem distributes_concat_default (ht : t.WellFormed) (hs : s ∈ t.slots)
    (hdefault : s.DefaultsTo separator text) (hkey : t.Selects s key) {named : List (String × String)}
    (hfree : ∀ g ∈ named, Text.abbreviates g.1 s.name = false) {supplies : List Supply}
    (h : Supply.Distributes t.slots named supplies) :
    Supply.Distributes t.slots (named ++ [(key, text)]) (supplies.map (Supply.receive key text)) ∧
      (supplies.map (Supply.receive key text)).mapM (Supply.value separator) =
        supplies.mapM (Supply.value separator) := by
  have hone : supplies.countP (fun u => Text.abbreviates key u.1.name) = 1 := by
    rw [h.countP_eq]
    exact hkey.countP_eq_one ht.slotNames_nodup hs
  have hnone : ∀ u ∈ supplies, Text.abbreviates key u.1.name = true → u.2 = none := by
    refine h.eq_none_iff.2 fun g hg u hu ⟨hgu, hku⟩ => ?_
    rw [hkey.2 u hu hku, hfree g hg] at hgu
    cases hgu
  refine ⟨h.give (Supply.give_eq_ok.2 ⟨hone, hnone, rfl⟩), Supply.mapM_value_receive ?_⟩
  intro u hu hku
  have hmem : u.1 ∈ t.slots := h.map_fst ▸ List.mem_map_of_mem hu
  have hslot : u.1 = s := List.inj_on_of_nodup_map ht.slotNames_nodup hmem hs (hkey.2 u.1 hmem hku)
  exact ⟨hnone u hu hku, hslot ▸ hdefault⟩

theorem bindNamed_insert_default (ht : t.WellFormed) (hs : s ∈ t.slots)
    (hdefault : s.DefaultsTo separator text) (hkey : t.Selects s key) {before after : List Argument}
    (hfree : ∀ g ∈ (before ++ after).filterMap Argument.named?,
      Text.abbreviates g.1 s.name = false) {b : Binding} :
    t.bindNamed (before ++ after) separator = .ok b ↔
      t.bindNamed (before ++ .named key text :: after) separator = .ok b := by
  have hpositional : (before ++ .named key text :: after).filterMap Argument.positional? =
      (before ++ after).filterMap Argument.positional? := by
    simp only [List.filterMap_append, List.filterMap_cons, Argument.positional?]
  have hnamed : ((before ++ .named key text :: after).filterMap Argument.named?).Perm
      ((before ++ after).filterMap Argument.named? ++ [(key, text)]) := by
    simp only [List.filterMap_append, List.filterMap_cons, Argument.named?]
    exact List.perm_middle.trans (List.perm_append_singleton _ _).symm
  simp only [bindNamed_iff_distributes, hpositional, Supply.distributes_perm_iff hnamed]
  refine and_congr_right fun _ => and_congr_right fun _ => ?_
  constructor
  · rintro ⟨supplies, es, hd, hes, hb⟩
    obtain ⟨hd', hvalues⟩ := distributes_concat_default ht hs hdefault hkey hfree hd
    exact ⟨_, es, hd', hvalues.trans hes, hb⟩
  · rintro ⟨supplies', es, hd', hes, hb⟩
    -- The typed default counts as the last argument, so the others are distributed without it.
    obtain ⟨supplies, hd⟩ := hd'.left
    obtain ⟨hgiven, hvalues⟩ := distributes_concat_default ht hs hdefault hkey hfree hd
    rw [hd'.unique hgiven, hvalues] at hes
    exact ⟨supplies, es, hd, hes, hb⟩

theorem weave_of_no_slots {parts : List Part} {ws : List String}
    (hws : ws.length = (parts.filterMap Part.word?).length)
    (hslots : parts.filterMap Part.slot? = []) : weave parts ws [] = ws := by
  induction parts generalizing ws with
  | nil => exact (List.eq_nil_of_length_eq_zero hws).symm
  | cons part parts ih =>
    cases part with
    | word w =>
      obtain _ | ⟨w', ws⟩ := ws
      · cases hws
      · rw [weave, ih (Nat.succ.inj hws) hslots]
    | slot s => cases hslots

/-- The words alone bind, when every slot has a default, exactly the defaults. -/
theorem bindPositional_words_eq_ok (ht : t.WellFormed) (hsome : t.slots ≠ [])
    (hdefaults : ∀ s ∈ t.slots, s.default.isSome = true) {ws : List String}
    (hws : ws.length = t.words.length) {b : Binding} :
    t.bindPositional ws separator = .ok b ↔
      Text.abbreviateAll ws t.words = true ∧ Binding.ofList t.defaults = b := by
  have hparts := ht.length_words_add_length_slots
  have hpos : 0 < t.slots.length := List.length_pos_of_ne_nil hsome
  have hcount := ht.defaultCount_eq_length hdefaults
  have hall : t.allDefaults = true := ht.allDefaults_iff.2 hdefaults
  have hlength : t.parts.length ≠ ws.length := by omega
  have hrest : t.parts.length - t.defaultCount = ws.length := by omega
  rw [bindPositional_eq_ok]
  simp only [hlength, hall, hrest, false_and, false_or, ne_eq, not_false_eq_true, true_and]

theorem bindPositional_words_iff_weave (ht : t.WellFormed) {texts : List String}
    (hdefaults : List.Forall₂ (fun s text => s.DefaultsTo separator text) t.slots texts)
    {ws : List String} (hws : ws.length = t.words.length) {b : Binding} :
    t.bindPositional ws separator = .ok b ↔
      t.bindPositional (weave t.parts ws texts) separator = .ok b := by
  by_cases hslots : t.slots = []
  · obtain rfl : texts = [] := List.forall₂_nil_left_iff.1 (hslots ▸ hdefaults)
    rw [weave_of_no_slots hws (ht.slots_eq ▸ hslots)]
  · have hsome : ∀ s ∈ t.slots, s.default.isSome = true := by
      intro s hs
      obtain ⟨text, -, v, -, hv⟩ := exists_of_forall₂ hdefaults hs
      rw [hv, Option.isSome_some]
    have htexts : texts.length = (t.parts.filterMap Part.slot?).length := by
      rw [← ht.slots_eq, hdefaults.length_eq]
    have hlength : t.parts.length = (weave t.parts ws texts).length :=
      (length_weave hws htexts).symm
    have hfill (es : List (String × Value)) :
        fill separator t.parts (weave t.parts ws texts) = .ok es ↔
          Text.abbreviateAll ws t.words = true ∧ t.defaults = es := by
      rw [fill_weave_eq_ok hws htexts, ← ht.slots_eq, Supply.mapM_value_ofTexts hdefaults,
        Except.ok.injEq]
      rfl
    rw [bindPositional_words_eq_ok ht hslots hsome hws, bindPositional_eq_ok]
    simp only [hlength, ne_eq, not_true_eq_false, false_and, or_false, true_and, hfill]
    constructor
    · rintro ⟨hwords, hb⟩
      exact ⟨_, ⟨hwords, rfl⟩, hb⟩
    · rintro ⟨es, ⟨hwords, rfl⟩, hb⟩
      exact ⟨hwords, hb⟩

/-- Every declared default may be typed or left out: by name for each slot that no argument names,
and by place for all slots together. -/
theorem bind_default_iff_omitted {d : Declaration} (h : d.build = .ok t) :
    (∀ o ∈ d.options, ∃ s ∈ t.slots, s.param.name = o.param) ∧
      (∀ s ∈ t.slots, ∀ text, d.DefaultText s text → ∀ key, t.Selects s key →
        ∀ before after : List Argument,
          (∀ g ∈ (before ++ after).filterMap Argument.named?,
            Text.abbreviates g.1 s.name = false) →
          ∀ b, t.bindNamed (before ++ after) d.separator = .ok b ↔
            t.bindNamed (before ++ .named key text :: after) d.separator = .ok b) ∧
      ∀ texts, List.Forall₂ d.DefaultText t.slots texts →
        ∀ ws, ws.length = t.words.length →
          ∀ b, t.bindPositional ws d.separator = .ok b ↔
            t.bindPositional (weave t.parts ws texts) d.separator = .ok b := by
  have hwell := Declaration.wellFormed_of_build h
  refine ⟨fun o => Declaration.exists_slot_of_option h, ?_, ?_⟩
  · intro s hs text htext key hkey before after hfree b
    exact bindNamed_insert_default hwell hs (htext.defaultsTo h hs) hkey hfree
  · intro texts htexts ws hws b
    refine bindPositional_words_iff_weave hwell ?_ hws
    refine ((List.forall₂_and_left _ _).2 ⟨fun _ => id, htexts⟩).imp ?_
    rintro s text ⟨hs, htext⟩
    exact htext.defaultsTo h hs

end Template

/-- A command that needs no argument at all. -/
def Declaration.listItems : Declaration where
  path := "list items \x7bpage\x7d \x7bsizes\x7d"
  params := [⟨"page", .one (.int .u32)⟩, ⟨"sizes", .many .char⟩]
  options := [⟨"page", none, some "1", none⟩, ⟨"sizes", none, some "s;m", none⟩]
  separator := ';'

namespace Template

def listItems : Template :=
  .ofParts "list items \x7bpage\x7d \x7bsizes\x7d" ""
    [⟨"page", .one (.int .u32)⟩, ⟨"sizes", .many .char⟩]
    [.word "list", .word "items",
      .slot ⟨⟨"page", .one (.int .u32)⟩, "page", some (.scalar (.int .u32 ⟨1, by decide⟩)), ""⟩,
      .slot ⟨⟨"sizes", .many .char⟩, "sizes",
        some (.array [.scalar (.char 's'), .scalar (.char 'm')]), ""⟩]

theorem build_listItems : Declaration.listItems.build = .ok listItems :=
  Declaration.build_of_laid (by decide) rfl (by decide) (by decide) rfl rfl rfl rfl

/-- One default typed between the words, and both typed behind them. -/
theorem bind_listItems :
    listItems.bindNamed [.positional "l", .named "s" "s;m", .positional "i", .named "p" "2"] ';' =
        .ok (.ofList [("page", .scalar (.int .u32 ⟨2, by decide⟩)),
          ("sizes", .array [.scalar (.char 's'), .scalar (.char 'm')])]) ∧
      listItems.bindPositional ["l", "i", "1", "s;m"] ';' =
        .ok (.ofList [("page", .scalar (.int .u32 ⟨1, by decide⟩)),
          ("sizes", .array [.scalar (.char 's'), .scalar (.char 'm')])]) := by
  obtain ⟨-, hnamed, hplace⟩ := bind_default_iff_omitted build_listItems
  constructor
  · refine (hnamed _ (List.mem_of_getElem? (i := 1) rfl) "s;m" ?_ "s" ?_ [.positional "l"]
      [.positional "i", .named "p" "2"] ?_ _).1 rfl
    · exact ⟨⟨"sizes", none, some "s;m", none⟩, by decide, rfl, rfl⟩
    · exact ⟨by decide, by decide⟩
    · decide
  · refine (hplace ["1", "s;m"] (.cons ?_ (.cons ?_ .nil)) ["l", "i"] rfl _).1 rfl
    · exact ⟨⟨"page", none, some "1", none⟩, by decide, rfl, rfl⟩
    · exact ⟨⟨"sizes", none, some "s;m", none⟩, by decide, rfl, rfl⟩

end Template

end Abbrev

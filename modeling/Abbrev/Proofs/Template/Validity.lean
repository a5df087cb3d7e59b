import Abbrev.Proofs.Template.WellFormed

/-! Which declarations a template is built from, said of the declaration alone: its words and
parameters, the parameters and defaults of its options, and the placeholders, which must name all
parameters, each once, under names that differ. Building accepts exactly these. -/

namespace Abbrev

namespace Declaration

/-- The words of the path that are meant as placeholders. -/
def placeholders (d : Declaration) : List String := (Text.words d.path).filter opensBrace

/-- A key names a parameter as the alias of its option, or, when it is no alias, as its own name. -/
inductive Names (d : Declaration) (key : String) (p : Param) : Prop
  | byAlias {o : OptionSpec} (ho : o ∈ d.options) (hkey : o.name = some key)
    (hp : o.param = p.name)
  | byName (h : ∀ o ∈ d.options, o.name ≠ some key) (hp : p.name = key)

/-- The name under which a parameter is given: the alias of its option, or else its own name. -/
def optionName (d : Declaration) (p : Param) : String :=
  ((d.options.find? (·.param == p.name)).bind (·.name)).getD p.name

structure Valid (d : Declaration) : Prop where
  hasWord : Text.words d.path ≠ []
  paramNames_nodup : (d.params.map (·.name)).Nodup
  option_param : ∀ o ∈ d.options, ∃ p ∈ d.params, p.name = o.param ∧
    ∀ text ∈ o.default, ∃ v, p.type.convert d.separator text = .ok v
  optionParams_nodup : (d.options.map (·.param)).Nodup
  startsWithWord : ∀ w ∈ (Text.words d.path).head?, opensBrace w = false
  /-- Each placeholder is a key in braces, and the keys name all parameters, each once. -/
  placeholders_name : ∃ ps, ps.Perm d.params ∧
    List.Forall₂ (fun w p => ∃ key, Encloses w key ∧ d.Names key p) d.placeholders ps
  optionNames_nodup : (d.params.map d.optionName).Nodup

variable {d : Declaration} {details : List Detail} {key : String} {p : Param}

theorem Detailed.map_param (hd : d.Detailed details) :
    details.map (·.param.name) = d.options.map (·.param) :=
  map_eq_map_of_forall₂ (hd.describes.imp fun _ _ h => h.param_name)

theorem Detailed.optionParams_nodup (hd : d.Detailed details) : (d.options.map (·.param)).Nodup :=
  hd.map_param ▸ hd.params_nodup

theorem exists_detailed_iff (hn : (d.params.map (·.name)).Nodup) :
    (∃ details, d.Detailed details) ↔
      (∀ o ∈ d.options, ∃ p ∈ d.params, p.name = o.param ∧
        ∀ text ∈ o.default, ∃ v, p.type.convert d.separator text = .ok v) ∧
      (d.options.map (·.param)).Nodup := by
  constructor
  · rintro ⟨details, hd⟩
    refine ⟨fun o ho => ?_, hd.optionParams_nodup⟩
    obtain ⟨detail, -, hdetail⟩ := exists_of_forall₂ hd.describes ho
    refine ⟨detail.param, hdetail.param_mem, hdetail.param_name, fun text htext => ?_⟩
    obtain ⟨hnone, -⟩ | ⟨text', v, htext', hv, -⟩ := convertDefault_eq_ok.1 hdetail.default
    · rw [hnone] at htext
      cases htext
    · rw [htext'] at htext
      cases htext
      exact ⟨v, hv⟩
  · rintro ⟨hoptions, hnodup⟩
    have hdescribed : ∀ o ∈ d.options, ∃ detail, d.Describes o detail := by
      intro o ho
      obtain ⟨p, hp, hname, hconvert⟩ := hoptions o ho
      have hfind : d.params.find? (·.name == o.param) = some p :=
        (find?_eq_some_iff_mem hn).2 ⟨hp, hname⟩
      cases hdefault : o.default with
      | none =>
        exact ⟨⟨p, o.name, none, o.help.getD ""⟩, hfind, rfl,
          convertDefault_eq_ok.2 (.inl ⟨hdefault, rfl⟩), rfl⟩
      | some text =>
        obtain ⟨v, hv⟩ := hconvert text hdefault
        exact ⟨⟨p, o.name, some v, o.help.getD ""⟩, hfind, rfl,
          convertDefault_eq_ok.2 (.inr ⟨text, v, hdefault, hv, rfl⟩), rfl⟩
    obtain ⟨details, hdetails⟩ := exists_forall₂ hdescribed
    refine ⟨details, hdetails, ?_⟩
    rw [map_eq_map_of_forall₂ (hdetails.imp fun _ _ h => h.param_name)]
    exact hnodup

theorem Describes.optionName {o : OptionSpec} {detail : Detail} (h : d.Describes o detail)
    (ho : o ∈ d.options) (hnodup : (d.options.map (·.param)).Nodup) :
    d.optionName detail.param = detail.name := by
  have hfind : d.options.find? (·.param == detail.param.name) = some o :=
    (find?_eq_some_iff_mem hnodup).2 ⟨ho, h.param_name.symm⟩
  rw [Declaration.optionName, hfind, Detail.name, h.given, Option.bind_some]

theorem slotOf_name (hd : d.Detailed details) (hn : (d.params.map (·.name)).Nodup)
    (hp : p ∈ d.params) : (slotOf details p).name = d.optionName p := by
  obtain ⟨o, ho, detail, hdetail, rfl, hslot⟩ | ⟨hnone, hslot⟩ := slotOf_eq hd hn hp
  · rw [hslot, hdetail.optionName ho hd.optionParams_nodup]
    rfl
  · have hfind : d.options.find? (·.param == p.name) = none := by simpa using hnone
    rw [hslot, Declaration.optionName, hfind]
    rfl

theorem names_of_target? (hd : d.Detailed details) (h : d.target? details key = some p) :
    d.Names key p := by
  have hdescribes := hd.describes
  unfold target? at h
  split at h
  · rename_i detail hfind
    cases h
    have hgiven : detail.given = some key := by simpa using List.find?_some hfind
    obtain ⟨o, ho, hdetail⟩ := exists_of_forall₂ hdescribes.flip
      (List.mem_reverse.1 (List.mem_of_find?_eq_some hfind))
    exact .byAlias ho (hdetail.given ▸ hgiven) hdetail.param_name.symm
  · rename_i hnone
    refine .byName (fun o ho hkey => ?_) (by simpa using List.find?_some h)
    obtain ⟨detail, hmem, hdetail⟩ := exists_of_forall₂ hdescribes ho
    have hother := List.find?_eq_none.1 hnone detail (List.mem_reverse.2 hmem)
    simp [hdetail.given, hkey] at hother

/-- Options with one alias would give two parameters one name, so a key names one parameter. -/
theorem target?_of_names (hd : d.Detailed details) (hn : (d.params.map (·.name)).Nodup)
    (hnames : (d.params.map d.optionName).Nodup) (hp : p ∈ d.params) (h : d.Names key p) :
    d.target? details key = some p := by
  have hdescribes := hd.describes
  have hnodup := hd.optionParams_nodup
  unfold target?
  cases h with
  | @byAlias o ho hkey hparam =>
    obtain ⟨detail, hmem, hdetail⟩ := exists_of_forall₂ hdescribes ho
    have hdetailp : detail.param = p :=
      List.inj_on_of_nodup_map hn hdetail.param_mem hp (hdetail.param_name.trans hparam)
    have hname : d.optionName p = key := by
      rw [← hdetailp, hdetail.optionName ho hnodup, Detail.name, hdetail.given, hkey]
      rfl
    cases hfind : details.reverse.find? (·.given == some key) with
    | none =>
      have hother := List.find?_eq_none.1 hfind detail (List.mem_reverse.2 hmem)
      simp [hdetail.given, hkey] at hother
    | some other =>
      obtain ⟨o', ho', hother⟩ := exists_of_forall₂ hdescribes.flip
        (List.mem_reverse.1 (List.mem_of_find?_eq_some hfind))
      have hgiven : other.given = some key := by simpa using List.find?_some hfind
      have hotherName : d.optionName other.param = key := by
        rw [hother.optionName ho' hnodup, Detail.name, hgiven]
        rfl
      exact congrArg some
        (List.inj_on_of_nodup_map hnames hother.param_mem hp (hotherName.trans hname.symm))
  | byName hnone hkey =>
    have hfind : details.reverse.find? (·.given == some key) = none := by
      refine List.find?_eq_none.2 fun detail hmem => ?_
      obtain ⟨o, ho, hdetail⟩ := exists_of_forall₂ hdescribes.flip (List.mem_reverse.1 hmem)
      simpa [hdetail.given] using hnone o ho
    rw [hfind]
    exact (find?_eq_some_iff_mem hn).2 ⟨hp, hkey⟩

/-- The slots among the parts are those of the parameters that the placeholders name. -/
theorem exists_params_of_becomes {ws : List String} {parts : List Part}
    (h : List.Forall₂ (d.Becomes details) ws parts) :
    ∃ ps, List.Forall₂ (fun w p => ∃ key, Encloses w key ∧ d.target? details key = some p)
        (ws.filter opensBrace) ps ∧
      parts.filterMap Part.slot? = ps.map (slotOf details) := by
  induction h with
  | nil => exact ⟨[], .nil, rfl⟩
  | @cons w part ws parts hbecomes _ ih =>
    obtain ⟨ps, hps, hslots⟩ := ih
    cases hbecomes with
    | word hplain =>
      refine ⟨ps, ?_, ?_⟩
      · rw [List.filter_cons_of_neg (by simp [hplain])]
        exact hps
      · rw [List.filterMap_cons, Part.slot?]
        exact hslots
    | @slot key p hkey hp =>
      refine ⟨p :: ps, ?_, ?_⟩
      · rw [List.filter_cons_of_pos hkey.opensBrace]
        exact .cons ⟨key, hkey, hp⟩ hps
      · rw [List.filterMap_cons, Part.slot?, hslots]
        rfl

theorem exists_parts_of_placeholders {ws : List String} {ps : List Param}
    (h : List.Forall₂ (fun w p => ∃ key, Encloses w key ∧ d.target? details key = some p)
      (ws.filter opensBrace) ps) :
    ∃ parts, List.Forall₂ (d.Becomes details) ws parts ∧
      parts.filterMap Part.slot? = ps.map (slotOf details) := by
  induction ws generalizing ps with
  | nil =>
    rw [List.filter_nil, List.forall₂_nil_left_iff] at h
    exact ⟨[], .nil, h ▸ rfl⟩
  | cons w ws ih =>
    cases hopens : opensBrace w with
    | false =>
      rw [List.filter_cons_of_neg (by simp [hopens])] at h
      obtain ⟨parts, hparts, hslots⟩ := ih h
      refine ⟨.word w :: parts, .cons (.word hopens) hparts, ?_⟩
      rw [List.filterMap_cons, Part.slot?]
      exact hslots
    | true =>
      rw [List.filter_cons_of_pos hopens] at h
      obtain ⟨p, ps, ⟨key, hkey, hp⟩, hrest, rfl⟩ := List.forall₂_cons_left_iff.1 h
      obtain ⟨parts, hparts, hslots⟩ := ih hrest
      refine ⟨.slot (slotOf details p) :: parts, .cons (.slot hkey hp) hparts, ?_⟩
      rw [List.filterMap_cons, Part.slot?, hslots]
      rfl

theorem valid_of_build {t : Template} (h : d.build = .ok t) : d.Valid := by
  obtain ⟨details, hb⟩ := exists_buildsFrom h
  have hwell := wellFormed_of_build h
  have hn := hb.paramNames_nodup
  obtain ⟨hoptions, hoptionParams⟩ := (exists_detailed_iff hn).1 ⟨details, hb.detailed⟩
  obtain ⟨ps, hps, hslots⟩ := exists_params_of_becomes hb.parted.becomes
  rw [← hwell.slots_eq] at hslots
  have hmem : ∀ p ∈ ps, p ∈ d.params := by
    intro p hp
    obtain ⟨w, -, key, -, htarget⟩ := exists_of_forall₂ hps.flip hp
    exact target?_mem (fun e he => hb.detailed.param_mem he) htarget
  have hmap : t.slots.map (·.param) = ps := by
    rw [hslots, List.map_map]
    conv_rhs => rw [← List.map_id ps]
    exact List.map_congr_left fun p hp => slotOf_param hb.detailed hn (hmem p hp)
  have hperm : ps.Perm d.params := by
    rw [← hmap, ← hb.params_eq]
    exact hwell.slots_perm
  refine ⟨hb.hasWord, hn, hoptions, hoptionParams, fun w hw => ?_, ⟨ps, hperm, ?_⟩, ?_⟩
  · obtain ⟨ws, hwords⟩ := List.head?_eq_some_iff.1 hw
    have hbecomes := hb.parted.becomes
    rw [hwords] at hbecomes
    obtain ⟨part, rest, hpart, -, hparts⟩ := List.forall₂_cons_left_iff.1 hbecomes
    cases hpart with
    | word hplain => exact hplain
    | slot hkey hp => cases hb.parted.startsWithWord _ (by rw [hparts]; rfl)
  · exact hps.imp fun _ _ ⟨key, hkey, htarget⟩ =>
      ⟨key, hkey, names_of_target? hb.detailed htarget⟩
  · refine (hperm.map d.optionName).nodup_iff.1 ?_
    have hnames : t.slots.map (·.name) = ps.map d.optionName := by
      rw [hslots, List.map_map]
      exact List.map_congr_left fun p hp => slotOf_name hb.detailed hn (hmem p hp)
    exact hnames ▸ hwell.slotNames_nodup

theorem Valid.exists_build (h : d.Valid) : ∃ t, d.build = .ok t := by
  obtain ⟨ps, hperm, hnamed⟩ := h.placeholders_name
  have hn := h.paramNames_nodup
  obtain ⟨details, hdetails⟩ := (exists_detailed_iff hn).2 ⟨h.option_param, h.optionParams_nodup⟩
  have hmem : ∀ p ∈ ps, p ∈ d.params := fun p => hperm.mem_iff.1
  have htargets : List.Forall₂
      (fun w p => ∃ key, Encloses w key ∧ d.target? details key = some p) d.placeholders ps := by
    refine (((List.forall₂_and_left _ _).2 ⟨hmem, hnamed.flip⟩).imp ?_).flip
    rintro p w ⟨hp, key, hkey, hname⟩
    exact ⟨key, hkey, target?_of_names hdetails hn h.optionNames_nodup hp hname⟩
  obtain ⟨parts, hbecomes, hslots⟩ := exists_parts_of_placeholders htargets
  have hparams : (parts.filterMap Part.slot?).map (·.param.name) = ps.map (·.name) := by
    rw [hslots, List.map_map]
    exact List.map_congr_left fun p _ => slotOf_param_name details p
  have hnames : (parts.filterMap Part.slot?).map (·.name) = ps.map d.optionName := by
    rw [hslots, List.map_map]
    exact List.map_congr_left fun p hp => slotOf_name hdetails hn (hmem p hp)
  have hparted : d.Parted details parts := by
    refine ⟨hbecomes, fun part hpart => ?_, ?_, ?_⟩
    · obtain ⟨rest, rfl⟩ := List.head?_eq_some_iff.1 hpart
      obtain ⟨w, ws, hfirst, -, hwords⟩ := List.forall₂_cons_right_iff.1 hbecomes
      cases hfirst with
      | word hplain => rfl
      | slot hkey hp => simpa [hkey.opensBrace] using h.startsWithWord w (by rw [hwords]; rfl)
    · exact hparams ▸ (hperm.map Param.name).nodup_iff.2 hn
    · exact hnames ▸ (hperm.map d.optionName).nodup_iff.2 h.optionNames_nodup
  refine ⟨_, build_eq_ok.2 ⟨h.hasWord, hn, details, parts, hdetails, hparted, rfl, ?_⟩⟩
  intro p hp
  refine ⟨slotOf details p, ?_, slotOf_param_name details p⟩
  rw [hslots]
  exact List.mem_map_of_mem (hperm.mem_iff.2 hp)

/-- A template is built from the valid declarations and from no others. -/
theorem exists_build_iff_valid (d : Declaration) : (∃ t, d.build = .ok t) ↔ d.Valid :=
  ⟨fun ⟨_, h⟩ => valid_of_build h, fun h => h.exists_build⟩

end Declaration

end Abbrev

import Abbrev.Proofs.Template.Validity
import Mathlib.Data.List.Perm.Subperm

/-! A built template represents its declaration. The cells of its path follow the words of the path
one by one and hold the places of the options in their order, the options point to the parameters,
each to another, and names lead to the places of exactly what has them. Counts and defaults are
those declared. -/

namespace Abbrev

namespace Declaration

variable {d : Declaration} {details : List Detail} {t : Template} {l : Layout}

/-- A cell as the path shows it: a word as it stands, or the place of an option where a key in
braces names the option's parameter. -/
inductive Shows (d : Declaration) (l : Layout) : String → Cell → Prop
  | word {w : String} (h : opensBrace w = false) : Shows d l w (.word w)
  | slot {w key : String} {i : Nat} {r : Row} {p : Param} (h : Encloses w key)
    (hrow : l.rows[i]? = some r) (hparam : l.paramOf? r = some p) (hp : d.Names key p) :
    Shows d l w (.slot i)

theorem shows_of_becomes (hd : d.Detailed details) (hn : (d.params.map (·.name)).Nodup)
    {w : String} {part : Part} (h : d.Becomes details w part) {c : Cell} (hc : l.HoldsPart c part) :
    d.Shows l w c := by
  cases hc with
  | word v =>
    cases h with
    | word hplain => exact .word hplain
  | slot row holds =>
    cases h with
    | slot hkey hp =>
      have hparam := holds.paramOf
      rw [slotOf_param hd hn (target?_mem (fun e he => hd.param_mem he) hp)] at hparam
      exact .slot hkey row hparam (names_of_target? hd hp)

theorem BuildsFrom.shows (h : d.BuildsFrom details t) :
    List.Forall₂ (d.Shows t.layout) (Text.words d.path) t.layout.cells := by
  refine List.forall₂_iff_get.2 ⟨?_, fun i hi hi' => ?_⟩
  · rw [h.parted.becomes.length_eq, h.lays.cells.length_eq]
  · have hpart : i < t.parts.length := h.parted.becomes.length_eq ▸ hi
    exact shows_of_becomes h.detailed h.paramNames_nodup (h.parted.becomes.get hi hpart)
      (h.lays.cells.get hi' hpart)

theorem BuildsFrom.exists_firstCell (h : d.BuildsFrom details t) :
    ∃ w rest, t.layout.cells = .word w :: rest ∧ w ≠ "" ∧ t.firstWord = w := by
  obtain ⟨w, rest, hrest⟩ := h.parted.exists_word h.hasWord
  have hparts := h.lays.cells
  rw [hrest] at hparts
  obtain ⟨c, cells, hc, -, hcells⟩ := List.forall₂_cons_right_iff.1 hparts
  have hshows := h.shows
  rw [hcells] at hshows
  obtain ⟨word, words, hfirst, -, hwords⟩ := List.forall₂_cons_right_iff.1 hshows
  cases hc
  cases hfirst
  exact ⟨w, cells, hcells, (Text.mem_words (hwords ▸ List.mem_cons_self)).1,
    Template.firstWord_of_parts hrest⟩

/-- The path is cut into its words again at each single space. -/
theorem splitOn_normalPath (h : Text.words d.path ≠ []) :
    (d.normalPath.toList.splitOn ' ').map String.ofList = Text.words d.path := by
  have hspace : ∀ w ∈ (Text.words d.path).map String.toList, ' ' ∉ w := by
    intro w hw hmem
    obtain ⟨word, hword, rfl⟩ := List.mem_map.1 hw
    have hblank : Text.isBlank ' ' = false := (Text.mem_words hword).2 ' ' hmem
    exact absurd hblank (by decide)
  have hsplit := List.splitOn_intercalate ' ' hspace (by simpa using h)
  have hpath : d.normalPath.toList = [' '].intercalate ((Text.words d.path).map String.toList) := by
    rw [normalPath, String.toList_intercalate]
    rfl
  rw [hpath, hsplit, List.map_map]
  conv_rhs => rw [← List.map_id (Text.words d.path)]
  exact List.map_congr_left fun w _ => String.ofList_toList

/-- A slot has a default exactly when one is declared for its parameter, and it is that text's
value. -/
theorem slotOf_default_eq_some (hd : d.Detailed details) (hn : (d.params.map (·.name)).Nodup)
    {p : Param} (hp : p ∈ d.params) {v : Value} :
    (slotOf details p).default = some v ↔
      ∃ o ∈ d.options, o.param = p.name ∧
        ∃ text, o.default = some text ∧ p.type.convert d.separator text = .ok v := by
  obtain ⟨o, ho, detail, hdetail, rfl, hslot⟩ | ⟨hnone, hslot⟩ := slotOf_eq hd hn hp
  · have hdefault : (slotOf details detail.param).default = detail.default := by
      rw [hslot]
      rfl
    rw [hdefault]
    constructor
    · intro hv
      obtain ⟨-, hno⟩ | ⟨text, w, htext, hw, hv'⟩ := convertDefault_eq_ok.1 hdetail.default
      · rw [hno] at hv
        cases hv
      · rw [hv'] at hv
        cases hv
        exact ⟨o, ho, hdetail.param_name.symm, text, htext, hw⟩
    · rintro ⟨o', ho', hparam, text, htext, hv⟩
      obtain rfl : o' = o := List.inj_on_of_nodup_map hd.optionParams_nodup ho' ho
        (hparam.trans hdetail.param_name)
      have hconverted : d.convertDefault o' detail.param = .ok (some v) :=
        convertDefault_eq_ok.2 (.inr ⟨text, v, htext, hv, rfl⟩)
      exact Except.ok.inj (hdetail.default.symm.trans hconverted)
  · constructor
    · intro hv
      rw [hslot] at hv
      cases hv
    · rintro ⟨o, ho, hparam, -⟩
      exact absurd hparam (hnone o ho)

/-- What an option keeps of its declaration. It has a default exactly when one is declared for its
parameter, and it is that text's value. -/
structure Sets (d : Declaration) (r : Row) (p : Param) : Prop where
  name_eq : r.name = d.optionName p
  default_hasType : ∀ v, r.default = some v → v.HasType p.type
  default_eq_some : ∀ v, r.default = some v ↔ ∃ o ∈ d.options, o.param = p.name ∧
    ∃ text, o.default = some text ∧ p.type.convert d.separator text = .ok v

theorem BuildsFrom.sets (h : d.BuildsFrom details t) {r : Row} {s : Slot} (hs : s ∈ t.slots)
    (hr : t.layout.HoldsSlot r s) : d.Sets r s.param := by
  have hn := h.paramNames_nodup
  obtain ⟨hp, hslot⟩ := h.slot_eq hs
  have hdefault : r.default = (slotOf details s.param).default := by rw [hr.default_eq, ← hslot]
  refine ⟨?_, fun v hv => ?_, fun v => ?_⟩
  · rw [hr.name_eq, hslot, slotOf_name h.detailed hn hp, ← hslot]
  · exact hasType_of_slotOf_default h.detailed hn hp (hdefault ▸ hv)
  · rw [hdefault]
    exact slotOf_default_eq_some h.detailed hn hp

end Declaration

namespace Template

variable {t : Template}

theorem WellFormed.rows_slots (h : t.WellFormed) :
    List.Forall₂ t.layout.HoldsSlot t.layout.rows t.slots := by
  rw [h.slots_eq]
  exact h.lays.rows

theorem WellFormed.rowNames_nodup (h : t.WellFormed) : (t.layout.rows.map (·.name)).Nodup := by
  rw [h.lays.rowNames_eq, ← h.slots_eq]
  exact h.slotNames_nodup

theorem WellFormed.lookup_rowPlaces (h : t.WellFormed) {n : String} {i : Nat} :
    t.layout.rowPlaces.lookup n = some i ↔ ∃ r, t.layout.rows[i]? = some r ∧ r.name = n := by
  rw [h.lays.rowPlaces]
  exact lookup_placesBy h.rowNames_nodup

theorem WellFormed.slot?_eq_some (h : t.WellFormed) {n : String} {s : Slot} :
    t.slot? n = some s ↔ s ∈ t.slots ∧ s.name = n := by
  have hmem : s ∈ t.slots ↔ ∃ r ∈ t.layout.rows, t.layout.slot? r = some s := List.mem_filterMap
  rw [hmem]
  constructor
  · intro hs
    obtain ⟨i, hi, hs⟩ := Option.bind_eq_some_iff.1 hs
    obtain ⟨r, hr, hs⟩ := Option.bind_eq_some_iff.1 hs
    obtain ⟨r', hr', rfl⟩ := h.lookup_rowPlaces.1 hi
    obtain rfl := Option.some.inj (hr'.symm.trans hr)
    exact ⟨⟨r', List.mem_of_getElem? hr', hs⟩, (Layout.slot?_eq_some.1 hs).name_eq.symm⟩
  · rintro ⟨⟨r, hr, hs⟩, rfl⟩
    obtain ⟨i, hi⟩ := List.mem_iff_getElem?.1 hr
    have hplace := h.lookup_rowPlaces.2 ⟨r, hi, (Layout.slot?_eq_some.1 hs).name_eq⟩
    exact Option.bind_eq_some_iff.2 ⟨i, hplace, Option.bind_eq_some_iff.2 ⟨r, hi, hs⟩⟩

theorem WellFormed.param?_eq_some (h : t.WellFormed) {n : String} {p : Param} :
    t.param? n = some p ↔ p ∈ t.params ∧ p.name = n :=
  find?_eq_some_iff_mem h.paramNames_nodup

theorem WellFormed.paramIndex?_eq_some (h : t.WellFormed) {n : String} {i : Nat} :
    t.paramIndex? n = some i ↔ ∃ p, t.params[i]? = some p ∧ p.name = n := by
  rw [paramIndex?, h.lays.paramPlaces]
  exact lookup_placesBy h.paramNames_nodup

/-- The place that a parameter's name has leads to the parameter. -/
theorem WellFormed.param?_eq_bind (h : t.WellFormed) (n : String) :
    t.param? n = (t.paramIndex? n).bind (t.params[·]?) := by
  refine Option.ext fun p => ?_
  rw [h.param?_eq_some, Option.bind_eq_some_iff]
  constructor
  · rintro ⟨hp, hname⟩
    obtain ⟨i, hi⟩ := List.mem_iff_getElem?.1 hp
    exact ⟨i, h.paramIndex?_eq_some.2 ⟨p, hi, hname⟩, hi⟩
  · rintro ⟨i, hplace, hi⟩
    obtain ⟨q, hq, hname⟩ := h.paramIndex?_eq_some.1 hplace
    obtain rfl := Option.some.inj (hq.symm.trans hi)
    exact ⟨List.mem_of_getElem? hq, hname⟩

/-- The rows point to all places of the parameters, each to another. -/
theorem WellFormed.rows_params (h : t.WellFormed) :
    (t.layout.rows.map (·.param)).Perm (List.range t.params.length) := by
  have hparams : t.layout.rows.map t.layout.paramOf? = (t.slots.map (·.param)).map some := by
    rw [List.map_map]
    exact (map_eq_map_of_forall₂ (h.rows_slots.imp fun _ _ hs => hs.paramOf.symm)).symm
  have hnodup : (t.layout.rows.map (·.param)).Nodup := by
    refine .of_map (t.params[·]?) ?_
    have hsome : ((t.slots.map (·.param)).map some).Nodup := by
      rw [List.nodup_map_iff fun _ _ => Option.some.inj, h.slots_perm.nodup_iff]
      exact h.paramNames_nodup.of_map
    rw [← hparams] at hsome
    rw [List.map_map]
    exact hsome
  have hlength : (List.range t.params.length).length = (t.layout.rows.map (·.param)).length := by
    rw [List.length_range, List.length_map, h.rows_slots.length_eq, h.length_slots]
  refine (List.subperm_of_subset hnodup fun i hi => ?_).perm_of_length_le (Nat.le_of_eq hlength)
  obtain ⟨r, hr, rfl⟩ := List.mem_map.1 hi
  obtain ⟨s, -, hs⟩ := exists_of_forall₂ h.rows_slots hr
  exact List.mem_range.2 (List.getElem?_eq_some_iff.1 hs.paramOf).1

/-- All that the tables of a template keep of the declaration it was built from. -/
structure Represents (t : Template) (d : Declaration) : Prop where
  params_eq : t.params = d.params
  startsWithWord : ∃ w rest, t.layout.cells = .word w :: rest ∧ w ≠ "" ∧ t.firstWord = w
  /-- Words and options follow the path, cut at each single space. -/
  cells_show : List.Forall₂ (d.Shows t.layout) ((t.path.toList.splitOn ' ').map String.ofList)
    t.layout.cells
  /-- The places of the options are counted up along the path. -/
  cells_places : t.layout.cells.filterMap Cell.slot? = List.range t.layout.rows.length
  rows_params : (t.layout.rows.map (·.param)).Perm (List.range t.params.length)
  rows_set : ∀ r ∈ t.layout.rows, ∃ p, t.layout.paramOf? r = some p ∧ d.Sets r p
  rowNames_nodup : (t.layout.rows.map (·.name)).Nodup
  lookup_rowPlaces : ∀ n i, t.layout.rowPlaces.lookup n = some i ↔
    ∃ r, t.layout.rows[i]? = some r ∧ r.name = n
  slot?_eq_some : ∀ n s, t.slot? n = some s ↔ s ∈ t.slots ∧ s.name = n
  paramNames_nodup : (t.params.map (·.name)).Nodup
  paramIndex?_eq_some : ∀ n i, t.paramIndex? n = some i ↔ ∃ p, t.params[i]? = some p ∧ p.name = n
  param?_eq_bind : ∀ n, t.param? n = (t.paramIndex? n).bind (t.params[·]?)
  param?_eq_some : ∀ n p, t.param? n = some p ↔ p ∈ t.params ∧ p.name = n
  wordCount_eq : t.wordCount = (t.layout.cells.filter (·.word?.isSome)).length
  wordCount_add : t.wordCount + t.layout.rows.length = t.layout.cells.length
  defaultCount_eq : t.defaultCount = (t.layout.rows.filter (·.default.isSome)).length
  allDefaults_iff : t.allDefaults = true ↔ ∀ r ∈ t.layout.rows, r.default.isSome = true
  /-- What is read off the tables leaves nothing out. -/
  cells_parts : List.Forall₂ (t.layout.part? · = some ·) t.layout.cells t.parts
  rows_slots : List.Forall₂ (t.layout.slot? · = some ·) t.layout.rows t.slots

theorem represents_of_build {d : Declaration} (h : d.build = .ok t) : t.Represents d := by
  have hwell := Declaration.wellFormed_of_build h
  obtain ⟨details, hb⟩ := Declaration.exists_buildsFrom h
  constructor
  case params_eq => exact hb.params_eq
  case startsWithWord => exact hb.exists_firstCell
  case cells_show =>
    rw [hb.path_eq, Declaration.splitOn_normalPath hb.hasWord]
    exact hb.shows
  case cells_places => exact hwell.lays.places
  case rows_params => exact hwell.rows_params
  case rows_set =>
    intro r hr
    obtain ⟨s, hs, hslot⟩ := exists_of_forall₂ hwell.rows_slots hr
    exact ⟨s.param, hslot.paramOf, hb.sets hs hslot⟩
  case rowNames_nodup => exact hwell.rowNames_nodup
  case lookup_rowPlaces => exact fun n i => hwell.lookup_rowPlaces
  case slot?_eq_some => exact fun n s => hwell.slot?_eq_some
  case paramNames_nodup => exact hwell.paramNames_nodup
  case paramIndex?_eq_some => exact fun n i => hwell.paramIndex?_eq_some
  case param?_eq_bind => exact hwell.param?_eq_bind
  case param?_eq_some => exact fun n p => hwell.param?_eq_some
  case wordCount_eq =>
    rw [wordCount, hwell.lays.wordCount]
    exact List.countP_eq_length_filter
  case wordCount_add =>
    rw [hwell.wordCount_eq, hwell.rows_slots.length_eq, hwell.lays.cells.length_eq,
      hwell.length_words_add_length_slots]
  case defaultCount_eq =>
    rw [defaultCount, hwell.lays.defaultCount]
    exact List.countP_eq_length_filter
  case allDefaults_iff =>
    rw [allDefaults, beq_iff_eq, defaultCount, hwell.lays.defaultCount, ← hwell.length_slots,
      ← hwell.rows_slots.length_eq, List.countP_eq_length]
  case cells_parts => exact hwell.lays.cells.imp fun _ _ => Layout.part?_eq_some.2
  case rows_slots => exact hwell.rows_slots.imp fun _ _ => Layout.slot?_eq_some.2

end Template

/-- A command each of whose options goes by the name of the other's parameter. -/
def Declaration.copyFile : Declaration where
  path := " copy  \x7bfrom\x7d into \x7bto\x7d"
  params := [⟨"from", .one .string⟩, ⟨"to", .many .char⟩]
  options := [⟨"to", some "from", some "a,b", none⟩, ⟨"from", some "to", none, none⟩]

namespace Template

def copyFile : Template where
  path := "copy \x7bfrom\x7d into \x7bto\x7d"
  help := ""
  layout := {
    cells := [.word "copy", .slot 0, .word "into", .slot 1]
    rows := [⟨1, "from", some (.array [.scalar (.char 'a'), .scalar (.char 'b')]), ""⟩,
      ⟨0, "to", none, ""⟩]
    rowPlaces := [("to", 1), ("from", 0)]
    params := [⟨"from", .one .string⟩, ⟨"to", .many .char⟩]
    paramPlaces := [("to", 1), ("from", 0)]
    wordCount := 2
    defaultCount := 1 }

theorem build_copyFile : Declaration.copyFile.build = .ok copyFile :=
  Declaration.build_of_laid (by decide) rfl (by decide) (by decide) rfl rfl rfl rfl

theorem represents_copyFile :
    Declaration.copyFile.build = .ok copyFile ∧ copyFile.Represents .copyFile :=
  ⟨build_copyFile, represents_of_build build_copyFile⟩

end Template

end Abbrev

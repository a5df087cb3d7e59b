import Abbrev.Proofs.Conversion.Typing
import Abbrev.Proofs.Template.Building

/-! What every declaration that builds has made sure of: the path starts with a word, each parameter
has exactly one slot, no two slots have one name, defaults are values of their parameter's type, and
the tables are those of the parts. -/

namespace Abbrev

namespace Template

structure WellFormed (t : Template) : Prop where
  startsWithWord : ∃ w ps, t.parts = .word w :: ps
  paramNames_nodup : (t.params.map (·.name)).Nodup
  slots_perm : (t.slots.map (·.param)).Perm t.params
  slotNames_nodup : (t.slots.map (·.name)).Nodup
  default_hasType : ∀ s ∈ t.slots, ∀ v, s.default = some v → v.HasType s.param.type
  lays : t.layout.Lays t.parts

/-- Templates come from declarations only. -/
def Built (t : Template) : Prop := ∃ d : Declaration, d.build = .ok t

end Template

namespace Declaration

variable {d : Declaration} {details : List Detail} {t : Template}

/-- A slot comes from the declaration of its parameter's option, if there is one. -/
theorem slotOf_eq (hd : d.Detailed details) (hn : (d.params.map (·.name)).Nodup) {p : Param}
    (hp : p ∈ d.params) :
    (∃ o ∈ d.options, ∃ detail, d.Describes o detail ∧ detail.param = p ∧
        slotOf details p = detail.slot) ∨
      (∀ o ∈ d.options, o.param ≠ p.name) ∧ slotOf details p = (Detail.plain p).slot := by
  have hdescribes := hd.describes
  unfold slotOf
  cases hfind : details.find? (·.param.name == p.name) with
  | none =>
    refine .inr ⟨fun o ho hparam => ?_, rfl⟩
    obtain ⟨detail, hmem, hdetail⟩ := exists_of_forall₂ hdescribes ho
    have hother := List.find?_eq_none.1 hfind detail hmem
    simp [hdetail.param_name, hparam] at hother
  | some detail =>
    obtain ⟨o, ho, hdetail⟩ :=
      exists_of_forall₂ hdescribes.flip (List.mem_of_find?_eq_some hfind)
    have hname : detail.param.name = p.name := by simpa using List.find?_some hfind
    exact .inl ⟨o, ho, detail, hdetail, List.inj_on_of_nodup_map hn hdetail.param_mem hp hname, rfl⟩

theorem slotOf_param (hd : d.Detailed details) (hn : (d.params.map (·.name)).Nodup) {p : Param}
    (hp : p ∈ d.params) : (slotOf details p).param = p := by
  obtain ⟨o, -, detail, -, hparam, hslot⟩ | ⟨-, hslot⟩ := slotOf_eq hd hn hp
  · rw [hslot]
    exact hparam
  · rw [hslot]
    rfl

theorem hasType_of_convertDefault {o : OptionSpec} {p : Param} {v : Value}
    (h : d.convertDefault o p = .ok (some v)) : v.HasType p.type := by
  obtain ⟨-, hv⟩ | ⟨text, w, -, hconvert, hv⟩ := convertDefault_eq_ok.1 h
  · cases hv
  · cases hv
    exact ParamType.hasType_of_convert hconvert

theorem hasType_of_slotOf_default (hd : d.Detailed details)
    (hn : (d.params.map (·.name)).Nodup) {p : Param} (hp : p ∈ d.params) {v : Value}
    (hv : (slotOf details p).default = some v) : v.HasType p.type := by
  obtain ⟨o, -, detail, hdetail, rfl, hslot⟩ | ⟨-, hslot⟩ := slotOf_eq hd hn hp
  · have hdefault : detail.default = some v := by
      rw [hslot] at hv
      exact hv
    exact hasType_of_convertDefault (hdefault ▸ hdetail.default)
  · rw [hslot] at hv
    cases hv

/-- Every slot is the slot of a declared parameter. -/
theorem BuildsFrom.slot_eq (h : d.BuildsFrom details t) {s : Slot} (hs : s ∈ t.slots) :
    s.param ∈ d.params ∧ s = slotOf details s.param := by
  have hslots : t.slots = t.parts.filterMap Part.slot? := h.lays.slots_eq
  rw [hslots] at hs
  obtain ⟨part, hpart, hslot⟩ := List.mem_filterMap.1 hs
  obtain ⟨w, -, hbecomes⟩ := exists_of_forall₂ h.parted.becomes.flip hpart
  cases hbecomes with
  | word h => cases hslot
  | slot hkey hp =>
    cases hslot
    have hmem := target?_mem (fun e he => h.detailed.param_mem he) hp
    rw [slotOf_param h.detailed h.paramNames_nodup hmem]
    exact ⟨hmem, rfl⟩

theorem Parted.exists_word {parts : List Part} (h : d.Parted details parts)
    (hpath : Text.words d.path ≠ []) : ∃ w rest, parts = .word w :: rest := by
  obtain ⟨w, ws, hwords⟩ := List.exists_cons_of_ne_nil hpath
  have hbecomes := h.becomes
  rw [hwords] at hbecomes
  obtain ⟨part, rest, -, -, rfl⟩ := List.forall₂_cons_left_iff.1 hbecomes
  cases part with
  | word w => exact ⟨w, rest, rfl⟩
  | slot s => simpa [Part.slot?] using h.startsWithWord _ rfl

theorem wellFormed_of_build (h : d.build = .ok t) : t.WellFormed := by
  obtain ⟨details, h⟩ := exists_buildsFrom h
  have hslots : t.slots = t.parts.filterMap Part.slot? := h.lays.slots_eq
  have hparamNames := h.parted.params_nodup
  have hslotNames := h.parted.names_nodup
  rw [← hslots] at hparamNames hslotNames
  have hn : (t.params.map (·.name)).Nodup := h.params_eq ▸ h.paramNames_nodup
  have hnodup : (t.slots.map (·.param)).Nodup := by
    refine .of_map Param.name ?_
    simpa [Function.comp_def] using hparamNames
  refine ⟨h.parted.exists_word h.hasWord, hn, ?_, hslotNames, fun s hs v hv => ?_, h.lays⟩
  -- Neither list repeats a parameter, so it is enough that each contains the other.
  · rw [h.params_eq] at hn ⊢
    refine (List.perm_ext_iff_of_nodup hnodup hn.of_map).2 fun p => ⟨fun hp => ?_, fun hp => ?_⟩
    · obtain ⟨s, hs, rfl⟩ := List.mem_map.1 hp
      exact (h.slot_eq hs).1
    · obtain ⟨s, hs, hname⟩ := h.covered p hp
      have hsp : s.param = p := List.inj_on_of_nodup_map hn (h.slot_eq hs).1 hp hname
      exact List.mem_map.2 ⟨s, hs, hsp⟩
  · obtain ⟨hp, hslot⟩ := h.slot_eq hs
    exact hasType_of_slotOf_default h.detailed h.paramNames_nodup hp (hslot ▸ hv)

end Declaration

theorem Template.Built.wellFormed {t : Template} (h : t.Built) : t.WellFormed :=
  let ⟨_, hd⟩ := h
  Declaration.wellFormed_of_build hd

namespace Template

variable {t : Template}

/-- Words are not empty and have no white space in them. -/
theorem Built.mem_words (h : t.Built) {w : String} (hw : w ∈ t.words) :
    w ≠ "" ∧ ∀ c ∈ w.toList, Text.isBlank c = false := by
  obtain ⟨d, hd⟩ := h
  obtain ⟨details, hd⟩ := Declaration.exists_buildsFrom hd
  obtain ⟨part, hpart, hword⟩ := List.mem_filterMap.1 hw
  obtain ⟨word, hmem, hbecomes⟩ := exists_of_forall₂ hd.parted.becomes.flip hpart
  cases hbecomes with
  | word hplain =>
    cases hword
    exact Text.mem_words hmem
  | slot hkey hp => cases hword

theorem words_of_parts {w : String} {ps : List Part} (h : t.parts = .word w :: ps) :
    t.words = w :: ps.filterMap Part.word? := by
  simp [words, h, Part.word?]

theorem firstWord_of_parts {w : String} {ps : List Part} (h : t.parts = .word w :: ps) :
    t.firstWord = w := by
  rw [firstWord, words_of_parts h, List.headD_cons]

/-- Words typed one by one begin with the first word of the path. -/
theorem abbreviates_firstWord {first : String} {rest : List String} (hne : t.words ≠ [])
    (h : Text.abbreviateAll (first :: rest) t.words = true) :
    Text.abbreviates first t.firstWord = true := by
  obtain ⟨w, ws, hwords⟩ := List.exists_cons_of_ne_nil hne
  rw [hwords, Text.abbreviateAll, List.zip_cons_cons, List.all_cons, Bool.and_eq_true] at h
  rw [firstWord, hwords]
  exact h.1

/-- The words of the path one by one, each of them abbreviated or in full. -/
def Typed (t : Template) (tokens : List String) : Prop :=
  List.Forall₂ (fun token w => Text.abbreviates token w = true) tokens t.words

theorem typed_iff {tokens : List String} :
    t.Typed tokens ↔
      tokens.length = t.words.length ∧ Text.abbreviateAll tokens t.words = true := by
  rw [Typed, List.forall₂_iff_zip, Text.abbreviateAll, List.all_eq_true]
  simp only [Prod.forall]

theorem WellFormed.slotParamNames_nodup (h : t.WellFormed) :
    (t.slots.map (·.param.name)).Nodup := by
  have hperm : (t.slots.map (·.param.name)).Perm (t.params.map (·.name)) := by
    simpa [Function.comp_def] using h.slots_perm.map Param.name
  exact hperm.nodup_iff.2 h.paramNames_nodup

theorem WellFormed.slots_eq (h : t.WellFormed) : t.slots = t.parts.filterMap Part.slot? :=
  h.lays.slots_eq

theorem WellFormed.wordCount_eq (h : t.WellFormed) : t.wordCount = t.words.length :=
  h.lays.wordCount_eq

theorem WellFormed.typed_iff (h : t.WellFormed) {tokens : List String} :
    t.Typed tokens ↔ tokens.length = t.wordCount ∧ Text.abbreviateAll tokens t.words = true := by
  rw [h.wordCount_eq, Template.typed_iff]

theorem WellFormed.defaultCount_eq (h : t.WellFormed) :
    t.defaultCount = t.slots.countP (·.default.isSome) := by
  rw [h.slots_eq]
  exact h.lays.defaultCount_eq

theorem WellFormed.defaultCount_eq_length (h : t.WellFormed)
    (hall : ∀ s ∈ t.slots, s.default.isSome = true) : t.defaultCount = t.slots.length := by
  rw [h.defaultCount_eq, List.countP_eq_length.2 hall]

/-- Each part is a word or has a slot. -/
theorem WellFormed.length_words_add_length_slots (h : t.WellFormed) :
    t.words.length + t.slots.length = t.parts.length := by
  rw [h.slots_eq, words]
  induction t.parts with
  | nil => rfl
  | cons p ps ih => cases p <;> simp [List.filterMap_cons, Part.word?, Part.slot?] <;> omega

theorem WellFormed.length_slots (h : t.WellFormed) : t.slots.length = t.params.length := by
  simpa using h.slots_perm.length_eq

theorem WellFormed.allDefaults_iff (h : t.WellFormed) :
    t.allDefaults = true ↔ ∀ s ∈ t.slots, s.default.isSome = true := by
  rw [allDefaults, beq_iff_eq, ← h.length_slots, h.defaultCount_eq, List.countP_eq_length]

end Template

/-- Two commands that begin alike; the second takes a name, and an age unless it is the usual
one. -/
def Declaration.listUsers : Declaration where
  path := "user list"

def Declaration.findUser : Declaration where
  path := "user find \x7bname\x7d \x7bage\x7d"
  params := [⟨"name", .one .string⟩, ⟨"age", .one (.int .i32)⟩]
  options := [⟨"age", none, some "24", none⟩]

namespace Template

def listUsers : Template := .ofParts "user list" "" [] [.word "user", .word "list"]

def findUser : Template :=
  .ofParts "user find \x7bname\x7d \x7bage\x7d" ""
    [⟨"name", .one .string⟩, ⟨"age", .one (.int .i32)⟩]
    [.word "user", .word "find", .slot ⟨⟨"name", .one .string⟩, "name", none, ""⟩,
      .slot ⟨⟨"age", .one (.int .i32)⟩, "age", some (.scalar (.int .i32 ⟨24, by decide⟩)), ""⟩]

theorem built_listUsers : listUsers.Built := ⟨.listUsers, rfl⟩

theorem built_findUser : findUser.Built :=
  ⟨.findUser, Declaration.build_of_laid (by decide) rfl (by decide) (by decide) rfl rfl rfl rfl⟩

end Template

end Abbrev

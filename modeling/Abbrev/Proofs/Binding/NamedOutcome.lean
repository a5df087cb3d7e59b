import Abbrev.Proofs.Binding.Agreement
import Abbrev.Proofs.Failing

/-! What binding by name comes to, for any arguments whatever. It succeeds exactly when the words of
the path are typed, each key selects a slot and no two the same, no slot without a default is left
out, and the texts convert; each parameter then has the value of the argument that selects its slot,
or the default. Otherwise the first of these checks that fails is the reason, and among the keys the
first in the order of the arguments, among the slots the first in the order of the path. -/

namespace Abbrev

namespace Template

variable {t : Template} {key text : String} {named before : List (String × String)}

/-- Each key selects a slot, and no two the same. -/
structure KeysFit (t : Template) (named : List (String × String)) : Prop where
  selects : ∀ g ∈ named, ∃ s ∈ t.slots, t.Selects s g.1
  apart : named.Pairwise fun g h => ∀ s ∈ t.slots, ¬ (t.Selects s g.1 ∧ t.Selects s h.1)

/-- Why a key is refused that comes behind other arguments. -/
inductive RefusesKey (t : Template) (before : List (String × String)) (key : String) :
    Rejection → Prop
  | unknown (hnone : ∀ s ∈ t.slots, Text.abbreviates key s.name = false) :
    RefusesKey t before key (.silent .key)
  | ambiguous {s u : Slot} (hs : s ∈ t.slots) (hu : u ∈ t.slots) (hne : s.name ≠ u.name)
    (hks : Text.abbreviates key s.name = true) (hku : Text.abbreviates key u.name = true) :
    RefusesKey t before key (.report (.ambiguousOptionName key))
  | repeated {s : Slot} {g : String × String} (hs : s ∈ t.slots) (hkey : t.Selects s key)
    (hg : g ∈ before) (hsame : t.Selects s g.1) :
    RefusesKey t before key (.report (.duplicateOption s.name))

/-- A slot that an argument names or that can do without. -/
def Filled (t : Template) (named : List (String × String)) (s : Slot) : Prop :=
  (∃ g ∈ named, t.Selects s g.1) ∨ s.default.isSome = true

/-- The texts of the arguments convert to the types of the slots that they are for. -/
def Converts (t : Template) (named : List (String × String)) (separator : Char) : Prop :=
  ∀ g ∈ named, ∀ s ∈ t.slots, t.Selects s g.1 →
    ∃ v, s.param.type.convert separator g.2 = .ok v

/-- The value of a slot: that of the argument that selects it, or else its default. -/
inductive Gives (t : Template) (named : List (String × String)) (separator : Char) (s : Slot)
    (v : Value) : Prop
  | argument {g : String × String} (hg : g ∈ named) (hkey : t.Selects s g.1)
    (hv : s.param.type.convert separator g.2 = .ok v)
  | default (hnone : ∀ g ∈ named, ¬ t.Selects s g.1) (hv : s.default = some v)

theorem selects_of_countP (h : t.slots.countP (fun s => Text.abbreviates key s.name) = 1) {s : Slot}
    (hs : s ∈ t.slots) (hkey : Text.abbreviates key s.name = true) : t.Selects s key := by
  rw [List.countP_eq_length_filter, List.length_eq_one_iff] at h
  obtain ⟨u, hfilter⟩ := h
  have hall : ∀ v ∈ t.slots, Text.abbreviates key v.name = true → v = u := by
    intro v hv hkv
    rw [← List.mem_singleton, ← hfilter]
    exact List.mem_filter.2 ⟨hv, hkv⟩
  refine ⟨hkey, fun v hv hkv => ?_⟩
  rw [hall v hv hkv, hall s hs hkey]

theorem WellFormed.exists_selects_iff (ht : t.WellFormed) :
    (∃ s ∈ t.slots, t.Selects s key) ↔
      t.slots.countP (fun s => Text.abbreviates key s.name) = 1 := by
  constructor
  · rintro ⟨s, hs, hselects⟩
    exact hselects.countP_eq_one ht.slotNames_nodup hs
  · intro h
    have hpos : 0 < t.slots.countP (fun s => Text.abbreviates key s.name) := by omega
    obtain ⟨s, hs, hkey⟩ := List.countP_pos_iff.1 hpos
    exact ⟨s, hs, selects_of_countP h hs hkey⟩

/-- A key that begins several names begins two that differ. -/
theorem WellFormed.two_le_countP_iff (ht : t.WellFormed) :
    2 ≤ t.slots.countP (fun s => Text.abbreviates key s.name) ↔
      ∃ s ∈ t.slots, ∃ u ∈ t.slots, s.name ≠ u.name ∧
        Text.abbreviates key s.name = true ∧ Text.abbreviates key u.name = true := by
  constructor
  · intro h
    rw [List.countP_eq_length_filter] at h
    have hnodup : ((t.slots.filter fun s => Text.abbreviates key s.name).map (·.name)).Nodup :=
      ht.slotNames_nodup.sublist (List.filter_sublist.map _)
    have hmem : ∀ s ∈ t.slots.filter (fun s => Text.abbreviates key s.name),
        s ∈ t.slots ∧ Text.abbreviates key s.name = true := fun s => List.mem_filter.1
    generalize t.slots.filter (fun s => Text.abbreviates key s.name) = found at h hnodup hmem
    obtain _ | ⟨s, _ | ⟨u, rest⟩⟩ := found
    · simp at h
    · simp at h
    · obtain ⟨hs, hks⟩ := hmem s (by simp)
      obtain ⟨hu, hku⟩ := hmem u (by simp)
      have hne : s.name ≠ u.name := by
        intro heq
        simp [heq] at hnodup
      exact ⟨s, hs, u, hu, hne, hks, hku⟩
  · rintro ⟨s, hs, u, hu, hne, hks, hku⟩
    have hpos : 0 < t.slots.countP (fun s => Text.abbreviates key s.name) :=
      List.countP_pos_iff.2 ⟨s, hs, hks⟩
    have hother : t.slots.countP (fun s => Text.abbreviates key s.name) ≠ 1 := by
      intro hone
      exact hne ((selects_of_countP hone hu hku).2 s hs hks)
    omega

theorem WellFormed.keysFit_iff (ht : t.WellFormed) :
    t.KeysFit named ↔ ∃ supplies, Supply.Distributes t.slots named supplies := by
  constructor
  · intro h
    have hselects := fun g hg => ht.exists_selects_iff.1 (h.selects g hg)
    obtain ⟨supplies, hgiven⟩ := Supply.exists_giveAll hselects <|
      h.apart.imp_of_mem fun hg hh hapart s hs ⟨hgs, hhs⟩ =>
        hapart s hs ⟨selects_of_countP (hselects _ hg) hs hgs,
          selects_of_countP (hselects _ hh) hs hhs⟩
    exact ⟨supplies, Supply.giveAll_eq_ok.1 hgiven⟩
  · rintro ⟨supplies, h⟩
    exact ⟨fun g hg => ht.exists_selects_iff.2 (h.selects g hg),
      h.apart.imp fun hapart s hs ⟨hgs, hhs⟩ => hapart s hs ⟨hgs.1, hhs.1⟩⟩

end Template

namespace Supply

variable {t : Template} {supplies : List Supply} {key text : String} {separator : Char}
  {named before : List (String × String)} {r : Rejection}

theorem give_eq_error :
    give supplies key text = .error r ↔
      (supplies.countP (fun u => Text.abbreviates key u.1.name) = 0 ∧ r = .silent .key) ∨
      (2 ≤ supplies.countP (fun u => Text.abbreviates key u.1.name) ∧
        r = .report (.ambiguousOptionName key)) ∨
      (supplies.countP (fun u => Text.abbreviates key u.1.name) = 1 ∧
        ∃ u ∈ supplies, Text.abbreviates key u.1.name = true ∧ (∃ old, u.2 = some old) ∧
          r = .report (.duplicateOption u.1.name)) := by
  have hfound : (∃ u ∈ supplies, Text.abbreviates key u.1.name = true ∧
      (∃ old, u.2 = some old) ∧ r = .report (.duplicateOption u.1.name)) ↔
      ∃ u ∈ supplies.filter (fun u => Text.abbreviates key u.1.name),
        (∃ old, u.2 = some old) ∧ r = .report (.duplicateOption u.1.name) := by
    simp only [List.mem_filter, and_assoc]
  rw [hfound, List.countP_eq_length_filter, give]
  generalize supplies.filter (fun u => Text.abbreviates key u.1.name) = found
  obtain _ | ⟨⟨s, given⟩, _ | ⟨v, rest⟩⟩ := found
  · simp [eq_comm]
  · cases given with
    | none => simp
    | some old => simp [eq_comm]
  · simp [eq_comm]

/-- One more argument fails by its key alone. -/
theorem Distributes.give_eq_error (ht : t.WellFormed) (h : Distributes t.slots before supplies) :
    Supply.give supplies key text = .error r ↔ t.RefusesKey before key r := by
  rw [Supply.give_eq_error, h.countP_eq]
  constructor
  · rintro (⟨hzero, rfl⟩ | ⟨htwo, rfl⟩ | ⟨hone, u, hu, hkey, ⟨old, hold⟩, rfl⟩)
    · exact .unknown fun s hs => by simpa using List.countP_eq_zero.1 hzero s hs
    · obtain ⟨s, hs, v, hv, hne, hks, hkv⟩ := ht.two_le_countP_iff.1 htwo
      exact .ambiguous hs hv hne hks hkv
    · obtain ⟨s, hs, rfl, htext⟩ := exists_of_forall₂ h.texts.flip hu
      obtain ⟨other, hother, habbreviates⟩ := (htext old).1 hold
      exact .repeated hs (Template.selects_of_countP hone hs hkey) hother
        (Template.selects_of_countP (h.selects _ hother) hs habbreviates)
  · rintro (hnone | ⟨hs, hu, hne, hks, hku⟩ | ⟨hs, hkey, hg, hsame⟩)
    · exact .inl ⟨List.countP_eq_zero.2 fun s hs => by simp [hnone s hs], rfl⟩
    · exact .inr (.inl ⟨ht.two_le_countP_iff.2 ⟨_, hs, _, hu, hne, hks, hku⟩, rfl⟩)
    · obtain ⟨u, hu, rfl, htext⟩ := exists_of_forall₂ h.texts hs
      exact .inr (.inr ⟨ht.exists_selects_iff.1 ⟨_, hs, hkey⟩, u, hu, hkey.1,
        ⟨_, (htext _).2 ⟨_, hg, hsame.1⟩⟩, rfl⟩)

/-- The first key that is refused decides. -/
theorem giveAll_eq_error (ht : t.WellFormed) :
    giveAll (t.slots.map (·, none)) named = .error r ↔
      ∃ before key text after, named = before ++ (key, text) :: after ∧ t.KeysFit before ∧
        t.RefusesKey before key r := by
  rw [giveAll, foldlM_eq_error]
  constructor
  · rintro ⟨before, ⟨key, text⟩, after, supplies, rfl, hbefore, hgive⟩
    have hd := giveAll_eq_ok.1 hbefore
    exact ⟨before, key, text, after, rfl, ht.keysFit_iff.2 ⟨supplies, hd⟩,
      (hd.give_eq_error ht).1 hgive⟩
  · rintro ⟨before, key, text, after, rfl, hfit, hrefuses⟩
    obtain ⟨supplies, hd⟩ := ht.keysFit_iff.1 hfit
    exact ⟨before, (key, text), after, supplies, rfl, giveAll_eq_ok.2 hd,
      (hd.give_eq_error ht).2 hrefuses⟩

/-- The supply of a slot has a text exactly when an argument selects the slot. -/
theorem Distributes.eq_some_iff (h : Distributes t.slots named supplies) {u : Supply}
    (hu : u ∈ supplies) {text : String} :
    u.2 = some text ↔ ∃ key, (key, text) ∈ named ∧ t.Selects u.1 key := by
  obtain ⟨s, hs, rfl, htext⟩ := exists_of_forall₂ h.texts.flip hu
  rw [htext]
  refine exists_congr fun key => and_congr_right fun hkey => ?_
  exact ⟨Template.selects_of_countP (h.selects _ hkey) hs, fun hselects => hselects.1⟩

theorem Distributes.filled_iff (h : Distributes t.slots named supplies) {u : Supply}
    (hu : u ∈ supplies) : t.Filled named u.1 ↔ u.2.isSome = true ∨ u.1.default.isSome = true := by
  refine or_congr_left ?_
  simp only [Option.isSome_iff_exists, h.eq_some_iff hu, Prod.exists]
  exact exists_comm

/-- The first slot in the order of the path that is not filled. -/
theorem Distributes.missing?_eq_some (h : Distributes t.slots named supplies) {s : Slot} :
    missing? supplies = some s ↔
      ∃ pre post, t.slots = pre ++ s :: post ∧ (∀ u ∈ pre, t.Filled named u) ∧
        ¬ t.Filled named s := by
  have hfilled : ∀ u ∈ supplies,
      (!(u.2.isNone && u.1.default.isNone)) = true ↔ t.Filled named u.1 := by
    intro u hu
    rw [h.filled_iff hu, Bool.not_and, Bool.or_eq_true, Option.not_isNone, Option.not_isNone]
  have hempty : ∀ u ∈ supplies,
      (u.2.isNone && u.1.default.isNone) = true ↔ ¬ t.Filled named u.1 := by
    intro u hu
    rw [← hfilled u hu, Bool.not_eq_true', Bool.not_eq_false]
  rw [missing?, Option.map_eq_some_iff]
  simp only [List.find?_eq_some_iff_append]
  constructor
  · rintro ⟨u, ⟨hu, pre, post, hsplit, hpre⟩, rfl⟩
    refine ⟨pre.map (·.1), post.map (·.1), ?_, ?_, (hempty u (hsplit ▸ by simp)).1 hu⟩
    · rw [← h.map_fst, hsplit, List.map_append, List.map_cons]
    · intro s hs
      obtain ⟨v, hv, rfl⟩ := List.mem_map.1 hs
      exact (hfilled v (hsplit ▸ List.mem_append_left _ hv)).1 (hpre v hv)
  · rintro ⟨pre, post, hslots, hpre, hs⟩
    rw [← h.map_fst] at hslots
    obtain ⟨before, rest, rfl, rfl, hrest⟩ := List.map_eq_append_iff.1 hslots
    obtain ⟨u, after, rfl, rfl, rfl⟩ := List.map_eq_cons_iff.1 hrest
    refine ⟨u, ⟨(hempty u (by simp)).2 hs, before, after, rfl, fun v hv => ?_⟩, rfl⟩
    exact (hfilled v (List.mem_append_left _ hv)).2 (hpre v.1 (List.mem_map_of_mem hv))

theorem Distributes.missing?_eq_none (h : Distributes t.slots named supplies) :
    missing? supplies = none ↔ ∀ s ∈ t.slots, t.Filled named s := by
  rw [missing?, Option.map_eq_none_iff, List.find?_eq_none, ← h.map_fst, List.forall_mem_map]
  refine forall₂_congr fun u hu => ?_
  rw [h.filled_iff hu]
  cases u.2 <;> cases u.1.default <;> simp

theorem exists_value_iff {u : Supply} (hu : u.2.isSome = true ∨ u.1.default.isSome = true) :
    (∃ e, value separator u = .ok e) ↔
      ∀ text, u.2 = some text → ∃ v, u.1.param.type.convert separator text = .ok v := by
  obtain ⟨s, given⟩ := u
  cases given with
  | some text =>
    cases hconvert : s.param.type.convert separator text <;> simp [value, hconvert]
  | none =>
    obtain ⟨v, hv⟩ : ∃ v, s.default = some v := by simpa [Option.isSome_iff_exists] using hu
    simp [value, hv]

/-- What does not convert is not told, and nothing else goes wrong with what is filled. -/
theorem failsOnly_value_of_filled {u : Supply}
    (hu : u.2.isSome = true ∨ u.1.default.isSome = true) :
    FailsOnly (· = .silent .value) (value separator u) := by
  unfold value
  split
  · split
    · exact .ok _
    · exact .error rfl
  · exact .ok _
  · rename_i hgiven hdefault
    simp [hgiven, hdefault] at hu

theorem Distributes.converts_iff (h : Distributes t.slots named supplies) :
    t.Converts named separator ↔ ∀ u ∈ supplies, ∀ text, u.2 = some text →
      ∃ v, u.1.param.type.convert separator text = .ok v := by
  constructor
  · intro hconverts u hu text htext
    obtain ⟨key, hkey, hselects⟩ := (h.eq_some_iff hu).1 htext
    exact hconverts (key, text) hkey u.1 (h.map_fst ▸ List.mem_map_of_mem hu) hselects
  · intro hall g hg s hs hselects
    obtain ⟨u, hu, rfl, -⟩ := exists_of_forall₂ h.texts hs
    exact hall u hu g.2 ((h.eq_some_iff hu).2 ⟨g.1, hg, hselects⟩)

theorem Distributes.exists_values_iff (h : Distributes t.slots named supplies)
    (hfilled : ∀ s ∈ t.slots, t.Filled named s) :
    (∃ es, supplies.mapM (value separator) = .ok es) ↔ t.Converts named separator := by
  have hvalue : ∀ u ∈ supplies, (∃ e, value separator u = .ok e) ↔
      ∀ text, u.2 = some text → ∃ v, u.1.param.type.convert separator text = .ok v :=
    fun u hu => exists_value_iff <|
      (h.filled_iff hu).1 (hfilled u.1 (h.map_fst ▸ List.mem_map_of_mem hu))
  rw [h.converts_iff]
  simp only [mapM_eq_ok]
  constructor
  · rintro ⟨es, hes⟩ u hu
    obtain ⟨e, -, he⟩ := exists_of_forall₂ hes hu
    exact (hvalue u hu).1 ⟨e, he⟩
  · exact fun hall => exists_forall₂ fun u hu => (hvalue u hu).2 (hall u hu)

theorem Distributes.values_eq_error (h : Distributes t.slots named supplies)
    (hfilled : ∀ s ∈ t.slots, t.Filled named s) :
    supplies.mapM (value separator) = .error r ↔
      r = .silent .value ∧ ¬ t.Converts named separator := by
  have hreason : FailsOnly (· = .silent .value) (supplies.mapM (value separator)) :=
    FailsOnly.mapM fun u hu => failsOnly_value_of_filled <|
      (h.filled_iff hu).1 (hfilled u.1 (h.map_fst ▸ List.mem_map_of_mem hu))
  rw [← h.exists_values_iff hfilled]
  cases hvalues : supplies.mapM (value separator) with
  | ok es => simp
  | error r' => simp [hreason r' hvalues, eq_comm]

theorem Distributes.gives (h : Distributes t.slots named supplies) {es : List (String × Value)}
    (hes : supplies.mapM (value separator) = .ok es) :
    List.Forall₂ (fun s e => e.1 = s.param.name ∧ t.Gives named separator s e.2) t.slots es := by
  rw [← h.map_fst, List.forall₂_map_left_iff]
  refine ((List.forall₂_and_left _ _).2 ⟨fun _ => id, mapM_eq_ok.1 hes⟩).imp ?_
  rintro u e ⟨hu, hvalue⟩
  obtain ⟨hname, ⟨text, htext, hconvert⟩ | ⟨hnone, hdefault⟩⟩ := value_eq_ok hvalue
  · obtain ⟨key, hkey, hselects⟩ := (h.eq_some_iff hu).1 htext
    exact ⟨hname, .argument hkey hselects hconvert⟩
  · refine ⟨hname, .default (fun g hg hselects => ?_) hdefault⟩
    rw [(h.eq_some_iff hu).2 ⟨g.1, hg, hselects⟩] at hnone
    cases hnone

end Supply

namespace Template

variable {t : Template} {args : List Argument} {named : List (String × String)} {separator : Char}
  {b : Binding} {r : Rejection}

/-- An argument that selects a slot is the only one, so the value of the slot is one only. -/
theorem KeysFit.gives_unique (ht : t.WellFormed) (h : t.KeysFit named) {s : Slot}
    (hs : s ∈ t.slots) {v w : Value} (hv : t.Gives named separator s v)
    (hw : t.Gives named separator s w) : v = w := by
  obtain ⟨supplies, hd⟩ := ht.keysFit_iff.1 h
  obtain ⟨u, hu, rfl, -⟩ := exists_of_forall₂ hd.texts hs
  obtain ⟨hg, hkey, hv⟩ | ⟨hnone, hv⟩ := hv <;> obtain ⟨hh, hkey', hw⟩ | ⟨hnone', hw⟩ := hw
  · have htext := (hd.eq_some_iff hu).2 ⟨_, hg, hkey⟩
    rw [(hd.eq_some_iff hu).2 ⟨_, hh, hkey'⟩, Option.some.injEq] at htext
    rw [htext, hv] at hw
    exact Except.ok.inj hw
  · exact absurd hkey (hnone' _ hg)
  · exact absurd hkey' (hnone _ hh)
  · exact Option.some.inj (hv.symm.trans hw)

/-- The arguments that a template binds by name. -/
structure BindsByName (t : Template) (args : List Argument) (separator : Char) : Prop where
  typed : t.Typed (args.filterMap Argument.positional?)
  keysFit : t.KeysFit (args.filterMap Argument.named?)
  filled : ∀ s ∈ t.slots, t.Filled (args.filterMap Argument.named?) s
  converts : t.Converts (args.filterMap Argument.named?) separator

/-- Why a template refuses arguments by name: the first check that they fail, all those before it
being passed. -/
inductive RefusesByName (t : Template) (args : List Argument) (separator : Char) : Rejection → Prop
  | wordCount (hcount : (args.filterMap Argument.positional?).length ≠ t.words.length) :
    RefusesByName t args separator (.silent .wordCount)
  | word (hcount : (args.filterMap Argument.positional?).length = t.words.length)
    (hword : ¬ t.Typed (args.filterMap Argument.positional?)) :
    RefusesByName t args separator (.silent .word)
  | key (htyped : t.Typed (args.filterMap Argument.positional?))
    {before after : List (String × String)} {key text : String}
    (hsplit : args.filterMap Argument.named? = before ++ (key, text) :: after)
    (hbefore : t.KeysFit before) {r : Rejection} (hkey : t.RefusesKey before key r) :
    RefusesByName t args separator r
  | missing (htyped : t.Typed (args.filterMap Argument.positional?))
    (hkeys : t.KeysFit (args.filterMap Argument.named?)) {pre post : List Slot} {s : Slot}
    (hsplit : t.slots = pre ++ s :: post)
    (hpre : ∀ u ∈ pre, t.Filled (args.filterMap Argument.named?) u)
    (hmissing : ¬ t.Filled (args.filterMap Argument.named?) s) :
    RefusesByName t args separator (.report (.requiredOptionMissing s.name))
  | value (htyped : t.Typed (args.filterMap Argument.positional?))
    (hkeys : t.KeysFit (args.filterMap Argument.named?))
    (hfilled : ∀ s ∈ t.slots, t.Filled (args.filterMap Argument.named?) s)
    (hvalue : ¬ t.Converts (args.filterMap Argument.named?) separator) :
    RefusesByName t args separator (.silent .value)

theorem exists_bindNamed_iff (ht : t.WellFormed) :
    (∃ b, t.bindNamed args separator = .ok b) ↔ t.BindsByName args separator := by
  simp only [bindNamed_iff_distributes]
  constructor
  · rintro ⟨b, hcount, hwords, supplies, es, hd, hes, -⟩
    have hfilled := hd.missing?_eq_none.1 (Supply.missing?_eq_none_of_values hes)
    exact ⟨ht.typed_iff.2 ⟨hcount, hwords⟩, ht.keysFit_iff.2 ⟨supplies, hd⟩, hfilled,
      (hd.exists_values_iff hfilled).1 ⟨es, hes⟩⟩
  · intro h
    obtain ⟨hcount, hwords⟩ := ht.typed_iff.1 h.typed
    obtain ⟨supplies, hd⟩ := ht.keysFit_iff.1 h.keysFit
    obtain ⟨es, hes⟩ := (hd.exists_values_iff h.filled).2 h.converts
    exact ⟨_, hcount, hwords, supplies, es, hd, hes, rfl⟩

theorem assigns_of_bindNamed (ht : t.WellFormed) (h : t.bindNamed args separator = .ok b) :
    b.Assigns t (t.Gives (args.filterMap Argument.named?) separator) := by
  obtain ⟨-, -, supplies, es, hd, hes, rfl⟩ := bindNamed_iff_distributes.1 h
  exact Binding.assigns_ofList ht (hd.gives hes)

theorem bindNamed_of_length_ne
    (h : (args.filterMap Argument.positional?).length ≠ t.wordCount) :
    t.bindNamed args separator = .error (.silent .wordCount) := by
  unfold bindNamed
  rw [if_pos h]
  rfl

theorem bindNamed_of_not_typed (ht : t.WellFormed)
    (hcount : (args.filterMap Argument.positional?).length = t.wordCount)
    (h : ¬ t.Typed (args.filterMap Argument.positional?)) :
    t.bindNamed args separator = .error (.silent .word) := by
  have hwords : ¬ Text.abbreviateAll (args.filterMap Argument.positional?) t.words = true :=
    fun hwords => h (ht.typed_iff.2 ⟨hcount, hwords⟩)
  unfold bindNamed
  rw [if_neg (not_not_intro hcount)]
  simp only [hwords]
  rfl

/-- Behind the words come the keys, the slots that are left, and the values. -/
theorem bindNamed_eq_error_of_typed (ht : t.WellFormed)
    (h : t.Typed (args.filterMap Argument.positional?)) :
    t.bindNamed args separator = .error r ↔
      Supply.giveAll (t.slots.map (·, none)) (args.filterMap Argument.named?) = .error r ∨
      ∃ supplies, Supply.Distributes t.slots (args.filterMap Argument.named?) supplies ∧
        ((∃ s, Supply.missing? supplies = some s ∧ r = .report (.requiredOptionMissing s.name)) ∨
          (Supply.missing? supplies = none ∧
            supplies.mapM (Supply.value separator) = .error r)) := by
  obtain ⟨hcount, hwords⟩ := ht.typed_iff.1 h
  unfold bindNamed
  simp only [hcount, hwords, ne_eq, not_true_eq_false, if_false, if_true, bind_eq_error,
    Supply.giveAll_eq_ok]
  refine or_congr_right (exists_congr fun supplies => and_congr_right fun hd => ?_)
  cases Supply.missing? supplies with
  | some s =>
    simp only [throw_bind, throw_eq_error, Option.some.injEq, exists_eq_left', reduceCtorEq,
      false_and, or_false]
    exact eq_comm
  | none =>
    simp only [bind_eq_error, pure_ne_error, and_false, exists_false, or_false, reduceCtorEq,
      false_and, false_or, true_and]

theorem bindNamed_eq_error_iff (ht : t.WellFormed) :
    t.bindNamed args separator = .error r ↔ t.RefusesByName args separator r := by
  have hwords := ht.wordCount_eq
  by_cases hcount : (args.filterMap Argument.positional?).length = t.words.length
  · by_cases htyped : t.Typed (args.filterMap Argument.positional?)
    · rw [bindNamed_eq_error_of_typed ht htyped, Supply.giveAll_eq_error ht]
      constructor
      · rintro (⟨before, key, text, after, hsplit, hbefore, hkey⟩ |
          ⟨supplies, hd, ⟨s, hmissing, rfl⟩ | ⟨hmissing, hvalues⟩⟩)
        · exact .key htyped hsplit hbefore hkey
        · obtain ⟨pre, post, hsplit, hpre, hs⟩ := hd.missing?_eq_some.1 hmissing
          exact .missing htyped (ht.keysFit_iff.2 ⟨supplies, hd⟩) hsplit hpre hs
        · have hfilled := hd.missing?_eq_none.1 hmissing
          obtain ⟨rfl, hvalue⟩ := (hd.values_eq_error hfilled).1 hvalues
          exact .value htyped (ht.keysFit_iff.2 ⟨supplies, hd⟩) hfilled hvalue
      · intro h
        cases h with
        | wordCount hne => exact absurd hcount hne
        | word _ hword => exact absurd htyped hword
        | key _ hsplit hbefore hkey => exact .inl ⟨_, _, _, _, hsplit, hbefore, hkey⟩
        | missing _ hkeys hsplit hpre hmissing =>
          obtain ⟨supplies, hd⟩ := ht.keysFit_iff.1 hkeys
          have hfirst := hd.missing?_eq_some.2 ⟨_, _, hsplit, hpre, hmissing⟩
          exact .inr ⟨supplies, hd, .inl ⟨_, hfirst, rfl⟩⟩
        | value _ hkeys hfilled hvalue =>
          obtain ⟨supplies, hd⟩ := ht.keysFit_iff.1 hkeys
          have hvalues := (hd.values_eq_error hfilled).2 ⟨rfl, hvalue⟩
          exact .inr ⟨supplies, hd, .inr ⟨hd.missing?_eq_none.2 hfilled, hvalues⟩⟩
    · rw [bindNamed_of_not_typed ht (hwords ▸ hcount) htyped, Except.error.injEq]
      constructor
      · rintro rfl
        exact .word hcount htyped
      · intro h
        cases h with
        | wordCount hne => exact absurd hcount hne
        | word => rfl
        | key h | missing h | value h => exact absurd h htyped
  · rw [bindNamed_of_length_ne (hwords ▸ hcount), Except.error.injEq]
    constructor
    · rintro rfl
      exact .wordCount hcount
    · intro h
      cases h with
      | wordCount => rfl
      | word h => exact absurd h hcount
      | key h | missing h | value h => exact absurd (typed_iff.1 h).1 hcount

/-- Binding by name gives what the arguments say exactly when all the checks are passed, and
otherwise is refused for the first that is not. -/
theorem bindNamed_outcome (ht : t.Built) (args : List Argument) (separator : Char) :
    ((∃ b, t.bindNamed args separator = .ok b) ↔ t.BindsByName args separator) ∧
      (∀ b, t.bindNamed args separator = .ok b ↔ t.BindsByName args separator ∧
        b.Assigns t (t.Gives (args.filterMap Argument.named?) separator)) ∧
      ∀ r, t.bindNamed args separator = .error r ↔ t.RefusesByName args separator r := by
  have hexists : (∃ b, t.bindNamed args separator = .ok b) ↔ t.BindsByName args separator :=
    exists_bindNamed_iff ht.wellFormed
  refine ⟨hexists, fun b => ⟨fun h => ?_, fun ⟨hbinds, hb⟩ => ?_⟩, fun r => ?_⟩
  · exact ⟨hexists.1 ⟨b, h⟩, assigns_of_bindNamed ht.wellFormed h⟩
  · obtain ⟨b', hb'⟩ := hexists.2 hbinds
    have hsame : b = b' := hb.unique ht.wellFormed (assigns_of_bindNamed ht.wellFormed hb')
      fun s hs v w => hbinds.keysFit.gives_unique ht.wellFormed hs
    rw [hsame, hb']
  · exact bindNamed_eq_error_iff ht.wellFormed

/-- A name that is missing is told even where the age is no number. -/
theorem bindNamed_outcome_findUser :
    findUser.Built ∧
      findUser.bindNamed [.positional "u", .named "a" "old", .positional "f"] ',' =
        .error (.report (.requiredOptionMissing "name")) := by
  have htyped : findUser.Typed ["u", "f"] := .cons (by decide) (.cons (by decide) .nil)
  have hkeys : findUser.KeysFit [("a", "old")] := by
    refine ⟨fun g hg => ?_, List.pairwise_singleton _ _⟩
    rw [List.mem_singleton.1 hg]
    exact ⟨_, .tail _ (.head _), by decide, by decide⟩
  have hmissing : ¬ findUser.Filled [("a", "old")] ⟨⟨"name", .one .string⟩, "name", none, ""⟩ := by
    simp only [Filled, Selects, List.mem_singleton, exists_eq_left]
    decide
  have hsplit : findUser.slots = [] ++ ⟨⟨"name", .one .string⟩, "name", none, ""⟩ ::
      findUser.slots.tail := rfl
  have hrefuses : findUser.RefusesByName
      [.positional "u", .named "a" "old", .positional "f"] ','
      (.report (.requiredOptionMissing "name")) :=
    .missing htyped hkeys hsplit (by simp) hmissing
  exact ⟨built_findUser, ((bindNamed_outcome built_findUser _ ',').2.2 _).2 hrefuses⟩

end Template

end Abbrev

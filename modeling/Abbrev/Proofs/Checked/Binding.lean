import Abbrev.Proofs.Binding.FullNames
import Abbrev.Proofs.Checked.Layout
import Abbrev.Proofs.Checked.Passing

/-! Binding over the tables of a template, with every pointer followed and every number taken away
under a check. A row, a parameter or a supplied text that is not where it is looked for leaves no
result at all. On the tables of a well-formed template no check fails, and the outcome is that of
binding to the template itself. -/

namespace Abbrev

namespace Layout

def fill? (l : Layout) (separator : Char) :
    List Cell → List String → ExceptT Rejection Option (List (String × Value))
  | .word w :: cells, token :: tokens =>
    if Text.abbreviates token w then l.fill? separator cells tokens else throw (.silent .word)
  | .slot i :: cells, token :: tokens => do
    let row ← check l.rows[i]?
    let param ← check (l.paramOf? row)
    match param.type.convert separator token with
    | .error _ => throw (.report (.incorrectArgumentType row.name param.type))
    | .ok v => do
      let rest ← l.fill? separator cells tokens
      pure ((param.name, v) :: rest)
  | _, _ => pure []

/-- The default of a row, if it has one, under the name of the parameter. -/
def default? (l : Layout) (r : Row) : Option (Option (String × Value)) :=
  match r.default with
  | none => some none
  | some v => do
    let param ← l.paramOf? r
    pure (some (param.name, v))

def defaults? (l : Layout) : Option (List (String × Value)) :=
  (l.rows.mapM l.default?).map List.reduceOption

/-- Whether so many tokens can be the words alone. The defaults are taken away from the parts only
when every parameter has one. -/
def wordsSuffice? (l : Layout) (count : Nat) : Option Bool :=
  if l.allDefaults then do
    let words ← Nat.psub l.cells.length l.defaultCount
    pure (words == count)
  else some false

def bindPositional? (l : Layout) (tokens : List String) (separator : Char) :
    ExceptT Rejection Option Binding :=
  if l.cells.length = tokens.length then do
    let entries ← l.fill? separator l.cells tokens
    pure (Binding.ofList entries)
  else do
    let suffice ← check (l.wordsSuffice? tokens.length)
    if suffice then
      if Text.abbreviateAll tokens l.words then do
        let defaults ← check l.defaults?
        pure (Binding.ofList defaults)
      else throw (.silent .word)
    else throw (.silent .argumentCount)

/-- Puts a text at the place of the one row whose name the key abbreviates. -/
def give? (l : Layout) (supplied : List (Option String)) (key text : String) :
    ExceptT Rejection Option (List (Option String)) :=
  match l.rows.zipIdx.filter fun r => Text.abbreviates key r.1.name with
  | [] => throw (.silent .key)
  | [(row, i)] => do
    let before ← check supplied[i]?
    if before.isSome then throw (.report (.duplicateOption row.name))
    else pure (supplied.set i (some text))
  | _ => throw (.report (.ambiguousOptionName key))

def giveAll? (l : Layout) (supplied : List (Option String)) (named : List (String × String)) :
    ExceptT Rejection Option (List (Option String)) :=
  named.foldlM (fun supplied x => l.give? supplied x.1 x.2) supplied

/-- The default that stands in for a text that is not there. -/
def standIn? (l : Layout) (u : Row × Option String) :
    ExceptT Rejection Option (Option (String × Value)) :=
  match u.2, u.1.default with
  | some _, _ => pure none
  | none, none => throw (.report (.requiredOptionMissing u.1.name))
  | none, some v => do
    let param ← check (l.paramOf? u.1)
    pure (some (param.name, v))

/-- The value of a text that is there. -/
def converted? (l : Layout) (separator : Char) (u : Row × Option String) :
    ExceptT Rejection Option (Option (String × Value)) :=
  match u.2 with
  | none => pure none
  | some text => do
    let param ← check (l.paramOf? u.1)
    match param.type.convert separator text with
    | .error _ => throw (.silent .value)
    | .ok v => pure (some (param.name, v))

/-- The defaults are bound in a first pass over the rows, the texts in a second one. -/
def bindSupplied? (l : Layout) (separator : Char) (supplied : List (Option String)) :
    ExceptT Rejection Option Binding := do
  let defaults ← (l.rows.zip supplied).mapM l.standIn?
  let values ← (l.rows.zip supplied).mapM (l.converted? separator)
  pure (Binding.ofList (defaults.reduceOption ++ values.reduceOption))

def bindNamed? (l : Layout) (args : List Argument) (separator : Char) :
    ExceptT Rejection Option Binding := do
  let positional := args.filterMap Argument.positional?
  if positional.length ≠ l.wordCount then throw (.silent .wordCount)
  unless Text.abbreviateAll positional l.words do throw (.silent .word)
  let supplied ← l.giveAll? (List.replicate l.rows.length none) (args.filterMap Argument.named?)
  l.bindSupplied? separator supplied

end Layout

namespace Supply

/-- What a first pass binds: the default that stands in for a text that is not there. -/
def standIn (u : Supply) : Except Rejection (Option (String × Value)) :=
  match u.2, u.1.default with
  | some _, _ => .ok none
  | none, none => .error (.report (.requiredOptionMissing u.1.name))
  | none, some v => .ok (some (u.1.param.name, v))

/-- What a second pass binds: the value of a text that is there. -/
def converted (separator : Char) (u : Supply) : Except Rejection (Option (String × Value)) :=
  match u.2 with
  | none => .ok none
  | some text => match u.1.param.type.convert separator text with
    | .error _ => .error (.silent .value)
    | .ok v => .ok (some (u.1.param.name, v))

variable {u : Supply} {supplies : List Supply} {separator : Char}
  {d g : Option (String × Value)} {ds gs : List (Option (String × Value))}

/-- Where neither pass fails, exactly one of them binds a value, which is the value supplied. -/
theorem value_of_passes (hd : standIn u = .ok d) (hg : converted separator u = .ok g) :
    ∃ e, value separator u = .ok e ∧ (d = some e ∧ g = none ∨ d = none ∧ g = some e) := by
  obtain ⟨s, given⟩ := u
  cases given with
  | none =>
    cases hdefault : s.default with
    | none => simp [standIn, hdefault] at hd
    | some v =>
      cases hg
      simp only [standIn, hdefault, Except.ok.injEq] at hd
      exact ⟨(s.param.name, v), by simp [value, hdefault], .inl ⟨hd.symm, rfl⟩⟩
  | some text =>
    cases hd
    cases hconvert : s.param.type.convert separator text with
    | error e => simp [converted, hconvert] at hg
    | ok v =>
      simp only [converted, hconvert, Except.ok.injEq] at hg
      exact ⟨(s.param.name, v), by simp [value, hconvert], .inr ⟨rfl, hg.symm⟩⟩

theorem value_of_converted_error {r : Rejection} (hg : converted separator u = .error r) :
    value separator u = .error r := by
  obtain ⟨s, given⟩ := u
  cases given with
  | none => cases hg
  | some text =>
    cases hconvert : s.param.type.convert separator text with
    | error e => simpa [converted, value, hconvert] using hg
    | ok v => simp [converted, hconvert] at hg

theorem exists_standIn_iff :
    (∃ d, standIn u = .ok d) ↔ (u.2.isNone && u.1.default.isNone) = false := by
  obtain ⟨s, given⟩ := u
  unfold standIn
  cases given <;> cases s.default <;> simp

theorem standIn_eq_error (h : (u.2.isNone && u.1.default.isNone) = true) :
    standIn u = .error (.report (.requiredOptionMissing u.1.name)) := by
  rw [Bool.and_eq_true, Option.isNone_iff_eq_none, Option.isNone_iff_eq_none] at h
  simp [standIn, h.1, h.2]

/-- The first pass stops at the first slot without a text and without a default. -/
theorem mapM_standIn_of_missing {s : Slot} (h : missing? supplies = some s) :
    supplies.mapM standIn = .error (.report (.requiredOptionMissing s.name)) := by
  obtain ⟨u, hfind, rfl⟩ := Option.map_eq_some_iff.1 h
  obtain ⟨hu, before, after, hsplit, hbefore⟩ := List.find?_eq_some_iff_append.1 hfind
  refine mapM_eq_error.2 ⟨before, u, after, hsplit, fun y hy => ?_, standIn_eq_error hu⟩
  exact exists_standIn_iff.2 (by simpa only [Bool.not_eq_true'] using hbefore y hy)

theorem exists_mapM_standIn (h : missing? supplies = none) :
    ∃ ds, List.Forall₂ (standIn · = .ok ·) supplies ds := by
  rw [missing?, Option.map_eq_none_iff, List.find?_eq_none] at h
  exact exists_forall₂ fun u hu => exists_standIn_iff.2 (Bool.eq_false_iff.2 (h u hu))

/-- Two passes bind the values that a single one binds, in another order. -/
theorem perm_of_passes (hds : List.Forall₂ (standIn · = .ok ·) supplies ds)
    (hgs : List.Forall₂ (converted separator · = .ok ·) supplies gs) :
    ∃ es, List.Forall₂ (value separator · = .ok ·) supplies es ∧
      (ds.reduceOption ++ gs.reduceOption).Perm es := by
  induction hds generalizing gs with
  | nil =>
    cases hgs
    exact ⟨[], .nil, .refl _⟩
  | @cons u d supplies ds hd _ ih =>
    obtain ⟨g, gs, hg, hrest, rfl⟩ := List.forall₂_cons_left_iff.1 hgs
    obtain ⟨es, hes, hperm⟩ := ih hrest
    obtain ⟨e, he, ⟨rfl, rfl⟩ | ⟨rfl, rfl⟩⟩ := value_of_passes hd hg
    · exact ⟨e :: es, .cons he hes, hperm.cons e⟩
    · exact ⟨e :: es, .cons he hes, List.perm_middle.trans (hperm.cons e)⟩

theorem mapM_value_of_converted_error {r : Rejection}
    (hds : List.Forall₂ (standIn · = .ok ·) supplies ds)
    (h : supplies.mapM (converted separator) = .error r) :
    supplies.mapM (value separator) = .error r := by
  obtain ⟨before, u, after, rfl, hbefore, hu⟩ := mapM_eq_error.1 h
  refine mapM_eq_error.2 ⟨before, u, after, rfl, fun y hy => ?_, value_of_converted_error hu⟩
  obtain ⟨d, -, hd⟩ := exists_of_forall₂ hds (List.mem_append_left _ hy)
  obtain ⟨g, hg⟩ := hbefore y hy
  obtain ⟨e, he, -⟩ := value_of_passes hd hg
  exact ⟨e, he⟩

/-- The two passes come to what a single one over the slots comes to. -/
theorem passes_eq (hn : (supplies.map (·.1.param.name)).Nodup) :
    (do
      let defaults ← supplies.mapM standIn
      let values ← supplies.mapM (converted separator)
      pure (Binding.ofList (defaults.reduceOption ++ values.reduceOption))) =
    (do
      if let some slot := missing? supplies then
        throw (.report (.requiredOptionMissing slot.name))
      let entries ← supplies.mapM (value separator)
      pure (Binding.ofList entries)) := by
  cases hmissing : missing? supplies with
  | some s =>
    rw [mapM_standIn_of_missing hmissing]
    rfl
  | none =>
    obtain ⟨ds, hds⟩ := exists_mapM_standIn hmissing
    rw [mapM_eq_ok.2 hds]
    cases hvalues : supplies.mapM (converted separator) with
    | error r =>
      rw [mapM_value_of_converted_error hds hvalues]
      rfl
    | ok gs =>
      obtain ⟨es, hes, hperm⟩ := perm_of_passes hds (mapM_eq_ok.1 hvalues)
      have hnames : es.map (·.1) = supplies.map (·.1.param.name) :=
        map_eq_map_of_forall₂ (hes.imp fun _ _ he => (value_eq_ok he).1)
      rw [mapM_eq_ok.2 hes]
      exact congrArg Except.ok (Binding.ofList_eq_of_perm hperm (hnames ▸ hn))

end Supply

/-- If a test leaves one element over, it holds at the place of that element and nowhere else. -/
theorem getElem_iff_of_filter_eq_singleton {α : Type} {q : α → Bool} {xs : List α} {x : α} {i : Nat}
    (h : (xs.zipIdx.filter fun y => q y.1) = [(x, i)]) {j : Nat} (hj : j < xs.length) :
    q xs[j] = true ↔ i = j := by
  have hmem (y : α × Nat) : y = (x, i) ↔ xs[y.2]? = some y.1 ∧ q y.1 = true := by
    rw [← List.mem_singleton, ← h, List.mem_filter, List.mem_zipIdx_iff_getElem?]
  constructor
  · intro hq
    exact (Prod.mk.inj ((hmem (xs[j], j)).2 ⟨List.getElem?_eq_getElem hj, hq⟩)).2.symm
  · rintro rfl
    obtain ⟨hat, hq⟩ := (hmem (x, i)).1 rfl
    rwa [Option.some.inj ((List.getElem?_eq_getElem hj).symm.trans hat)]

namespace Layout

variable {l : Layout} {separator : Char}

theorem fill?_eq {cells : List Cell} {parts : List Part} (h : List.Forall₂ l.HoldsPart cells parts)
    (tokens : List String) :
    l.fill? separator cells tokens = passing (Template.fill separator parts tokens) := by
  induction h generalizing tokens with
  | nil => rfl
  | @cons c p cells parts hcp _ ih =>
    cases tokens with
    | nil => cases hcp <;> rfl
    | cons token tokens =>
      cases hcp with
      | word w =>
        rw [fill?, Template.fill, ih]
        split <;> rfl
      | @slot i r s row holds =>
        rw [fill?, Template.fill, row, check_some, pure_bind, holds.paramOf, check_some, pure_bind,
          holds.name_eq]
        cases s.param.type.convert separator token with
        | error e => rfl
        | ok v =>
          rw [ih, passing_bind]
          rfl

theorem standIn?_eq {r : Row} {s : Slot} (h : l.HoldsSlot r s) (given : Option String) :
    l.standIn? (r, given) = passing (Supply.standIn (s, given)) := by
  rw [standIn?, Supply.standIn, h.default_eq, h.name_eq, h.paramOf]
  cases given <;> cases s.default <;> rfl

theorem converted?_eq {r : Row} {s : Slot} (h : l.HoldsSlot r s) (given : Option String) :
    l.converted? separator (r, given) = passing (Supply.converted separator (s, given)) := by
  rw [converted?, Supply.converted, h.paramOf]
  cases given with
  | none => rfl
  | some text =>
    dsimp only
    rw [check_some, pure_bind]
    cases s.param.type.convert separator text <;> rfl

end Layout

namespace Template

variable {t : Template} {separator : Char}

theorem WellFormed.defaults?_eq (h : t.WellFormed) : t.layout.defaults? = some t.defaults := by
  have hrows : t.layout.rows.mapM t.layout.default? =
      some (t.slots.map fun s => s.default.map (s.param.name, ·)) := by
    refine mapM_eq_some (h.rows_slots.imp fun r s hrs => ?_)
    rw [Layout.default?, hrs.default_eq, hrs.paramOf]
    cases s.default <;> rfl
  rw [Layout.defaults?, hrows, Option.map_some]
  exact congrArg some List.filterMap_map

theorem WellFormed.wordsSuffice?_eq (h : t.WellFormed) (count : Nat) :
    t.layout.wordsSuffice? count =
      some (t.allDefaults && t.parts.length - t.defaultCount == count) := by
  have hall : t.layout.allDefaults = t.allDefaults := rfl
  rw [Layout.wordsSuffice?, h.psub_defaultCount, hall]
  cases t.allDefaults <;> rfl

theorem WellFormed.bindPositional?_eq (h : t.WellFormed) (tokens : List String) :
    t.layout.bindPositional? tokens separator = passing (t.bindPositional tokens separator) := by
  rw [Layout.bindPositional?, bindPositional, h.length_cells, Layout.fill?_eq h.lays.cells,
    h.wordsSuffice?_eq, h.layout_words, h.defaults?_eq, check_some, pure_bind]
  split
  · exact (passing_map _ _).symm
  · split
    · split <;> rfl
    · rfl

section Supplies

variable {supplies : List Supply} {key text : String}

theorem WellFormed.rows_supplies (h : t.WellFormed) (hslots : supplies.map (·.1) = t.slots) :
    List.Forall₂ (fun r (u : Supply) => t.layout.HoldsSlot r u.1) t.layout.rows supplies := by
  rw [← List.forall₂_map_right_iff (f := Prod.fst), hslots]
  exact h.rows_slots

/-- A row with its place stands for a slot with the text supplied at that place. -/
theorem WellFormed.zipIdx_rows (h : t.WellFormed) (hslots : supplies.map (·.1) = t.slots) :
    List.Forall₂ (fun (r : Row × Nat) (u : Supply) => t.layout.HoldsSlot r.1 u.1 ∧
      (supplies.map (·.2))[r.2]? = some u.2) t.layout.rows.zipIdx supplies := by
  have hrows := h.rows_supplies hslots
  refine List.forall₂_iff_get.2 ⟨by simpa using hrows.length_eq, fun i hi hi' => ?_⟩
  have hrow : i < t.layout.rows.length := by simpa using hi
  have hholds : t.layout.HoldsSlot t.layout.rows[i] supplies[i].1 := hrows.get hrow hi'
  simpa [hi'] using hholds

/-- The text goes to the one place whose slot the key abbreviates. -/
theorem WellFormed.map_receive (h : t.WellFormed) (hslots : supplies.map (·.1) = t.slots)
    {row : Row} {i : Nat}
    (hone : (t.layout.rows.zipIdx.filter fun r => Text.abbreviates key r.1.name) = [(row, i)]) :
    (supplies.map (Supply.receive key text)).map (·.2) =
      (supplies.map (·.2)).set i (some text) := by
  have hrows := h.rows_supplies hslots
  refine List.ext_getElem (by simp) fun j hj _ => ?_
  have hsupply : j < supplies.length := by simpa using hj
  have hrow : j < t.layout.rows.length := hrows.length_eq ▸ hsupply
  have hname : t.layout.rows[j].name = supplies[j].1.name := (hrows.get hrow hsupply).name_eq
  have hkey : Text.abbreviates key supplies[j].1.name = true ↔ i = j := by
    rw [← hname]
    exact getElem_iff_of_filter_eq_singleton (q := fun r : Row => Text.abbreviates key r.name) hone
      hrow
  rw [List.getElem_set, List.getElem_map, List.getElem_map, List.getElem_map, Supply.receive]
  by_cases hij : i = j
  · rw [if_pos (hkey.2 hij), if_pos hij]
  · rw [if_neg (mt hkey.1 hij), if_neg hij]

theorem WellFormed.give?_eq (h : t.WellFormed) (hslots : supplies.map (·.1) = t.slots) :
    t.layout.give? (supplies.map (·.2)) key text =
      passing ((Supply.give supplies key text).map (·.map (·.2))) := by
  have hfilter := List.rel_filter (p := fun r => Text.abbreviates key r.1.name)
    (q := fun u => Text.abbreviates key u.1.name)
    (fun r u hru => by simp [hru.1.name_eq]) (h.zipIdx_rows hslots)
  rw [Layout.give?, Supply.give]
  generalize hrows : t.layout.rows.zipIdx.filter (fun r => Text.abbreviates key r.1.name) = rows
    at hfilter
  generalize supplies.filter (fun u => Text.abbreviates key u.1.name) = fitting at hfilter
  cases hfilter with
  | nil => rfl
  | @cons r u _ _ hru hrest =>
    obtain ⟨row, i⟩ := r
    obtain ⟨slot, given⟩ := u
    cases hrest with
    | nil =>
      obtain ⟨hholds, hat⟩ := hru
      dsimp only
      rw [hat, check_some, pure_bind, hholds.name_eq]
      cases given with
      | some before => rfl
      | none =>
        rw [← h.map_receive hslots hrows]
        rfl
    | cons _ _ => cases given <;> rfl

theorem WellFormed.giveAll?_eq (h : t.WellFormed) (hslots : supplies.map (·.1) = t.slots)
    (named : List (String × String)) :
    t.layout.giveAll? (supplies.map (·.2)) named =
      passing ((Supply.giveAll supplies named).map (·.map (·.2))) := by
  induction named generalizing supplies with
  | nil => rfl
  | cons x named ih =>
    obtain ⟨key, text⟩ := x
    rw [Layout.giveAll?, List.foldlM_cons, h.give?_eq hslots, Supply.giveAll, List.foldlM_cons]
    dsimp only
    cases hgive : Supply.give supplies key text with
    | error r => rfl
    | ok supplies => exact ih ((Supply.map_fst_of_give hgive).trans hslots)

theorem WellFormed.zip_rows (h : t.WellFormed) (hslots : supplies.map (·.1) = t.slots) :
    List.Forall₂ (fun (r : Row × Option String) (u : Supply) =>
        t.layout.HoldsSlot r.1 u.1 ∧ r.2 = u.2)
      (t.layout.rows.zip (supplies.map (·.2))) supplies := by
  refine (h.rows_supplies hslots).rec .nil fun hru _ ih => ?_
  exact .cons ⟨hru, rfl⟩ ih

/-- Both passes over the rows are the passes over what is supplied for the slots. -/
theorem WellFormed.bindSupplied?_eq (h : t.WellFormed) (hslots : supplies.map (·.1) = t.slots) :
    t.layout.bindSupplied? separator (supplies.map (·.2)) = passing (do
      let defaults ← supplies.mapM Supply.standIn
      let values ← supplies.mapM (Supply.converted separator)
      pure (Binding.ofList (defaults.reduceOption ++ values.reduceOption))) := by
  have hdefaults : (t.layout.rows.zip (supplies.map (·.2))).mapM t.layout.standIn? =
      passing (supplies.mapM Supply.standIn) := by
    refine mapM_eq_passing ((h.zip_rows hslots).imp ?_)
    rintro ⟨r, given⟩ ⟨s, _⟩ ⟨hholds, rfl⟩
    exact Layout.standIn?_eq hholds given
  have hvalues : (t.layout.rows.zip (supplies.map (·.2))).mapM (t.layout.converted? separator) =
      passing (supplies.mapM (Supply.converted separator)) := by
    refine mapM_eq_passing ((h.zip_rows hslots).imp ?_)
    rintro ⟨r, given⟩ ⟨s, _⟩ ⟨hholds, rfl⟩
    exact Layout.converted?_eq hholds given
  rw [Layout.bindSupplied?, hdefaults, hvalues]
  simp only [passing_bind]
  rfl

end Supplies

theorem WellFormed.bindNamed?_eq (h : t.WellFormed) (args : List Argument) :
    t.layout.bindNamed? args separator = passing (t.bindNamed args separator) := by
  have hempty : List.replicate t.layout.rows.length (none : Option String) =
      (t.slots.map fun s => ((s, none) : Supply)).map (·.2) := by
    have hrows : t.layout.rows.length = t.slots.length := h.rows_slots.length_eq
    simp [hrows, Function.comp_def]
  have hslots : (t.slots.map fun s => ((s, none) : Supply)).map (·.1) = t.slots := by
    simp [Function.comp_def]
  have hcount : t.layout.wordCount = t.wordCount := rfl
  rw [Layout.bindNamed?, bindNamed, hcount, h.layout_words, hempty, h.giveAll?_eq hslots]
  dsimp only
  split
  · rfl
  · split
    · cases hgive : Supply.giveAll (t.slots.map (·, none)) (args.filterMap Argument.named?) with
      | error r => rfl
      | ok supplies =>
        have hkept := (Supply.giveAll_keeps hgive).1.trans hslots
        have hn : (supplies.map (·.1.param.name)).Nodup := by
          have hnames := h.slotParamNames_nodup
          rw [← hkept, List.map_map] at hnames
          exact hnames
        change t.layout.bindSupplied? separator (supplies.map (·.2)) = _
        rw [h.bindSupplied?_eq hkept, Supply.passes_eq hn]
        rfl
    · rfl

end Template

end Abbrev

import Abbrev.Proofs.Success
import Abbrev.Template.Declaration
import Mathlib.Data.List.Induction
import Mathlib.Data.List.Nodup

/-! The tables of a template. Reading a path adds one cell at a time and, for a placeholder, one row
and one place. What was held before is still held afterwards, so that in the end every place that
stands in a table is where it should be: a cell points to its row, a row to its parameter, and a
name to what has it. -/

namespace Abbrev

section Names

variable {α : Type} {name : α → String} {xs : List α} {n : String} {i : Nat} {x : α}

/-- Where no two elements have one name, a search by name finds the element of that name. -/
theorem find?_eq_some_iff_mem (h : (xs.map name).Nodup) :
    xs.find? (name · == n) = some x ↔ x ∈ xs ∧ name x = n := by
  constructor
  · intro hfind
    exact ⟨List.mem_of_find?_eq_some hfind, by simpa using List.find?_some hfind⟩
  · rintro ⟨hx, rfl⟩
    cases hfind : xs.find? (name · == name x) with
    | none =>
      have hother := List.find?_eq_none.1 hfind x hx
      simp at hother
    | some y =>
      have hname : name y = name x := by simpa using List.find?_some hfind
      rw [List.inj_on_of_nodup_map h (List.mem_of_find?_eq_some hfind) hx hname]

theorem eq_of_getElem?_of_name (h : (xs.map name).Nodup) {j : Nat} {y : α} (hx : xs[i]? = some x)
    (hy : xs[j]? = some y) (hname : name x = name y) : i = j := by
  have hi : i < (xs.map name).length := by
    rw [List.length_map]
    exact (List.getElem?_eq_some_iff.1 hx).1
  refine (List.getElem?_inj hi h).1 ?_
  rw [List.getElem?_map, List.getElem?_map, hx, hy, Option.map_some, Option.map_some, hname]

/-- The place of an element is where its name is first found. -/
theorem getElem?_findIdx_name (h : (xs.map name).Nodup) (hx : x ∈ xs) :
    xs[xs.findIdx (name · == name x)]? = some x := by
  rw [← List.find?_eq_getElem?_findIdx, find?_eq_some_iff_mem h]
  exact ⟨hx, rfl⟩

/-- Writing at the place of an element changes what is written for its name only. -/
theorem map_set_of_name {β : Type} (name : α → String) (h : (xs.map name).Nodup)
    (hx : xs[i]? = some x) (f : α → β) (b : β) :
    (xs.map f).set i b = xs.map fun y => if name y = name x then b else f y := by
  refine List.ext_getElem (by simp) fun j hj _ => ?_
  have hj : j < xs.length := by simpa using hj
  rw [List.getElem_set, List.getElem_map, List.getElem_map]
  by_cases hij : i = j
  · subst hij
    obtain rfl := Option.some.inj ((List.getElem?_eq_getElem hj).symm.trans hx)
    rw [if_pos rfl, if_pos rfl]
  · have hother : name xs[j] ≠ name x := fun heq =>
      hij (eq_of_getElem?_of_name h hx (List.getElem?_eq_getElem hj) heq.symm)
    rw [if_neg hij, if_neg hother]

/-- The places of the elements of a list by their names. -/
def placesBy (name : α → String) (xs : List α) : Places :=
  (xs.zipIdx.map fun x => (name x.1, x.2)).reverse

theorem placesBy_concat (xs : List α) (x : α) :
    placesBy name (xs ++ [x]) = (name x, xs.length) :: placesBy name xs := by
  simp [placesBy, List.zipIdx_append]

theorem lookup_placesBy_isSome : ((placesBy name xs).lookup n).isSome = true ↔ n ∈ xs.map name := by
  induction xs using List.reverseRecOn with
  | nil => simp [placesBy]
  | append_singleton xs x ih =>
    rw [placesBy_concat, List.lookup_cons, List.map_append, List.mem_append, List.map_singleton,
      List.mem_singleton, ← ih]
    by_cases hn : n = name x
    · simp only [hn, beq_self_eq_true, Option.isSome_some, or_true]
    · simp only [beq_eq_false_iff_ne.2 hn, hn, or_false]

theorem lookup_placesBy (h : (xs.map name).Nodup) :
    (placesBy name xs).lookup n = some i ↔ ∃ x, xs[i]? = some x ∧ name x = n := by
  induction xs using List.reverseRecOn with
  | nil => simp [placesBy]
  | append_singleton xs x ih =>
    have hlast : (xs ++ [x])[xs.length]? = some x := List.getElem?_concat_length
    have hfirst : (xs.map name).Nodup := by
      rw [List.map_append] at h
      exact h.sublist (List.sublist_append_left _ _)
    rw [placesBy_concat, List.lookup_cons]
    by_cases hn : n = name x
    · subst hn
      rw [beq_self_eq_true, Option.some.injEq]
      constructor
      · rintro rfl
        exact ⟨x, hlast, rfl⟩
      · rintro ⟨y, hy, hname⟩
        exact eq_of_getElem?_of_name h hlast hy hname.symm
    · rw [beq_eq_false_iff_ne.2 hn, ih hfirst]
      refine exists_congr fun y => and_congr_left fun hname => ?_
      constructor
      · intro hy
        rw [List.getElem?_append_left (List.getElem?_eq_some_iff.1 hy).1, hy]
      · intro hy
        rw [List.getElem?_append] at hy
        split at hy
        · exact hy
        · rw [List.getElem?_singleton] at hy
          split at hy
          · cases hy
            exact absurd hname.symm hn
          · cases hy

theorem lookup_placesBy_of_mem (h : (xs.map name).Nodup) (hx : x ∈ xs) :
    (placesBy name xs).lookup (name x) = some (xs.findIdx (name · == name x)) :=
  (lookup_placesBy h).2 ⟨x, getElem?_findIdx_name h hx, rfl⟩

end Names

namespace Layout

variable {l : Layout} {parts : List Part} {r : Row} {s : Slot} {c : Cell} {p : Part}

/-- A row stands for a slot and points to the slot's parameter. -/
structure HoldsSlot (l : Layout) (r : Row) (s : Slot) : Prop where
  paramOf : l.paramOf? r = some s.param
  name_eq : r.name = s.name
  default_eq : r.default = s.default
  help_eq : r.help = s.help

/-- A cell stands for a part, and points to the row of a slot. -/
inductive HoldsPart (l : Layout) : Cell → Part → Prop
  | word (w : String) : HoldsPart l (.word w) (.word w)
  | slot {i : Nat} {r : Row} {s : Slot} (row : l.rows[i]? = some r) (holds : l.HoldsSlot r s) :
    HoldsPart l (.slot i) (.slot s)

theorem slot?_eq_some : l.slot? r = some s ↔ l.HoldsSlot r s := by
  obtain ⟨p, name, default, help⟩ := s
  rw [slot?, Option.map_eq_some_iff]
  constructor
  · rintro ⟨q, hq, hslot⟩
    cases hslot
    exact ⟨hq, rfl, rfl, rfl⟩
  · rintro ⟨hparam, rfl, rfl, rfl⟩
    exact ⟨p, hparam, rfl⟩

theorem part?_eq_some : l.part? c = some p ↔ l.HoldsPart c p := by
  constructor
  · intro h
    cases c with
    | word w =>
      cases h
      exact .word w
    | slot i =>
      obtain ⟨s, hs, rfl⟩ := Option.map_eq_some_iff.1 h
      obtain ⟨r, row, hs⟩ := Option.bind_eq_some_iff.1 hs
      exact .slot row (slot?_eq_some.1 hs)
  · rintro (w | ⟨row, holds⟩)
    · rfl
    · rw [part?, row, Option.bind_some, slot?_eq_some.2 holds, Option.map_some]

/-- What is held once is held as long as rows are only added. -/
theorem HoldsSlot.mono (h : l.HoldsSlot r s) {l' : Layout} (hparams : l'.params = l.params) :
    l'.HoldsSlot r s :=
  ⟨by rw [paramOf?, hparams]; exact h.paramOf, h.name_eq, h.default_eq, h.help_eq⟩

theorem HoldsPart.mono (h : l.HoldsPart c p) {l' : Layout} (hparams : l'.params = l.params)
    (hrows : l.rows <+: l'.rows) : l'.HoldsPart c p := by
  cases h with
  | word w => exact .word w
  | slot row holds =>
    obtain ⟨more, hmore⟩ := hrows
    refine .slot ?_ (holds.mono hparams)
    rw [← hmore, List.getElem?_append_left (List.getElem?_eq_some_iff.1 row).1, row]

/-- The tables of some parts: the cells stand for the parts and the rows for the slots, one by one;
the cells have the places of all rows in their order; names have their places, and the numbers are
right. -/
structure Lays (l : Layout) (parts : List Part) : Prop where
  cells : List.Forall₂ l.HoldsPart l.cells parts
  rows : List.Forall₂ l.HoldsSlot l.rows (parts.filterMap Part.slot?)
  places : l.cells.filterMap Cell.slot? = List.range l.rows.length
  paramPlaces : l.paramPlaces = placesBy Param.name l.params
  rowPlaces : l.rowPlaces = placesBy Row.name l.rows
  wordCount : l.wordCount = l.cells.countP (·.word?.isSome)
  defaultCount : l.defaultCount = l.rows.countP (·.default.isSome)

theorem filterMap_of_forall₂ {α β : Type} {f : α → Option β} {xs : List α} {ys : List β}
    (h : List.Forall₂ (f · = some ·) xs ys) : xs.filterMap f = ys := by
  induction h with
  | nil => rfl
  | cons hxy _ ih => rw [List.filterMap_cons_some hxy, ih]

theorem Lays.parts_eq (h : l.Lays parts) : l.cells.filterMap l.part? = parts :=
  filterMap_of_forall₂ (h.cells.imp fun _ _ => part?_eq_some.2)

theorem Lays.slots_eq (h : l.Lays parts) :
    l.rows.filterMap l.slot? = parts.filterMap Part.slot? :=
  filterMap_of_forall₂ (h.rows.imp fun _ _ => slot?_eq_some.2)

theorem Lays.rowNames_eq (h : l.Lays parts) :
    l.rows.map (·.name) = (parts.filterMap Part.slot?).map (·.name) :=
  map_eq_map_of_forall₂ (h.rows.flip.imp fun _ _ hrs => hrs.name_eq)

theorem Lays.wordCount_eq (h : l.Lays parts) :
    l.wordCount = (parts.filterMap Part.word?).length := by
  have hword : ∀ c p, l.HoldsPart c p → c.word?.isSome = p.word?.isSome := by
    rintro _ _ (_ | _) <;> rfl
  rw [h.wordCount, List.length_filterMap_eq_countP]
  refine h.cells.rec rfl fun hcp _ ih => ?_
  rw [List.countP_cons, List.countP_cons, ih, hword _ _ hcp]

theorem Lays.defaultCount_eq (h : l.Lays parts) :
    l.defaultCount = (parts.filterMap Part.slot?).countP (·.default.isSome) := by
  rw [h.defaultCount]
  refine h.rows.rec rfl fun hrs _ ih => ?_
  rw [List.countP_cons, List.countP_cons, ih, hrs.default_eq]

end Layout

namespace Tables

variable {tb : Tables} {params : List Param} {places : Places} {parts : List Part}

theorem lays_empty (params : List Param) :
    (empty.layout params (placesBy Param.name params)).Lays [] :=
  ⟨.nil, .nil, rfl, rfl, rfl, rfl, rfl⟩

theorem lays_addWord (h : (tb.layout params (placesBy Param.name params)).Lays parts) (w : String) :
    ((tb.addWord w).layout params (placesBy Param.name params)).Lays (parts ++ [.word w]) where
  cells := List.rel_append (h.cells.imp fun _ _ hcp => hcp.mono rfl (List.prefix_refl _))
    (.cons (.word w) .nil)
  rows := by
    have hnone : [Part.word w].filterMap Part.slot? = [] := rfl
    rw [List.filterMap_append, hnone, List.append_nil]
    exact h.rows.imp fun _ _ hrs => hrs.mono rfl
  places := by
    have hnone : [Cell.word w].filterMap Cell.slot? = [] := rfl
    have hcells : ((tb.addWord w).layout params (placesBy Param.name params)).cells =
        tb.cells ++ [.word w] := rfl
    rw [hcells, List.filterMap_append, hnone, List.append_nil]
    exact h.places
  paramPlaces := rfl
  rowPlaces := h.rowPlaces
  wordCount := rfl
  defaultCount := rfl

theorem lays_addRow (h : (tb.layout params (placesBy Param.name params)).Lays parts) {r : Row}
    {s : Slot} (hs : (tb.layout params (placesBy Param.name params)).HoldsSlot r s) :
    ((tb.addRow r).layout params (placesBy Param.name params)).Lays (parts ++ [.slot s]) where
  cells := by
    have hlast : (tb.rows ++ [r])[tb.rows.length]? = some r := List.getElem?_concat_length
    exact List.rel_append (h.cells.imp fun _ _ hcp => hcp.mono rfl (List.prefix_append _ _))
      (.cons (.slot hlast (hs.mono rfl)) .nil)
  rows := by
    rw [List.filterMap_append]
    exact List.rel_append (h.rows.imp fun _ _ hrs => hrs.mono rfl) (.cons (hs.mono rfl) .nil)
  places := by
    have hplaces := h.places
    simp only [layout] at hplaces
    simp [addRow, layout, List.filterMap_append, Cell.slot?, hplaces, List.range_succ]
  paramPlaces := rfl
  rowPlaces := by
    have hrowPlaces := h.rowPlaces
    simp only [layout] at hrowPlaces
    simp [addRow, layout, placesBy_concat, hrowPlaces]
  wordCount := rfl
  defaultCount := rfl

/-- The tables once a further part has been read. -/
def push (params : List Param) (tb : Tables) : Part → Tables
  | .word w => tb.addWord w
  | .slot s => tb.addRow ⟨params.findIdx (·.name == s.param.name), s.name, s.default, s.help⟩

theorem lays_push (hn : (params.map (·.name)).Nodup)
    (h : (tb.layout params (placesBy Param.name params)).Lays parts) {p : Part}
    (hp : ∀ s, p.slot? = some s → s.param ∈ params) :
    ((tb.push params p).layout params (placesBy Param.name params)).Lays (parts ++ [p]) := by
  cases p with
  | word w => exact lays_addWord h w
  | slot s =>
    exact lays_addRow h ⟨getElem?_findIdx_name hn (hp s rfl), rfl, rfl, rfl⟩

end Tables

/-- The tables that reading some parts leaves. -/
def Layout.ofParts (params : List Param) (parts : List Part) : Layout :=
  (parts.foldl (Tables.push params) .empty).layout params (placesBy Param.name params)

theorem Layout.lays_ofParts {params : List Param} (hn : (params.map (·.name)).Nodup)
    {parts : List Part} (h : ∀ s ∈ parts.filterMap Part.slot?, s.param ∈ params) :
    (ofParts params parts).Lays parts := by
  rw [ofParts]
  induction parts using List.reverseRecOn with
  | nil => exact Tables.lays_empty params
  | append_singleton parts p ih =>
    rw [List.filterMap_append, List.forall_mem_append] at h
    rw [List.foldl_append]
    exact Tables.lays_push hn (ih h.1) fun s hs =>
      h.2 s (List.mem_filterMap.2 ⟨p, List.mem_singleton_self p, hs⟩)

def Template.ofParts (path help : String) (params : List Param) (parts : List Part) : Template :=
  ⟨path, help, .ofParts params parts⟩

end Abbrev

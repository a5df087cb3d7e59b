import Abbrev.Proofs.Template.Noting

/-! What has happened when a template is built. Each word of the path becomes one part, and the
checks between them say that slots have different parameters and names and that none stands in
front. The tables are filled with these parts one after the other. Each step finds in them what the
steps before it have left: which parameters are placed, and the details that are still to be
taken. -/

namespace Abbrev

/-- The slot of the detail's parameter. -/
def Detail.slot (d : Detail) : Slot := ⟨d.param, d.name, d.default, d.help⟩

namespace Declaration

variable {d : Declaration} {details : List Detail} {t : Template} {key : String} {n : Notes}

section Paths

/-- The parameter that a placeholder names: by the name given to its option, of equal names the last
declared, or else by the parameter's own name. -/
def target? (d : Declaration) (details : List Detail) (key : String) : Option Param :=
  match details.reverse.find? (·.given == some key) with
  | some detail => some detail.param
  | none => d.params.find? (·.name == key)

theorem located?_target (hn : (d.params.map (·.name)).Nodup) (h : n.Tells d details)
    (key : String) :
    d.located? ((n.aliases.lookup key).or ((placesBy Param.name d.params).lookup key)) =
      (d.target? details key).map fun p => (d.placeOf p, p) := by
  rw [h.lookup_aliases, target?]
  cases hfind : details.reverse.find? (·.given == some key) with
  | none => exact located?_lookup hn key
  | some detail =>
    have hmem : detail ∈ details := List.mem_reverse.1 (List.mem_of_find?_eq_some hfind)
    exact located?_placeOf hn (h.param_mem detail hmem)

theorem target?_mem (h : ∀ e ∈ details, e.param ∈ d.params) {p : Param}
    (hp : d.target? details key = some p) : p ∈ d.params := by
  unfold target? at hp
  split at hp
  · rename_i detail hfind
    rw [← Option.some.inj hp]
    exact h detail (List.mem_reverse.1 (List.mem_of_find?_eq_some hfind))
  · exact List.mem_of_find?_eq_some hp

/-- Whether a word of the path is meant as a placeholder. -/
def opensBrace (word : String) : Bool := word.toList.head? == some '\x7b'

theorem opensBrace_eq_true {word : String} :
    opensBrace word = true ↔ ∃ rest, word.toList = '\x7b' :: rest := by
  rw [opensBrace, beq_iff_eq, List.head?_eq_some_iff]

/-- A key in braces. -/
def Encloses (word key : String) : Prop :=
  key ≠ "" ∧ word.toList = '\x7b' :: (key.toList ++ ['\x7d'])

theorem Encloses.opensBrace {word key : String} (h : Encloses word key) :
    opensBrace word = true := opensBrace_eq_true.2 ⟨_, h.2⟩

theorem placeholder_eq_ok {rest : List Char} {key : String} :
    d.placeholder rest = .ok key ↔ key ≠ "" ∧ rest = key.toList ++ ['\x7d'] := by
  unfold placeholder
  constructor
  · intro h
    split at h
    · rename_i body hrest
      split at h
      · cases h
      · rename_i hbody
        cases h
        have hne : body.reverse ≠ [] := by simpa using hbody
        refine ⟨mt String.ofList_eq_empty_iff.1 hne, ?_⟩
        rw [String.toList_ofList, ← List.reverse_cons, ← hrest, List.reverse_reverse]
    · cases h
  · rintro ⟨hkey, rfl⟩
    have hne : key.toList.reverse.isEmpty = false := by simpa using hkey
    rw [List.reverse_append, List.reverse_singleton, List.singleton_append]
    simp only [hne, Bool.false_eq_true, if_false, List.reverse_reverse, String.ofList_toList]

/-- The slot that a parameter gets, by what is known about its option. -/
def slotOf (details : List Detail) (p : Param) : Slot :=
  ((details.find? (·.param.name == p.name)).getD (.plain p)).slot

theorem slotOf_param_name (details : List Detail) (p : Param) :
    (slotOf details p).param.name = p.name := by
  unfold slotOf
  cases hfind : details.find? (·.param.name == p.name) with
  | none => rfl
  | some detail =>
    have hname : detail.param.name = p.name := by simpa using List.find?_some hfind
    exact hname

/-- The part that a word of the path becomes. -/
inductive Becomes (d : Declaration) (details : List Detail) : String → Part → Prop
  | word {w : String} (h : opensBrace w = false) : Becomes d details w (.word w)
  | slot {w key : String} {p : Param} (h : Encloses w key) (hp : d.target? details key = some p) :
    Becomes d details w (.slot (slotOf details p))

/-- What is required of a slot in view of the parts before it. -/
def Fits (parts : List Part) (part : Part) : Prop :=
  ∀ s ∈ part.slot?, parts ≠ [] ∧
    ∀ u ∈ parts.filterMap Part.slot?, u.param.name ≠ s.param.name ∧ u.name ≠ s.name

theorem fits_word (parts : List Part) (w : String) : Fits parts (.word w) := by
  rintro s ⟨⟩

theorem fits_slot {parts : List Part} {s : Slot} :
    Fits parts (.slot s) ↔ parts ≠ [] ∧
      ∀ u ∈ parts.filterMap Part.slot?, u.param.name ≠ s.param.name ∧ u.name ≠ s.name := by
  simp [Fits, Part.slot?]

end Paths

end Declaration

namespace Laying

variable {d : Declaration} {details : List Detail} {parts : List Part} {l : Laying} {s : Slot}
  {p : Param}

/-- Whether one of the parts is a slot of the parameter. -/
def isPlaced (parts : List Part) (p : Param) : Bool :=
  (parts.filterMap Part.slot?).any (·.param.name == p.name)

/-- What has come of some parts: their tables, the parameters that are placed, and the details of
the others. -/
structure Follows (l : Laying) (d : Declaration) (details : List Detail) (parts : List Part) :
    Prop where
  lays : (l.tables.layout d.params (placesBy Param.name d.params)).Lays parts
  placed : l.placed = d.params.map (isPlaced parts)
  left : l.left = d.params.map fun p =>
    if isPlaced parts p then none else details.find? (·.param.name == p.name)

def push (d : Declaration) (l : Laying) (part : Part) : Laying :=
  match part with
  | .word w => { l with tables := l.tables.push d.params (.word w) }
  | .slot s =>
    ⟨l.tables.push d.params (.slot s), l.placed.set (d.placeOf s.param) true,
      l.left.set (d.placeOf s.param) none⟩

theorem isPlaced_word (parts : List Part) (w : String) :
    isPlaced (parts ++ [.word w]) = isPlaced parts := by
  funext p
  rw [isPlaced, List.filterMap_append, List.any_append]
  exact Bool.or_false _

theorem isPlaced_slot (parts : List Part) (s : Slot) (p : Param) :
    isPlaced (parts ++ [.slot s]) p =
      if p.name = s.param.name then true else isPlaced parts p := by
  rw [isPlaced, List.filterMap_append, List.any_append, ← isPlaced]
  by_cases h : p.name = s.param.name
  · simp [h, Part.slot?]
  · simp [h, Part.slot?, Ne.symm h]

theorem follows_nil (d : Declaration) (details : List Detail) :
    Follows ⟨.empty, d.params.map fun _ => false,
      d.params.map fun p => details.find? (·.param.name == p.name)⟩ d details [] :=
  ⟨Tables.lays_empty d.params, rfl, rfl⟩

theorem Follows.push (hn : (d.params.map (·.name)).Nodup) (h : l.Follows d details parts)
    {part : Part} (hpart : ∀ s, part.slot? = some s → s.param ∈ d.params) :
    (l.push d part).Follows d details (parts ++ [part]) := by
  cases part with
  | word w =>
    refine ⟨Tables.lays_push hn h.lays hpart, ?_, ?_⟩
    · rw [isPlaced_word]
      exact h.placed
    · rw [isPlaced_word]
      exact h.left
  | slot s =>
    have hplace := Declaration.getElem?_placeOf hn (hpart s rfl)
    refine ⟨Tables.lays_push hn h.lays hpart, ?_, ?_⟩
    · rw [Laying.push, h.placed, map_set_of_name Param.name hn hplace]
      exact List.map_congr_left fun p _ => (isPlaced_slot parts s p).symm
    · rw [Laying.push, h.left, map_set_of_name Param.name hn hplace]
      refine List.map_congr_left fun p _ => ?_
      rw [isPlaced_slot]
      split <;> rfl

theorem Follows.getElem?_placed (h : l.Follows d details parts) {i : Nat}
    (hi : d.params[i]? = some p) : l.placed[i]?.getD false = isPlaced parts p := by
  rw [h.placed, List.getElem?_map, hi]
  rfl

theorem Follows.getElem?_left (h : l.Follows d details parts) {i : Nat}
    (hi : d.params[i]? = some p) (hp : isPlaced parts p = false) :
    l.left[i]?.join = details.find? (·.param.name == p.name) := by
  rw [h.left, List.getElem?_map, hi, Option.map_some, hp]
  rfl

/-- The options' names are those of the slots. -/
theorem Follows.lookup_rowPlaces (h : l.Follows d details parts) (name : String) :
    (l.tables.rowPlaces.lookup name).isSome = true ↔
      ∃ u ∈ parts.filterMap Part.slot?, u.name = name := by
  have hplaces : l.tables.rowPlaces = placesBy Row.name l.tables.rows := h.lays.rowPlaces
  have hnames : l.tables.rows.map (·.name) = (parts.filterMap Part.slot?).map (·.name) :=
    h.lays.rowNames_eq
  rw [hplaces, lookup_placesBy_isSome, hnames, List.mem_map]

end Laying

namespace Declaration

variable {d : Declaration} {details : List Detail} {t : Template} {key word : String} {n : Notes}
  {l l' : Laying} {parts : List Part} {p : Param}

section Paths

theorem slotOf_param_mem (h : ∀ e ∈ details, e.param ∈ d.params) (hp : p ∈ d.params) :
    (slotOf details p).param ∈ d.params := by
  unfold slotOf
  cases hfind : details.find? (·.param.name == p.name) with
  | none => exact hp
  | some detail => exact h detail (List.mem_of_find?_eq_some hfind)

/-- The row that is taken for a parameter is that of its slot. -/
theorem push_slotOf (l : Laying) (p : Param) :
    l.push d (.slot (slotOf details p)) =
      ⟨l.tables.addRow (((details.find? (·.param.name == p.name)).getD (.plain p)).row
        (d.placeOf p)), l.placed.set (d.placeOf p) true, l.left.set (d.placeOf p) none⟩ := by
  have hplace : d.placeOf (slotOf details p).param = d.placeOf p := by
    rw [placeOf, placeOf, slotOf_param_name]
  rw [Laying.push, hplace, Tables.push, ← placeOf, hplace]
  rfl

theorem place_eq_ok (hn : (d.params.map (·.name)).Nodup) (hnotes : n.Tells d details)
    (h : l.Follows d details parts) :
    d.place (placesBy Param.name d.params) n.aliases l key = .ok l' ↔
      ∃ p, d.target? details key = some p ∧
        (∀ u ∈ parts.filterMap Part.slot?, u.param.name ≠ (slotOf details p).param.name ∧
          u.name ≠ (slotOf details p).name) ∧
        l' = l.push d (.slot (slotOf details p)) := by
  unfold place
  rw [located?_target hn hnotes]
  cases htarget : d.target? details key with
  | none =>
    refine iff_of_false nofun ?_
    rintro ⟨p, ⟨⟩, -⟩
  | some p =>
    have hplace := getElem?_placeOf hn (target?_mem hnotes.param_mem htarget)
    have hplaced : Laying.isPlaced parts p = false ↔
        ∀ u ∈ parts.filterMap Part.slot?, u.param.name ≠ (slotOf details p).param.name := by
      rw [slotOf_param_name, Laying.isPlaced]
      simp only [List.any_eq_false, beq_iff_eq, ne_eq]
    have hname := h.lookup_rowPlaces (slotOf details p).name
    dsimp only [Option.map_some]
    rw [h.getElem?_placed hplace]
    constructor
    · intro hok
      split at hok
      · cases hok
      · rename_i hfree
        rw [Bool.not_eq_true] at hfree
        rw [h.getElem?_left hplace hfree] at hok
        split at hok
        · cases hok
        · rename_i hunnamed
          cases hok
          have hunnamed : ∀ u ∈ parts.filterMap Part.slot?, u.name ≠ (slotOf details p).name :=
            fun u hu heq => hunnamed (hname.2 ⟨u, hu, heq⟩)
          refine ⟨p, rfl, fun u hu => ⟨hplaced.1 hfree u hu, hunnamed u hu⟩, ?_⟩
          exact (push_slotOf l p).symm
    · rintro ⟨q, hq, hfresh, rfl⟩
      obtain rfl := Option.some.inj hq
      have hfree := hplaced.2 fun u hu => (hfresh u hu).1
      have hunnamed : ¬ (l.tables.rowPlaces.lookup (slotOf details p).name).isSome = true :=
        fun hsome => let ⟨u, hu, heq⟩ := hname.1 hsome; (hfresh u hu).2 heq
      rw [hfree, if_neg Bool.false_ne_true, h.getElem?_left hplace hfree, push_slotOf]
      exact if_neg hunnamed

theorem addCell_eq_ok (hn : (d.params.map (·.name)).Nodup) (hnotes : n.Tells d details)
    (h : l.Follows d details parts) :
    d.addCell (placesBy Param.name d.params) n.aliases l word = .ok l' ↔
      ∃ part, d.Becomes details word part ∧ Fits parts part ∧ l' = l.push d part := by
  have hcells : l.tables.cells.isEmpty = parts.isEmpty := by
    have hlength : l.tables.cells.length = parts.length := h.lays.cells.length_eq
    rw [Bool.eq_iff_iff, List.isEmpty_iff_length_eq_zero, List.isEmpty_iff_length_eq_zero, hlength]
  unfold addCell
  rw [hcells]
  split
  · rename_i rest hword
    have hopens : opensBrace word = true := opensBrace_eq_true.2 ⟨rest, hword⟩
    by_cases hparts : parts = []
    · simp only [hparts, List.isEmpty_nil, if_true, reduceCtorEq, false_iff]
      rintro ⟨part, hpart, hfits, -⟩
      cases hpart with
      | word h => simp [hopens] at h
      | slot h hp => exact (fits_slot.1 hfits).1 rfl
    · have hempty : parts.isEmpty = false := by simpa using hparts
      simp only [hempty, Bool.false_eq_true, if_false, bind_eq_ok, place_eq_ok hn hnotes h]
      constructor
      · rintro ⟨key, hkey, p, hp, hfresh, rfl⟩
        obtain ⟨hne, hrest⟩ := placeholder_eq_ok.1 hkey
        exact ⟨_, .slot ⟨hne, hrest ▸ hword⟩ hp, fits_slot.2 ⟨hparts, hfresh⟩, rfl⟩
      · rintro ⟨part, hpart, hfits, rfl⟩
        cases hpart with
        | word h => simp [hopens] at h
        | @slot key p h hp =>
          have hrest : rest = key.toList ++ ['\x7d'] :=
            List.tail_eq_of_cons_eq (hword.symm.trans h.2)
          exact ⟨key, placeholder_eq_ok.2 ⟨h.1, hrest⟩, p, hp, (fits_slot.1 hfits).2, rfl⟩
  · rename_i hword
    have hplain : opensBrace word = false :=
      Bool.eq_false_iff.2 fun hopens => (opensBrace_eq_true.1 hopens).elim hword
    constructor
    · intro h
      cases h
      exact ⟨_, .word hplain, fits_word parts word, rfl⟩
    · rintro ⟨part, hpart, -, rfl⟩
      cases hpart with
      | word h => rfl
      | slot h hp => simp [h.opensBrace] at hplain

/-- Each word of the path becomes one part, the first of them no slot, and no two slots have one
parameter or one name. -/
structure Parted (d : Declaration) (details : List Detail) (parts : List Part) : Prop where
  becomes : List.Forall₂ (d.Becomes details) (Text.words d.path) parts
  startsWithWord : ∀ part ∈ parts.head?, part.slot? = none
  params_nodup : ((parts.filterMap Part.slot?).map (·.param.name)).Nodup
  names_nodup : ((parts.filterMap Part.slot?).map (·.name)).Nodup

theorem fits_iff_parted (h : List.Forall₂ (d.Becomes details) (Text.words d.path) parts) :
    (∀ pre part post, parts = pre ++ part :: post → Fits pre part) ↔ d.Parted details parts := by
  have hapart : (((parts.filterMap Part.slot?).map (·.param.name)).Nodup ∧
      ((parts.filterMap Part.slot?).map (·.name)).Nodup) ↔
      ∀ pre part post, parts = pre ++ part :: post → ∀ e ∈ pre, ∀ u ∈ e.slot?, ∀ s ∈ part.slot?,
        u.param.name ≠ s.param.name ∧ u.name ≠ s.name := by
    simp only [List.Nodup, List.pairwise_map]
    rw [← List.pairwise_and_iff, List.pairwise_filterMap, pairwise_iff_append_cons]
    rfl
  constructor
  · intro hfits
    obtain ⟨hparams, hnames⟩ := hapart.2 fun pre part post hparts e he u hu s hs =>
      (hfits pre part post hparts s hs).2 u (List.mem_filterMap.2 ⟨e, he, hu⟩)
    refine ⟨h, fun part hpart => ?_, hparams, hnames⟩
    obtain ⟨post, rfl⟩ := List.head?_eq_some_iff.1 hpart
    exact Option.eq_none_iff_forall_not_mem.2 fun s hs => (hfits [] part post rfl s hs).1 rfl
  · rintro hparted pre part post rfl s hs
    refine ⟨?_, fun u hu => ?_⟩
    · rintro rfl
      simp [hparted.startsWithWord part rfl] at hs
    · obtain ⟨e, he, hu⟩ := List.mem_filterMap.1 hu
      exact hapart.1 ⟨hparted.params_nodup, hparted.names_nodup⟩ pre part post rfl e he u hu s hs

theorem Becomes.param_mem (hmem : ∀ e ∈ details, e.param ∈ d.params) {part : Part}
    (h : d.Becomes details word part) {s : Slot} (hs : part.slot? = some s) :
    s.param ∈ d.params := by
  cases h with
  | word h => cases hs
  | slot h hp =>
    cases hs
    exact slotOf_param_mem hmem (target?_mem hmem hp)

theorem lay_eq_ok (hn : (d.params.map (·.name)).Nodup) (hnotes : n.Tells d details) :
    d.lay (placesBy Param.name d.params) n = .ok l ↔
      ∃ parts, d.Parted details parts ∧
        l = parts.foldl (Laying.push d) ⟨.empty, d.params.map fun _ => false, n.details⟩ := by
  have hstep (parts : List Part) (l : Laying) (word : String) (l' : Laying)
      (h : l.Follows d details parts) :
      d.addCell (placesBy Param.name d.params) n.aliases l word = .ok l' ↔ _ :=
    addCell_eq_ok hn hnotes h
  rw [lay, hnotes.details_eq, foldlM_push_eq_ok (Laying.follows_nil d details)
    (fun _ _ _ _ h hpart _ => h.push hn fun s => hpart.param_mem hnotes.param_mem) hstep]
  refine exists_congr fun parts => ?_
  rw [← and_assoc]
  refine and_congr_left fun _ => ?_
  exact ⟨fun ⟨hbecomes, hfits⟩ => (fits_iff_parted hbecomes).1 hfits,
    fun h => ⟨h.becomes, (fits_iff_parted h.becomes).2 h⟩⟩

theorem Parted.follows (hn : (d.params.map (·.name)).Nodup) (hnotes : n.Tells d details)
    (h : d.Parted details parts) :
    (parts.foldl (Laying.push d) ⟨.empty, d.params.map fun _ => false, n.details⟩).Follows d
      details parts := by
  rw [hnotes.details_eq]
  exact foldl_push_induction (I := fun parts (l : Laying) => l.Follows d details parts)
    (Laying.follows_nil d details)
    (fun _ _ _ _ h hpart _ => h.push hn fun s => hpart.param_mem hnotes.param_mem) h.becomes
    ((fits_iff_parted h.becomes).2 h)

end Paths

theorem foldl_push_tables (parts : List Part) (l : Laying) :
    (parts.foldl (Laying.push d) l).tables = parts.foldl (Tables.push d.params) l.tables :=
  (List.foldl_hom Laying.tables fun l part => by cases part <;> rfl).symm

theorem find?_unplaced_eq_none (h : l.Follows d details parts) :
    (d.params.zip l.placed).find? (!·.2) = none ↔
      ∀ p ∈ d.params, ∃ s ∈ parts.filterMap Part.slot?, s.param.name = p.name := by
  have hzip : d.params.zip l.placed = d.params.map fun p => (p, Laying.isPlaced parts p) := by
    rw [h.placed, List.map_prod_left_eq_zip]
  rw [hzip, List.find?_eq_none, List.forall_mem_map]
  simp only [Bool.not_eq_true', Bool.not_eq_false, Laying.isPlaced, List.any_eq_true, beq_iff_eq]

/-- How a template is built: its tables are those of the parts that its path becomes. -/
theorem build_eq_ok : d.build = .ok t ↔
    Text.words d.path ≠ [] ∧ (d.params.map (·.name)).Nodup ∧
      ∃ details parts, d.Detailed details ∧ d.Parted details parts ∧
        t = .ofParts d.normalPath d.help d.params parts ∧
        ∀ p ∈ d.params, ∃ s ∈ parts.filterMap Part.slot?, s.param.name = p.name := by
  unfold build
  simp only [throw_bind, ite_throw_eq_ok, List.isEmpty_iff, bind_eq_ok, paramPlaces_eq_ok]
  refine and_congr_right fun _ => ?_
  constructor
  · rintro ⟨_, ⟨hn, rfl⟩, notes, hnotes, l, hl, h⟩
    obtain ⟨details, hdetails, rfl⟩ := (notes_eq_ok hn).1 hnotes
    have htells := hdetails.tells hn
    obtain ⟨parts, hparts, rfl⟩ := (lay_eq_ok hn htells).1 hl
    split at h
    · simp at h
    · rename_i hnone
      rw [pure_eq_ok] at h
      refine ⟨hn, details, parts, hdetails, hparts, ?_, ?_⟩
      · rw [← h, foldl_push_tables]
        rfl
      · exact (find?_unplaced_eq_none (hparts.follows hn htells)).1 hnone
  · rintro ⟨hn, details, parts, hdetails, hparts, rfl, hall⟩
    have htells := hdetails.tells hn
    refine ⟨_, ⟨hn, rfl⟩, _, (notes_eq_ok hn).2 ⟨details, hdetails, rfl⟩, _,
      (lay_eq_ok hn htells).2 ⟨parts, hparts, rfl⟩, ?_⟩
    rw [(find?_unplaced_eq_none (hparts.follows hn htells)).2 hall, foldl_push_tables]
    rfl

/-- A declaration builds the template whose tables its options and its path fill. -/
theorem build_of_laid (hpath : d.normalPath = t.path) (hhelp : d.help = t.help)
    (hwords : Text.words d.path ≠ []) (hnames : (d.params.map (·.name)).Nodup)
    (hnotes : d.notes (placesBy Param.name d.params) = .ok n)
    (hlay : d.lay (placesBy Param.name d.params) n = .ok l)
    (hlayout : l.tables.layout d.params (placesBy Param.name d.params) = t.layout)
    (hall : (d.params.zip l.placed).find? (!·.2) = none) : d.build = .ok t := by
  have hplaces : d.paramPlaces = .ok (placesBy Param.name d.params) :=
    paramPlaces_eq_ok.2 ⟨hnames, rfl⟩
  unfold build
  rw [if_neg (by simpa using hwords), hplaces]
  refine bind_eq_ok.2 ⟨_, rfl, bind_eq_ok.2 ⟨n, hnotes, bind_eq_ok.2 ⟨l, hlay, ?_⟩⟩⟩
  rw [hall, hpath, hhelp, hlayout]
  rfl

/-- What a template has of the declaration that it was built from. -/
structure BuildsFrom (d : Declaration) (details : List Detail) (t : Template) : Prop where
  hasWord : Text.words d.path ≠ []
  paramNames_nodup : (d.params.map (·.name)).Nodup
  path_eq : t.path = d.normalPath
  params_eq : t.params = d.params
  detailed : d.Detailed details
  parted : d.Parted details t.parts
  lays : t.layout.Lays t.parts
  covered : ∀ p ∈ d.params, ∃ s ∈ t.slots, s.param.name = p.name

theorem exists_buildsFrom (h : d.build = .ok t) : ∃ details, d.BuildsFrom details t := by
  obtain ⟨hword, hn, details, parts, hdetails, hparts, rfl, hall⟩ := build_eq_ok.1 h
  have hlays : (Layout.ofParts d.params parts).Lays parts := by
    refine Layout.lays_ofParts hn fun s hs => ?_
    obtain ⟨part, hpart, hslot⟩ := List.mem_filterMap.1 hs
    obtain ⟨w, -, hbecomes⟩ := exists_of_forall₂ hparts.becomes.flip hpart
    exact hbecomes.param_mem (fun e he => hdetails.param_mem he) hslot
  have hparts_eq : (Template.ofParts d.normalPath d.help d.params parts).parts = parts :=
    hlays.parts_eq
  have hslots : (Template.ofParts d.normalPath d.help d.params parts).slots =
      parts.filterMap Part.slot? := hlays.slots_eq
  refine ⟨details, hword, hn, rfl, rfl, hdetails, ?_, ?_, ?_⟩
  · rwa [hparts_eq]
  · rwa [hparts_eq]
  · rwa [hslots]

end Declaration

end Abbrev

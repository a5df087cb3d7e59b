import Abbrev.Proofs.Template.Tables

/-! What is noted before the path of a declaration is read: the places of the parameters, which have
different names, and a detail for each option that is declared, of different parameters. A detail
stands at the place of its parameter, and an alias leads to the place of the last option that has
it. -/

namespace Abbrev

namespace Declaration

variable {d : Declaration} {details : List Detail} {t : Template} {key : String}

section Parameters

theorem addParam_eq_ok {places places' : Places} {p : Param × Nat} :
    d.addParam places p = .ok places' ↔
      ¬ (places.lookup p.1.name).isSome = true ∧ places' = (p.1.name, p.2) :: places := by
  unfold addParam
  split
  · rename_i hseen
    exact iff_of_false nofun fun h => h.1 hseen
  · rename_i hfresh
    rw [Except.ok.injEq, eq_comm]
    exact (and_iff_right hfresh).symm

/-- The parameters are put in under their names when no two have the same. -/
theorem paramPlaces_eq_ok {places : Places} :
    d.paramPlaces = .ok places ↔
      (d.params.map (·.name)).Nodup ∧ places = placesBy Param.name d.params := by
  rw [paramPlaces]
  induction d.params using List.reverseRecOn generalizing places with
  | nil =>
    rw [List.zipIdx_nil, List.foldlM_nil, pure_eq_ok, eq_comm]
    exact (and_iff_right List.nodup_nil).symm
  | append_singleton ps p ih =>
    have hlast : (ps ++ [p]).zipIdx = ps.zipIdx ++ [(p, ps.length)] := by
      simp [List.zipIdx_append]
    rw [hlast, List.foldlM_append, bind_eq_ok, List.map_append, List.nodup_append, placesBy_concat]
    simp only [ih, List.foldlM_cons, List.foldlM_nil, bind_pure, addParam_eq_ok]
    constructor
    · rintro ⟨_, ⟨hn, rfl⟩, hfresh, rfl⟩
      rw [lookup_placesBy_isSome] at hfresh
      exact ⟨⟨hn, List.nodup_singleton _, by simpa using hfresh⟩, rfl⟩
    · rintro ⟨⟨hn, -, hfresh⟩, rfl⟩
      refine ⟨_, ⟨hn, rfl⟩, ?_, rfl⟩
      rw [lookup_placesBy_isSome]
      simpa using hfresh

/-- Where a parameter is declared. -/
def placeOf (d : Declaration) (p : Param) : Nat := d.params.findIdx (·.name == p.name)

theorem getElem?_placeOf (hn : (d.params.map (·.name)).Nodup) {p : Param} (hp : p ∈ d.params) :
    d.params[d.placeOf p]? = some p :=
  getElem?_findIdx_name hn hp

theorem located?_placeOf (hn : (d.params.map (·.name)).Nodup) {p : Param} (hp : p ∈ d.params) :
    d.located? (some (d.placeOf p)) = some (d.placeOf p, p) := by
  rw [located?, Option.bind_eq_bind, Option.bind_some, getElem?_placeOf hn hp]
  rfl

theorem located?_lookup (hn : (d.params.map (·.name)).Nodup) (name : String) :
    d.located? ((placesBy Param.name d.params).lookup name) =
      (d.params.find? (·.name == name)).map fun p => (d.placeOf p, p) := by
  cases hfind : d.params.find? (·.name == name) with
  | none =>
    have hnone : (placesBy Param.name d.params).lookup name = none := by
      rw [← Option.not_isSome_iff_eq_none, lookup_placesBy_isSome]
      simpa using hfind
    rw [hnone]
    rfl
  | some p =>
    obtain ⟨hp, rfl⟩ := (find?_eq_some_iff_mem hn).1 hfind
    rw [lookup_placesBy_of_mem hn hp]
    exact located?_placeOf hn hp

end Parameters

section Options

/-- What an option's declaration says, as the detail kept of it. -/
structure Describes (d : Declaration) (o : OptionSpec) (detail : Detail) : Prop where
  param : d.params.find? (·.name == o.param) = some detail.param
  given : detail.given = o.name
  default : d.convertDefault o detail.param = .ok detail.default
  help : detail.help = o.help.getD ""

theorem Describes.param_mem {o : OptionSpec} {detail : Detail} (h : d.Describes o detail) :
    detail.param ∈ d.params :=
  List.mem_of_find?_eq_some h.param

theorem Describes.param_name {o : OptionSpec} {detail : Detail} (h : d.Describes o detail) :
    detail.param.name = o.param := by
  simpa using List.find?_some h.param

theorem convertDefault_eq_ok {o : OptionSpec} {p : Param} {default : Option Value} :
    d.convertDefault o p = .ok default ↔
      (o.default = none ∧ default = none) ∨
      ∃ text v, o.default = some text ∧ p.type.convert d.separator text = .ok v ∧
        default = some v := by
  unfold convertDefault
  cases o.default with
  | none => simp [eq_comm]
  | some text =>
    cases hconvert : p.type.convert d.separator text with
    | error f => simp [hconvert]
    | ok v => simp [hconvert, eq_comm]

/-- The options' declarations are kept as details of different parameters. -/
structure Detailed (d : Declaration) (details : List Detail) : Prop where
  describes : List.Forall₂ d.Describes d.options details
  params_nodup : (details.map (·.param.name)).Nodup

theorem Detailed.param_mem (h : d.Detailed details) {e : Detail} (he : e ∈ details) :
    e.param ∈ d.params := by
  obtain ⟨o, -, hdetail⟩ := exists_of_forall₂ h.describes.flip he
  exact hdetail.param_mem

end Options

end Declaration

namespace Notes

variable {d : Declaration} {details : List Detail} {detail : Detail} {n n' : Notes} {key : String}

/-- What is noted of some details: each at the place of its parameter, and the places of those with
an alias, of equal aliases the last. -/
structure Tells (n : Notes) (d : Declaration) (details : List Detail) : Prop where
  details_eq : n.details = d.params.map fun p => details.find? (·.param.name == p.name)
  lookup_aliases : ∀ key, n.aliases.lookup key =
    (details.reverse.find? (·.given == some key)).map (d.placeOf ·.param)
  param_mem : ∀ e ∈ details, e.param ∈ d.params

def push (d : Declaration) (n : Notes) (detail : Detail) : Notes where
  details := n.details.set (d.placeOf detail.param) (some detail)
  aliases := (detail.given.map (·, d.placeOf detail.param)).toList ++ n.aliases

theorem tells_nil (d : Declaration) : Tells ⟨d.params.map fun _ => none, []⟩ d [] :=
  ⟨rfl, fun _ => rfl, by simp⟩

theorem Tells.push (hn : (d.params.map (·.name)).Nodup) (h : n.Tells d details)
    (hmem : detail.param ∈ d.params) (hfresh : ∀ e ∈ details, e.param.name ≠ detail.param.name) :
    (n.push d detail).Tells d (details ++ [detail]) where
  details_eq := by
    rw [Notes.push, h.details_eq,
      map_set_of_name Param.name hn (Declaration.getElem?_placeOf hn hmem)]
    refine List.map_congr_left fun p _ => ?_
    rw [List.find?_append]
    split
    · rename_i hp
      have hnone : details.find? (·.param.name == p.name) = none := by
        simpa [hp] using hfresh
      rw [hnone, hp, List.find?_singleton]
      simp
    · rename_i hp
      rw [List.find?_singleton, if_neg (by simpa using Ne.symm hp), Option.or_none]
  lookup_aliases key := by
    rw [List.reverse_append, List.reverse_singleton, List.singleton_append, List.find?_cons]
    cases hgiven : detail.given with
    | none => simpa [Notes.push, hgiven] using h.lookup_aliases key
    | some a =>
      rw [Notes.push, hgiven, Option.map_some, Option.toList_some, List.singleton_append,
        List.lookup_cons, h.lookup_aliases key]
      by_cases ha : key = a
      · simp [ha]
      · simp [beq_eq_false_iff_ne.2 ha, beq_eq_false_iff_ne.2 (Ne.symm ha)]
  param_mem e he := by
    rcases List.mem_append.1 he with he | he
    · exact h.param_mem e he
    · rw [List.mem_singleton.1 he]
      exact hmem

/-- At a parameter's place stands the parameter's detail. -/
theorem Tells.getElem?_details (h : n.Tells d details) {i : Nat} {p : Param}
    (hi : d.params[i]? = some p) :
    n.details[i]?.join = details.find? (·.param.name == p.name) := by
  rw [h.details_eq, List.getElem?_map, hi]
  rfl

end Notes

namespace Declaration

variable {d : Declaration} {details : List Detail} {t : Template} {key : String} {n n' : Notes}

section Options

theorem addDetail_eq_ok (hn : (d.params.map (·.name)).Nodup) (h : n.Tells d details)
    {o : OptionSpec} :
    d.addDetail (placesBy Param.name d.params) n o = .ok n' ↔
      ∃ detail, d.Describes o detail ∧ (∀ e ∈ details, e.param.name ≠ detail.param.name) ∧
        n' = n.push d detail := by
  unfold addDetail
  rw [located?_lookup hn]
  cases hfind : d.params.find? (·.name == o.param) with
  | none =>
    refine iff_of_false nofun ?_
    rintro ⟨detail, hdetail, -⟩
    cases hfind.symm.trans hdetail.param
  | some p =>
    obtain ⟨hp, hname⟩ := (find?_eq_some_iff_mem hn).1 hfind
    have hseen : (details.find? (·.param.name == p.name)).isSome = true ↔
        ¬ ∀ e ∈ details, e.param.name ≠ p.name := by simp
    dsimp only [Option.map_some]
    rw [h.getElem?_details (getElem?_placeOf hn hp)]
    constructor
    · intro hok
      split at hok
      · cases hok
      · rename_i hfresh
        obtain ⟨default, hdefault, hnotes⟩ := bind_eq_ok.1 hok
        rw [pure_eq_ok] at hnotes
        rw [hseen, not_not] at hfresh
        exact ⟨⟨p, o.name, default, o.help.getD ""⟩, ⟨hfind, rfl, hdefault, rfl⟩, hfresh,
          hnotes.symm⟩
    · rintro ⟨⟨q, given, default, help⟩, ⟨hparam, rfl, hdefault, rfl⟩, hfresh, rfl⟩
      obtain rfl : q = p := Option.some.inj (hparam.symm.trans hfind)
      rw [if_neg (by rw [hseen, not_not]; exact hfresh)]
      exact bind_eq_ok.2 ⟨default, hdefault, rfl⟩

theorem notes_eq_ok (hn : (d.params.map (·.name)).Nodup) :
    d.notes (placesBy Param.name d.params) = .ok n ↔
      ∃ details, d.Detailed details ∧
        n = details.foldl (Notes.push d) ⟨d.params.map fun _ => none, []⟩ := by
  have hstep (details : List Detail) (n : Notes) (o : OptionSpec) (n' : Notes)
      (h : n.Tells d details) :
      d.addDetail (placesBy Param.name d.params) n o = .ok n' ↔ _ := addDetail_eq_ok hn h
  rw [Declaration.notes, foldlM_push_eq_ok (Notes.tells_nil d)
    (fun _ _ _ _ h hdetail hfresh => h.push hn hdetail.param_mem hfresh) hstep]
  refine exists_congr fun details => ?_
  rw [← and_assoc]
  refine and_congr_left fun _ => ⟨fun ⟨hd, hfresh⟩ => ⟨hd, ?_⟩, fun hd => ⟨hd.describes, ?_⟩⟩
  · rwa [List.Nodup, List.pairwise_map, pairwise_iff_append_cons]
  · have hnodup := hd.params_nodup
    rwa [List.Nodup, List.pairwise_map, pairwise_iff_append_cons] at hnodup

theorem Detailed.tells (hn : (d.params.map (·.name)).Nodup) (hd : d.Detailed details) :
    (details.foldl (Notes.push d) ⟨d.params.map fun _ => none, []⟩).Tells d details := by
  have hnodup := hd.params_nodup
  rw [List.Nodup, List.pairwise_map, pairwise_iff_append_cons] at hnodup
  exact foldl_push_induction (I := fun details (n : Notes) => n.Tells d details) (Notes.tells_nil d)
    (fun _ _ _ _ h hdetail hfresh => h.push hn hdetail.param_mem hfresh) hd.describes hnodup

end Options

end Declaration

end Abbrev

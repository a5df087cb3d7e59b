import Abbrev.Binding
import Abbrev.Proofs.Template.WellFormed

/-! What a binding holds, seen through the values it gives for names. Entries with different names
are all kept, and values given for every slot of a template are values for all its parameters. -/

namespace Abbrev

theorem lookup_eq_some_iff_mem {es : List (String × Value)} (h : (es.map (·.1)).Nodup)
    {name : String} {v : Value} : es.lookup name = some v ↔ (name, v) ∈ es := by
  induction es with
  | nil => simp
  | cons e es ih =>
    obtain ⟨n, w⟩ := e
    rw [List.map_cons, List.nodup_cons] at h
    rw [List.lookup_cons, List.mem_cons, Prod.mk.injEq]
    by_cases hn : name = n
    · subst hn
      have hfresh : (name, v) ∉ es := fun hmem => h.1 (List.mem_map.2 ⟨_, hmem, rfl⟩)
      simp [hfresh, eq_comm]
    · have hbeq : (name == n) = false := by simpa using hn
      simp [hbeq, hn, ih h.2]

namespace Binding

theorem get?_foldl_insert {es : List (String × Value)} (h : (es.map (·.1)).Nodup) (b : Binding)
    (name : String) :
    (es.foldl (fun b e => b.insert e.1 e.2) b).get? name = (es.lookup name).or (b.get? name) := by
  induction es generalizing b with
  | nil => rfl
  | cons e es ih =>
    obtain ⟨n, v⟩ := e
    rw [List.map_cons, List.nodup_cons] at h
    rw [List.foldl_cons, ih h.2, get?_insert, List.lookup_cons]
    by_cases hn : name = n
    · subst hn
      have hfresh : es.lookup name = none := by
        rw [Option.eq_none_iff_forall_ne_some]
        intro w hw
        exact h.1 (List.mem_map.2 ⟨_, (lookup_eq_some_iff_mem h.2).1 hw, rfl⟩)
      simp [hfresh]
    · have hbeq : (name == n) = false := by simpa using hn
      simp [hbeq, hn]

theorem get?_ofList {es : List (String × Value)} (h : (es.map (·.1)).Nodup) {name : String}
    {v : Value} : (ofList es).get? name = some v ↔ (name, v) ∈ es := by
  rw [ofList, get?_foldl_insert h, get?_empty, Option.or_none, lookup_eq_some_iff_mem h]

theorem names_nodup (b : Binding) : b.names.Nodup := by
  rw [names, List.Nodup, List.pairwise_map]
  exact b.sorted.imp fun hlt => String.ne_of_lt hlt

theorem mem_names {b : Binding} {name : String} :
    name ∈ b.names ↔ ∃ v, b.get? name = some v := by
  simp [names, get?, lookup_eq_some_iff_mem b.names_nodup]

/-- Bindings that give the same values are the same, since their entries are sorted. -/
theorem eq_of_get?_eq {b b' : Binding} (h : ∀ name, b.get? name = b'.get? name) : b = b' := by
  have hmem : ∀ e, e ∈ b.entries ↔ e ∈ b'.entries := by
    rintro ⟨name, v⟩
    rw [← lookup_eq_some_iff_mem b.names_nodup, ← lookup_eq_some_iff_mem b'.names_nodup]
    exact Eq.congr_left (h name)
  have hperm : b.entries.Perm b'.entries :=
    (List.perm_ext_iff_of_nodup b.names_nodup.of_map b'.names_nodup.of_map).2 hmem
  refine Binding.ext (hperm.eq_of_pairwise ?_ b.sorted b'.sorted)
  intro e e' _ _ hlt hgt
  exact absurd hgt (String.lt_asymm hlt)

/-- The order of entries does not matter where their names are different. -/
theorem ofList_eq_of_perm {es es' : List (String × Value)} (h : es.Perm es')
    (hn : (es'.map (·.1)).Nodup) : ofList es = ofList es' := by
  have hn' : (es.map (·.1)).Nodup := (h.map _).nodup_iff.2 hn
  refine eq_of_get?_eq fun name => Option.ext fun v => ?_
  rw [get?_ofList hn, get?_ofList hn', h.mem_iff]

/-- A value of its type for each parameter of a template, and nothing else. -/
structure Completes (b : Binding) (t : Template) : Prop where
  hasType : ∀ p ∈ t.params, ∃ v, b.get? p.name = some v ∧ v.HasType p.type
  mem_params : ∀ name ∈ b.names, ∃ p ∈ t.params, p.name = name

/-- A value for the parameter of each slot, of which more may be required, and nothing else. -/
structure Assigns (b : Binding) (t : Template) (P : Slot → Value → Prop) : Prop where
  value : ∀ s ∈ t.slots, ∃ v, b.get? s.param.name = some v ∧ P s v
  mem_names : ∀ name, name ∈ b.names ↔ ∃ p ∈ t.params, p.name = name

variable {t : Template} {P : Slot → Value → Prop}

theorem exists_slot_iff (ht : t.WellFormed) {name : String} :
    (∃ s ∈ t.slots, s.param.name = name) ↔ ∃ p ∈ t.params, p.name = name := by
  constructor
  · rintro ⟨s, hs, hname⟩
    exact ⟨s.param, ht.slots_perm.mem_iff.1 (List.mem_map_of_mem hs), hname⟩
  · rintro ⟨p, hp, hname⟩
    obtain ⟨s, hs, rfl⟩ := List.mem_map.1 (ht.slots_perm.mem_iff.2 hp)
    exact ⟨s, hs, hname⟩

/-- Entries for the slots one by one come to a value for each of them. -/
theorem assigns_ofList (ht : t.WellFormed) {es : List (String × Value)}
    (h : List.Forall₂ (fun s e => e.1 = s.param.name ∧ P s e.2) t.slots es) :
    (ofList es).Assigns t P := by
  have hnames : es.map (·.1) = t.slots.map (·.param.name) :=
    map_eq_map_of_forall₂ (h.imp fun _ _ hse => hse.1)
  have hnodup : (es.map (·.1)).Nodup := hnames ▸ ht.slotParamNames_nodup
  constructor
  · intro s hs
    obtain ⟨⟨name, v⟩, he, rfl, hv⟩ := exists_of_forall₂ h hs
    exact ⟨v, (get?_ofList hnodup).2 he, hv⟩
  · intro name
    have hmem : name ∈ (ofList es).names ↔ name ∈ es.map (·.1) := by
      simp [Binding.mem_names, get?_ofList hnodup]
    rw [hmem, hnames, List.mem_map, exists_slot_iff ht]

/-- Where the requirement leaves one value for each slot, it leaves one binding. -/
theorem Assigns.unique (ht : t.WellFormed) {b b' : Binding} (h : b.Assigns t P)
    (h' : b'.Assigns t P) (hP : ∀ s ∈ t.slots, ∀ v w, P s v → P s w → v = w) : b = b' := by
  refine eq_of_get?_eq fun name => ?_
  by_cases hname : ∃ s ∈ t.slots, s.param.name = name
  · obtain ⟨s, hs, rfl⟩ := hname
    obtain ⟨v, hv, hPv⟩ := h.value s hs
    obtain ⟨w, hw, hPw⟩ := h'.value s hs
    rw [hv, hw, hP s hs v w hPv hPw]
  · have hnone : ∀ c : Binding, c.Assigns t P → c.get? name = none := by
      intro c hc
      rw [exists_slot_iff ht, ← hc.mem_names, Binding.mem_names, not_exists] at hname
      exact Option.eq_none_iff_forall_ne_some.2 hname
    rw [hnone b h, hnone b' h']

end Binding

/-- Entries that give each slot of a template, in the order of the path, a value of its type. -/
def Template.Supplied (t : Template) (es : List (String × Value)) : Prop :=
  List.Forall₂ (fun s e => e.1 = s.param.name ∧ e.2.HasType s.param.type) t.slots es

theorem Template.Supplied.completes {t : Template} (ht : t.WellFormed) {es : List (String × Value)}
    (h : t.Supplied es) : (Binding.ofList es).Completes t := by
  have hassigns : (Binding.ofList es).Assigns t fun s v => v.HasType s.param.type :=
    Binding.assigns_ofList ht h
  constructor
  · intro p hp
    obtain ⟨s, hs, rfl⟩ := List.mem_map.1 (ht.slots_perm.mem_iff.2 hp)
    exact hassigns.value s hs
  · exact fun name hname => (hassigns.mem_names name).1 hname

end Abbrev

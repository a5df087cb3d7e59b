import Abbrev.Binding.Named
import Abbrev.Proofs.Binding.Contents

/-! Binding by name supplies every slot. Each named argument fills exactly one slot that was empty,
so there are never more of them than slots, and the arguments given by place are the words of the
path. -/

namespace Abbrev

namespace Supply

variable {supplies supplies' : List Supply} {key text : String} {separator : Char}

/-- What a supply becomes when a text is given under a key. -/
def receive (key text : String) (u : Supply) : Supply :=
  if Text.abbreviates key u.1.name then (u.1, some text) else u

@[simp] theorem receive_fst (key text : String) (u : Supply) : (receive key text u).1 = u.1 := by
  unfold receive
  split <;> rfl

/-- One named argument goes to the one slot that its key abbreviates, and that slot was empty. -/
theorem give_eq_ok :
    give supplies key text = .ok supplies' ↔
      supplies.countP (fun u => Text.abbreviates key u.1.name) = 1 ∧
        (∀ u ∈ supplies, Text.abbreviates key u.1.name = true → u.2 = none) ∧
        supplies' = supplies.map (receive key text) := by
  rw [List.countP_eq_length_filter, List.length_eq_one_iff]
  unfold give
  constructor
  · intro h
    split at h
    · cases h
    · rename_i s hfilter
      cases h
      refine ⟨⟨_, hfilter⟩, fun u hu hkey => ?_, rfl⟩
      have hmem : u ∈ supplies.filter fun u => Text.abbreviates key u.1.name :=
        List.mem_filter.2 ⟨hu, hkey⟩
      rw [hfilter, List.mem_singleton] at hmem
      rw [hmem]
    · cases h
    · cases h
  · rintro ⟨⟨⟨s, given⟩, hfilter⟩, hnone, rfl⟩
    have hmem : (s, given) ∈ supplies.filter fun u => Text.abbreviates key u.1.name := by
      rw [hfilter]
      exact List.mem_singleton_self _
    obtain ⟨hs, hkey⟩ := List.mem_filter.1 hmem
    obtain rfl : given = none := hnone _ hs hkey
    rw [hfilter]
    rfl

theorem map_fst_of_give (h : give supplies key text = .ok supplies') :
    supplies'.map (·.1) = supplies.map (·.1) := by
  obtain ⟨-, -, rfl⟩ := give_eq_ok.1 h
  rw [List.map_map]
  exact List.map_congr_left fun u _ => receive_fst key text u

theorem countP_map_receive
    (h : ∀ u ∈ supplies, Text.abbreviates key u.1.name = true → u.2 = none) :
    (supplies.map (receive key text)).countP (·.2.isSome) =
      supplies.countP (·.2.isSome) + supplies.countP (fun u => Text.abbreviates key u.1.name) := by
  induction supplies with
  | nil => rfl
  | cons u supplies ih =>
    have hrest := ih fun v hv => h v (List.mem_cons_of_mem u hv)
    have hu := h u List.mem_cons_self
    by_cases hkey : Text.abbreviates key u.1.name = true
    · simp [receive, hkey, hu hkey, hrest, Nat.add_assoc]
    · simp [receive, hkey, List.countP_cons, hrest]
      omega

theorem countP_of_give (h : give supplies key text = .ok supplies') :
    supplies'.countP (·.2.isSome) = supplies.countP (·.2.isSome) + 1 := by
  obtain ⟨hone, hnone, rfl⟩ := give_eq_ok.1 h
  rw [countP_map_receive hnone, hone]

theorem giveAll_keeps {named : List (String × String)}
    (h : giveAll supplies named = .ok supplies') :
    supplies'.map (·.1) = supplies.map (·.1) ∧
      supplies'.countP (·.2.isSome) = supplies.countP (·.2.isSome) + named.length := by
  refine foldlM_induction (motive := fun seen given => given.map (·.1) = supplies.map (·.1) ∧
    given.countP (·.2.isSome) = supplies.countP (·.2.isSome) + seen.length) ⟨rfl, rfl⟩ ?_ h
  rintro seen ⟨key, text⟩ given given' ⟨hslots, hcount⟩ hstep
  refine ⟨(map_fst_of_give hstep).trans hslots, ?_⟩
  rw [countP_of_give hstep, hcount, List.length_append, List.length_singleton, Nat.add_assoc]

/-- Different named arguments fill different slots. -/
theorem length_le_of_giveAll {slots : List Slot} {named : List (String × String)}
    (h : giveAll (slots.map (·, none)) named = .ok supplies) : named.length ≤ slots.length := by
  obtain ⟨hslots, hcount⟩ := giveAll_keeps h
  have hlength : supplies.length = slots.length := by
    simpa using congrArg List.length hslots
  have hempty : (slots.map fun s => ((s, none) : Supply)).countP (·.2.isSome) = 0 := by
    simp [List.countP_eq_zero]
  have hle : supplies.countP (·.2.isSome) ≤ supplies.length := List.countP_le_length
  omega

theorem value_eq_ok {s : Supply} {e : String × Value} (h : value separator s = .ok e) :
    e.1 = s.1.param.name ∧
      ((∃ text, s.2 = some text ∧ s.1.param.type.convert separator text = .ok e.2) ∨
        (s.2 = none ∧ s.1.default = some e.2)) := by
  unfold value at h
  split at h
  · rename_i text hgiven
    split at h
    · rename_i v hv
      cases h
      exact ⟨rfl, .inl ⟨text, hgiven, hv⟩⟩
    · cases h
  · rename_i v hgiven hdefault
    cases h
    exact ⟨rfl, .inr ⟨hgiven, hdefault⟩⟩
  · cases h

end Supply

namespace Template

variable {t : Template} {args : List Argument} {separator : Char} {b : Binding}

theorem bindNamed_eq_ok :
    t.bindNamed args separator = .ok b ↔
      (args.filterMap Argument.positional?).length = t.wordCount ∧
        Text.abbreviateAll (args.filterMap Argument.positional?) t.words = true ∧
        ∃ supplies es,
          Supply.giveAll (t.slots.map (·, none)) (args.filterMap Argument.named?) = .ok supplies ∧
          Supply.missing? supplies = none ∧ supplies.mapM (Supply.value separator) = .ok es ∧
          Binding.ofList es = b := by
  unfold bindNamed
  simp only [throw_bind, ite_throw_eq_ok, ne_eq, Decidable.not_not]
  refine and_congr_right fun _ => ?_
  by_cases hwords : Text.abbreviateAll (args.filterMap Argument.positional?) t.words = true
  · simp only [hwords, if_true, bind_eq_ok, true_and]
    refine exists_congr fun supplies => ?_
    cases hmissing : Supply.missing? supplies with
    | some s => simp
    | none => simp only [bind_eq_ok, pure_eq_ok, true_and, exists_and_left]
  · simp [hwords]

theorem exists_supplied_of_bindNamed (ht : t.WellFormed) (h : t.bindNamed args separator = .ok b) :
    ∃ es, t.Supplied es ∧ Binding.ofList es = b := by
  obtain ⟨-, -, supplies, es, hgive, -, hvalues, rfl⟩ := bindNamed_eq_ok.1 h
  refine ⟨es, ?_, rfl⟩
  have hslots : supplies.map (·.1) = t.slots := by
    simpa [Function.comp_def] using (Supply.giveAll_keeps hgive).1
  rw [Supplied, ← hslots, List.forall₂_map_left_iff]
  have hmem : ∀ s ∈ supplies, s.1 ∈ t.slots := fun s hs => hslots ▸ List.mem_map_of_mem hs
  refine ((List.forall₂_and_left _ _).2 ⟨hmem, mapM_eq_ok.1 hvalues⟩).imp ?_
  rintro s e ⟨hs, hvalue⟩
  obtain ⟨hname, ⟨text, -, hconvert⟩ | ⟨-, hdefault⟩⟩ := Supply.value_eq_ok hvalue
  · exact ⟨hname, ParamType.hasType_of_convert hconvert⟩
  · exact ⟨hname, ht.default_hasType s.1 hs e.2 hdefault⟩

theorem length_positional_add_length_named (args : List Argument) :
    (args.filterMap Argument.positional?).length + (args.filterMap Argument.named?).length =
      args.length := by
  induction args with
  | nil => rfl
  | cons arg args ih =>
    cases arg <;> simp only [List.filterMap_cons, Argument.positional?, Argument.named?,
      List.length_cons] <;> omega

theorem length_le_of_bindNamed (ht : t.WellFormed) (h : t.bindNamed args separator = .ok b) :
    args.length ≤ t.parts.length := by
  obtain ⟨hwords, -, supplies, es, hgive, -⟩ := bindNamed_eq_ok.1 h
  rw [ht.wordCount_eq] at hwords
  have hnamed := Supply.length_le_of_giveAll hgive
  have hargs := length_positional_add_length_named args
  have hparts := ht.length_words_add_length_slots
  omega

theorem abbreviates_firstWord_of_bindNamed (ht : t.WellFormed) {first : String}
    (h : t.bindNamed (.positional first :: args) separator = .ok b) :
    Text.abbreviates first t.firstWord = true := by
  obtain ⟨-, habbreviates, -⟩ := bindNamed_eq_ok.1 h
  rw [List.filterMap_cons, Argument.positional?] at habbreviates
  obtain ⟨w, ps, hparts⟩ := ht.startsWithWord
  refine abbreviates_firstWord ?_ habbreviates
  rw [words_of_parts hparts]
  exact List.cons_ne_nil w _

end Template

end Abbrev

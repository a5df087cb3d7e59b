import Abbrev.Binding.Positional
import Abbrev.Proofs.Binding.Contents

/-! Binding by place supplies every slot: with as many tokens as parts each slot gets the value of
the token at its place, and with the words alone each slot gets its default. In both cases the first
token abbreviates the first word. -/

namespace Abbrev

namespace Template

variable {t : Template} {separator : Char} {tokens : List String} {b : Binding}

/-- How binding by place succeeds: with a token for each part, or with the defaults alone. -/
theorem bindPositional_eq_ok :
    t.bindPositional tokens separator = .ok b ↔
      (t.parts.length = tokens.length ∧
        ∃ es, fill separator t.parts tokens = .ok es ∧ Binding.ofList es = b) ∨
      (t.parts.length ≠ tokens.length ∧ t.allDefaults = true ∧
        t.parts.length - t.defaultCount = tokens.length ∧
        Text.abbreviateAll tokens t.words = true ∧ Binding.ofList t.defaults = b) := by
  unfold bindPositional
  by_cases hlength : t.parts.length = tokens.length
  · simp [hlength, map_eq_ok]
  · by_cases hall : (t.allDefaults && t.parts.length - t.defaultCount == tokens.length) = true
    · have hrelaxed := hall
      rw [Bool.and_eq_true, beq_iff_eq] at hrelaxed
      by_cases hwords : Text.abbreviateAll tokens t.words = true
      · simp [hlength, hrelaxed, hwords]
      · simp [hlength, hrelaxed, hwords]
    · have hrelaxed :
          ¬(t.allDefaults = true ∧ t.parts.length - t.defaultCount = tokens.length) := by
        simpa using hall
      simp only [hlength, hall, if_false, false_and, false_or, Bool.false_eq_true, reduceCtorEq]
      grind

/-- The value of the token at the place of a slot. -/
def PlacedIn (separator : Char) (parts : List Part) (tokens : List String) (s : Slot) (v : Value) :
    Prop :=
  ∃ token, (Part.slot s, token) ∈ parts.zip tokens ∧ s.param.type.convert separator token = .ok v

theorem PlacedIn.cons {parts : List Part} {s : Slot} {v : Value}
    (h : PlacedIn separator parts tokens s v) (p : Part) (token : String) :
    PlacedIn separator (p :: parts) (token :: tokens) s v := by
  obtain ⟨own, hmem, hconvert⟩ := h
  exact ⟨own, List.mem_cons_of_mem _ hmem, hconvert⟩

theorem placed_of_fill {parts : List Part} {es : List (String × Value)}
    (hlength : parts.length = tokens.length) (h : fill separator parts tokens = .ok es) :
    List.Forall₂ (fun s e => e.1 = s.param.name ∧ PlacedIn separator parts tokens s e.2)
      (parts.filterMap Part.slot?) es := by
  induction parts generalizing tokens es with
  | nil =>
    cases h
    exact .nil
  | cons p parts ih =>
    obtain _ | ⟨token, tokens⟩ := tokens
    · cases hlength
    · rw [List.length_cons, List.length_cons, Nat.add_right_cancel_iff] at hlength
      cases p with
      | word w =>
        rw [fill] at h
        split at h
        · exact (ih hlength h).imp fun _ _ hse => ⟨hse.1, hse.2.cons _ _⟩
        · cases h
      | slot s =>
        rw [fill] at h
        split at h
        · cases h
        · rename_i v hv
          obtain ⟨rest, hrest, hes⟩ := bind_eq_ok.1 h
          rw [pure_eq_ok] at hes
          rw [← hes]
          refine .cons ⟨rfl, token, List.mem_cons_self, hv⟩ ?_
          exact (ih hlength hrest).imp fun _ _ hse => ⟨hse.1, hse.2.cons _ _⟩

theorem supplied_of_fill {parts : List Part} {es : List (String × Value)}
    (hlength : parts.length = tokens.length) (h : fill separator parts tokens = .ok es) :
    List.Forall₂ (fun s e => e.1 = s.param.name ∧ e.2.HasType s.param.type)
      (parts.filterMap Part.slot?) es :=
  (placed_of_fill hlength h).imp fun _ _ ⟨hname, _, _, hconvert⟩ =>
    ⟨hname, ParamType.hasType_of_convert hconvert⟩

theorem forall₂_defaults (h : ∀ s ∈ t.slots, s.default.isSome = true) :
    List.Forall₂ (fun s e => e.1 = s.param.name ∧ s.default = some e.2) t.slots t.defaults := by
  unfold defaults
  generalize t.slots = slots at h ⊢
  induction slots with
  | nil => exact .nil
  | cons s slots ih =>
    obtain ⟨v, hv⟩ := Option.isSome_iff_exists.1 (h s List.mem_cons_self)
    rw [List.filterMap_cons, hv, Option.map_some]
    exact .cons ⟨rfl, hv⟩ (ih fun u hu => h u (List.mem_cons_of_mem s hu))

theorem WellFormed.supplied_defaults (ht : t.WellFormed) (h : t.allDefaults = true) :
    t.Supplied t.defaults := by
  have hdefaults := forall₂_defaults (ht.allDefaults_iff.1 h)
  refine ((List.forall₂_and_left _ _).2 ⟨fun _ => id, hdefaults⟩).imp ?_
  rintro s e ⟨hs, hname, hv⟩
  exact ⟨hname, ht.default_hasType s hs e.2 hv⟩

theorem exists_supplied_of_bindPositional (ht : t.WellFormed)
    (h : t.bindPositional tokens separator = .ok b) :
    ∃ es, t.Supplied es ∧ Binding.ofList es = b := by
  rcases bindPositional_eq_ok.1 h with ⟨hlength, es, hes, rfl⟩ | ⟨-, hall, -, -, rfl⟩
  · refine ⟨es, ?_, rfl⟩
    rw [Supplied, ht.slots_eq]
    exact supplied_of_fill hlength hes
  · exact ⟨t.defaults, ht.supplied_defaults hall, rfl⟩

theorem length_le_of_bindPositional (h : t.bindPositional tokens separator = .ok b) :
    tokens.length ≤ t.parts.length := by
  rcases bindPositional_eq_ok.1 h with ⟨hlength, -⟩ | ⟨-, -, hlength, -⟩ <;> omega

/-- The first word decides the first token, also when slots stand between the words. -/
theorem abbreviates_firstWord_of_bindPositional (ht : t.WellFormed) {first : String}
    {rest : List String} (h : t.bindPositional (first :: rest) separator = .ok b) :
    Text.abbreviates first t.firstWord = true := by
  obtain ⟨w, ps, hparts⟩ := ht.startsWithWord
  rcases bindPositional_eq_ok.1 h with ⟨-, es, hes, -⟩ | ⟨-, -, -, habbreviates, -⟩
  · rw [hparts, fill] at hes
    rw [firstWord_of_parts hparts]
    split at hes
    · assumption
    · cases hes
  · refine abbreviates_firstWord ?_ habbreviates
    rw [words_of_parts hparts]
    exact List.cons_ne_nil w _

end Template

end Abbrev

import Abbrev.Proofs.Binding.Named
import Mathlib.Data.List.Induction

/-! Named arguments are distributed over the slots: each key selects one slot, no slot is selected
twice, and a slot has exactly the text whose key selects it. Giving the arguments one by one comes
to this and fails only where it cannot be had, so their order is of no account. -/

namespace Abbrev

namespace Supply

variable {slots : List Slot} {supplies supplies' : List Supply} {key text : String}
  {named named' : List (String × String)}

structure Distributes (slots : List Slot) (named : List (String × String))
    (supplies : List Supply) : Prop where
  selects : ∀ g ∈ named, slots.countP (fun s => Text.abbreviates g.1 s.name) = 1
  apart : named.Pairwise fun g h => ∀ s ∈ slots,
    ¬ (Text.abbreviates g.1 s.name = true ∧ Text.abbreviates h.1 s.name = true)
  texts : List.Forall₂ (fun s u => u.1 = s ∧ ∀ text, u.2 = some text ↔
    ∃ key, (key, text) ∈ named ∧ Text.abbreviates key s.name = true) slots supplies

theorem Distributes.nil : Distributes slots [] (slots.map (·, none)) where
  selects := by simp
  apart := .nil
  texts := by simp [List.forall₂_map_right_iff, List.forall₂_same]

theorem Distributes.map_fst (h : Distributes slots named supplies) :
    supplies.map (·.1) = slots := by
  rw [map_eq_map_of_forall₂ (f := id) (h.texts.imp fun _ _ hu => hu.1), List.map_id]

theorem Distributes.countP_eq (h : Distributes slots named supplies) (key : String) :
    supplies.countP (fun u => Text.abbreviates key u.1.name) =
      slots.countP fun s => Text.abbreviates key s.name := by
  rw [← h.map_fst, List.countP_map]
  rfl

/-- A key that no earlier key meets finds its slot empty, and the other way round. -/
theorem Distributes.eq_none_iff (h : Distributes slots named supplies) :
    (∀ u ∈ supplies, Text.abbreviates key u.1.name = true → u.2 = none) ↔
      ∀ g ∈ named, ∀ s ∈ slots,
        ¬ (Text.abbreviates g.1 s.name = true ∧ Text.abbreviates key s.name = true) := by
  constructor
  · rintro hnone g hg s hs ⟨hgs, hks⟩
    obtain ⟨u, hu, rfl, htext⟩ := exists_of_forall₂ h.texts hs
    have hgiven : u.2 = some g.2 := (htext g.2).2 ⟨g.1, hg, hgs⟩
    rw [hnone u hu hks] at hgiven
    cases hgiven
  · intro hapart u hu hks
    obtain ⟨s, hs, rfl, htext⟩ := exists_of_forall₂ h.texts.flip hu
    refine Option.eq_none_iff_forall_ne_some.2 fun text hgiven => ?_
    obtain ⟨other, hother, hos⟩ := (htext text).1 hgiven
    exact hapart (other, text) hother u.1 hs ⟨hos, hks⟩

/-- One more argument is distributed by giving it. -/
theorem Distributes.give (h : Distributes slots named supplies)
    (hgive : give supplies key text = .ok supplies') :
    Distributes slots (named ++ [(key, text)]) supplies' := by
  obtain ⟨hone, hnone, rfl⟩ := give_eq_ok.1 hgive
  rw [h.countP_eq] at hone
  constructor
  · intro g hg
    rcases List.mem_append.1 hg with hg | hg
    · exact h.selects g hg
    · rw [List.mem_singleton.1 hg]
      exact hone
  · refine List.pairwise_append.2 ⟨h.apart, List.pairwise_singleton _ _, fun g hg e he => ?_⟩
    rw [List.mem_singleton.1 he]
    exact h.eq_none_iff.1 hnone g hg
  · rw [List.forall₂_map_right_iff]
    refine (((List.forall₂_and_left _ _).2 ⟨hnone, h.texts.flip⟩).imp ?_).flip
    rintro u s ⟨hempty, rfl, htext⟩
    refine ⟨receive_fst key text u, fun text' => ?_⟩
    by_cases hkey : Text.abbreviates key u.1.name = true
    · have hfree : ∀ other, (other, text') ∈ named →
          Text.abbreviates other u.1.name = true → False := by
        intro other hother hos
        have hgiven := (htext text').2 ⟨other, hother, hos⟩
        rw [hempty hkey] at hgiven
        cases hgiven
      simp only [receive, hkey, if_true, Option.some.injEq, List.mem_append, List.mem_singleton,
        Prod.mk.injEq]
      constructor
      · rintro rfl
        exact ⟨key, .inr ⟨rfl, rfl⟩, hkey⟩
      · rintro ⟨other, hother | ⟨-, rfl⟩, hos⟩
        · exact (hfree other hother hos).elim
        · rfl
    · simp only [receive, hkey, Bool.false_eq_true, if_false, htext, List.mem_append,
        List.mem_singleton, Prod.mk.injEq]
      refine exists_congr fun other => and_congr_left fun hos => ?_
      have hne : other ≠ key := fun h => hkey (h ▸ hos)
      simp [hne]

theorem distributes_of_giveAll (h : giveAll (slots.map (·, none)) named = .ok supplies) :
    Distributes slots named supplies :=
  foldlM_induction (motive := Distributes slots) .nil (fun _ _ _ _ hd hgive => hd.give hgive) h

/-- Giving succeeds whenever each key selects one slot and no two the same. -/
theorem exists_giveAll
    (hselects : ∀ g ∈ named, slots.countP (fun s => Text.abbreviates g.1 s.name) = 1)
    (hapart : named.Pairwise fun g h => ∀ s ∈ slots,
      ¬ (Text.abbreviates g.1 s.name = true ∧ Text.abbreviates h.1 s.name = true)) :
    ∃ supplies, giveAll (slots.map (·, none)) named = .ok supplies := by
  induction named using List.reverseRecOn with
  | nil => exact ⟨_, rfl⟩
  | append_singleton named g ih =>
    obtain ⟨hbefore, -, hlast⟩ := List.pairwise_append.1 hapart
    obtain ⟨supplies, hgiven⟩ := ih (fun e he => hselects e (List.mem_append_left _ he)) hbefore
    have hd := distributes_of_giveAll hgiven
    have hone := hselects g (List.mem_append_right _ (List.mem_singleton_self g))
    have hnone := hd.eq_none_iff.2 fun e he => hlast e he g (List.mem_singleton_self g)
    refine ⟨supplies.map (receive g.1 g.2), ?_⟩
    rw [giveAll, List.foldlM_append, bind_eq_ok]
    refine ⟨supplies, hgiven, ?_⟩
    rw [List.foldlM_cons, bind_eq_ok]
    exact ⟨_, give_eq_ok.2 ⟨(hd.countP_eq g.1).trans hone, hnone, rfl⟩, rfl⟩

theorem Distributes.unique (h : Distributes slots named supplies)
    (h' : Distributes slots named supplies') : supplies = supplies' := by
  refine List.right_unique_forall₂' ?_ h.texts h'.texts
  rintro s ⟨s₁, given₁⟩ ⟨s₂, given₂⟩ ⟨rfl, htext₁⟩ ⟨rfl, htext₂⟩
  have hgiven : given₁ = given₂ := Option.ext fun text => (htext₁ text).trans (htext₂ text).symm
  rw [hgiven]

theorem giveAll_eq_ok :
    giveAll (slots.map (·, none)) named = .ok supplies ↔ Distributes slots named supplies := by
  refine ⟨distributes_of_giveAll, fun h => ?_⟩
  obtain ⟨supplies', hgiven⟩ := exists_giveAll h.selects h.apart
  rw [hgiven, (distributes_of_giveAll hgiven).unique h]

theorem Distributes.perm (hperm : named.Perm named') (h : Distributes slots named supplies) :
    Distributes slots named' supplies where
  selects g hg := h.selects g (hperm.mem_iff.2 hg)
  apart := (hperm.pairwise_iff fun hgh s hs hboth => hgh s hs hboth.symm).1 h.apart
  texts := h.texts.imp fun _ _ ⟨hslot, htext⟩ => ⟨hslot, fun text => by
    simp only [htext text, hperm.mem_iff]⟩

theorem distributes_perm_iff (hperm : named.Perm named') :
    Distributes slots named supplies ↔ Distributes slots named' supplies :=
  ⟨fun h => h.perm hperm, fun h => h.perm hperm.symm⟩

/-- A slot without text and default has no value, so a missing argument is also missed later. -/
theorem missing?_eq_none_of_values {separator : Char} {es : List (String × Value)}
    (h : supplies.mapM (value separator) = .ok es) : missing? supplies = none := by
  rw [missing?, Option.map_eq_none_iff, List.find?_eq_none]
  intro u hu hmissing
  obtain ⟨e, -, he⟩ := exists_of_forall₂ (mapM_eq_ok.1 h) hu
  obtain ⟨-, ⟨text, htext, -⟩ | ⟨-, hdefault⟩⟩ := value_eq_ok he
  · simp [htext] at hmissing
  · simp [hdefault] at hmissing

end Supply

namespace Template

variable {t : Template} {args args' : List Argument} {separator : Char} {b : Binding}

theorem bindNamed_iff_distributes :
    t.bindNamed args separator = .ok b ↔
      (args.filterMap Argument.positional?).length = t.wordCount ∧
        Text.abbreviateAll (args.filterMap Argument.positional?) t.words = true ∧
        ∃ supplies es,
          Supply.Distributes t.slots (args.filterMap Argument.named?) supplies ∧
          supplies.mapM (Supply.value separator) = .ok es ∧ Binding.ofList es = b := by
  rw [bindNamed_eq_ok]
  refine and_congr_right fun _ => and_congr_right fun _ => ?_
  refine exists_congr fun supplies => exists_congr fun es => ?_
  rw [Supply.giveAll_eq_ok]
  constructor
  · rintro ⟨hd, -, hes, hb⟩
    exact ⟨hd, hes, hb⟩
  · rintro ⟨hd, hes, hb⟩
    exact ⟨hd, Supply.missing?_eq_none_of_values hes, hes, hb⟩

/-- Only the order of the arguments given by place matters. -/
theorem bindNamed_eq_ok_congr
    (hpositional : args.filterMap Argument.positional? = args'.filterMap Argument.positional?)
    (hnamed : (args.filterMap Argument.named?).Perm (args'.filterMap Argument.named?)) :
    t.bindNamed args separator = .ok b ↔ t.bindNamed args' separator = .ok b := by
  simp only [bindNamed_iff_distributes, hpositional, Supply.distributes_perm_iff hnamed]

end Template

end Abbrev

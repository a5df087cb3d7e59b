import Abbrev.Proofs.Resolution.Ambiguity
import Abbrev.Proofs.Resolution.Filters

/-! Typing more of the first word only filters. A template asks no more of the first token than that
it begins the first word, whichever way the line is bound, so a longer spelling leaves the meanings
whose first word it still begins, in their order and with their bindings. -/

namespace Abbrev

namespace Template

variable {t : Template} {separator : Char} {p q : String}

/-- Two first tokens that both begin the first word, or both do not, are bound alike. -/
theorem bind_cons_congr (ht : t.WellFormed) (hp : (Argument.ofToken p).isNamed = false)
    (hq : (Argument.ofToken q).isNamed = false)
    (hword : Text.abbreviates p t.firstWord = Text.abbreviates q t.firstWord)
    (rest : List String) : t.bind (p :: rest) separator = t.bind (q :: rest) separator := by
  obtain ⟨w, ps, hparts⟩ := ht.startsWithWord
  rw [firstWord_of_parts hparts] at hword
  have hwords (us : List String) :
      Text.abbreviateAll (p :: us) t.words = Text.abbreviateAll (q :: us) t.words := by
    simp only [words_of_parts hparts, Text.abbreviateAll, List.zip_cons_cons, List.all_cons, hword]
  have hfill : fill separator t.parts (p :: rest) = fill separator t.parts (q :: rest) := by
    rw [hparts, fill, fill, hword]
  simp only [bind, List.map_cons, Argument.ofToken_eq_positional hp,
    Argument.ofToken_eq_positional hq, List.any_cons, Argument.isNamed, bindNamed, bindPositional,
    List.filterMap_cons, Argument.positional?, Argument.named?, List.length_cons, hwords, hfill]

end Template

theorem survivors_filter (separator : Char) (tokens : List String)
    (candidates : List (Template × Nat)) (keep : Template → Bool) :
    survivors separator tokens (candidates.filter fun x => keep x.1) =
      (survivors separator tokens candidates).filter fun m => keep m.template := by
  rw [survivors, survivors, List.filterMap_filter, List.filter_filterMap]
  refine List.filterMap_congr ?_
  rintro ⟨t, id⟩ -
  dsimp only
  cases t.bind tokens separator with
  | error r => simp
  | ok b => cases hkeep : keep t <;> simp [hkeep, Option.filter]

theorem survivors_congr {separator : Char} {tokens tokens' : List String}
    {candidates : List (Template × Nat)}
    (h : ∀ t ∈ candidates.map (·.1), t.bind tokens separator = t.bind tokens' separator) :
    survivors separator tokens candidates = survivors separator tokens' candidates := by
  refine List.filterMap_congr ?_
  rintro ⟨t, id⟩ hx
  dsimp only
  rw [h t (List.mem_map_of_mem hx)]

namespace Catalog

variable {c : Catalog} {s : Settings} {text text' p q : String} {rest : List String}

theorem fitting_eq_filter_of_completed (hpq : Text.abbreviates p q = true) (rest : List String) :
    c.fitting (q :: rest) =
      (c.fitting (p :: rest)).filter fun x => Text.abbreviates q x.1.firstWord := by
  have hboth (t : Template) : (Text.abbreviates q t.firstWord && Text.abbreviates p t.firstWord) =
      Text.abbreviates q t.firstWord := by
    cases hq : Text.abbreviates q t.firstWord with
    | false => rfl
    | true => rw [Text.abbreviates_trans hpq hq, Bool.and_self]
  simp only [fitting, candidates, List.length_cons, List.filter_filter]
  refine List.filter_congr ?_
  rintro ⟨t, id⟩ -
  rw [← hboth t]
  cases Text.abbreviates q t.firstWord <;> simp [Bool.and_comm]

theorem contenders_eq_filter_of_completed (hbuilt : ∀ t ∈ c.templates, t.Built)
    (htokens : (Line.ofText s.sigil text).tokens = p :: rest)
    (htokens' : (Line.ofText s.sigil text').tokens = q :: rest)
    (hpq : Text.abbreviates p q = true) (hp : (Argument.ofToken p).isNamed = false)
    (hq : (Argument.ofToken q).isNamed = false) :
    c.contenders s text' =
      (c.contenders s text).filter fun m => Text.abbreviates q m.template.firstWord := by
  rw [contenders, contenders, htokens, htokens', ← survivors_filter s.separator (p :: rest)
    (c.fitting (p :: rest)) fun t => Text.abbreviates q t.firstWord,
    ← fitting_eq_filter_of_completed hpq]
  refine survivors_congr fun t ht => ?_
  obtain ⟨⟨t, id⟩, hfitting, rfl⟩ := List.mem_map.1 ht
  obtain ⟨hid, ⟨first, hfirst, hword⟩, -⟩ := c.mem_fitting.1 hfitting
  obtain rfl : q = first := Option.some.inj hfirst
  have hwell := (hbuilt t (List.mem_of_getElem? hid)).wellFormed
  exact Template.bind_cons_congr hwell hq hp (hword.trans (Text.abbreviates_trans hpq hword).symm)
    rest

/-- A line whose first token is spelled longer has those of the meanings whose first word still
begins with it, unchanged and in their order. So any beginning of a first word selects what the word
itself selects, and a command found without a question is found by each longer spelling. -/
theorem handed_eq_filter_of_completed (hbuilt : ∀ t ∈ c.templates, t.Built)
    (hsingle : (Text.lines text).length ≤ 1) (hsingle' : (Text.lines text').length ≤ 1)
    (hhelp : (Line.ofText s.sigil text).help = false)
    (hhelp' : (Line.ofText s.sigil text').help = false)
    (htokens : (Line.ofText s.sigil text).tokens = p :: rest)
    (htokens' : (Line.ofText s.sigil text').tokens = q :: rest)
    (hpq : Text.abbreviates p q = true) (hp : '=' ∉ p.toList) (hq : '=' ∉ q.toList) :
    c.handed s text' =
        (c.handed s text).filter (fun m => Text.abbreviates q m.template.firstWord) ∧
      (∀ m : Match, m.template.firstWord = q → (m ∈ c.handed s text ↔ m ∈ c.handed s text')) ∧
      ∀ (σ : Type) (chooser : Chooser σ) (st st' : σ) (m : Match),
        (c.resolve s chooser.recorded text).run (st, []) = (.ok (.matched m), st', []) →
        Text.abbreviates q m.template.firstWord = true →
        ∀ (τ : Type) (chooser' : Chooser τ),
          c.resolve s chooser' text' = pure (.ok (.matched m)) := by
  have hfilter : c.handed s text' =
      (c.handed s text).filter fun m => Text.abbreviates q m.template.firstWord := by
    rw [handed_eq_contenders hsingle hhelp, handed_eq_contenders hsingle' hhelp']
    exact contenders_eq_filter_of_completed hbuilt htokens htokens' hpq
      (Argument.isNamed_ofToken_eq_false_iff.2 fun h => absurd h hp)
      (Argument.isNamed_ofToken_eq_false_iff.2 fun h => absurd h hq)
  refine ⟨hfilter, fun m hm => ?_, fun σ chooser st st' m hrun hword τ chooser' => ?_⟩
  · rw [hfilter, List.mem_filter, hm]
    simp
  · rw [run_resolve_recorded] at hrun
    obtain ⟨hmatched, hrest⟩ := Prod.mk.inj hrun
    have hlog := (Prod.mk.inj hrest).2
    have hasks : ¬ c.Asks s text := by
      intro hasks
      simp [hasks] at hlog
    have hone : c.contenders s text = [m] := by
      obtain ⟨-, -, hone | ⟨hasked, -⟩⟩ := (resolve_eq_matched chooser st m).1 hmatched
      · exact hone
      · exact absurd hasked hasks
    rw [handed_eq_contenders hsingle hhelp, handed_eq_contenders hsingle' hhelp', hone,
      List.filter_singleton, hword] at hfilter
    rw [resolve_of_meanings chooser' (read_of_contenders hsingle' hhelp' hfilter)]
    rfl

end Catalog

/-- A command whose first word begins like that of the commands about users. -/
def Declaration.uploadLog : Declaration where
  path := "upload log"

namespace Template

def uploadLog : Template :=
  .ofParts "upload log" "" [] [.word "upload", .word "log"]

theorem built_uploadLog : uploadLog.Built := ⟨.uploadLog, rfl⟩

end Template

namespace Catalog

/-- One more letter leaves one of two meanings, and then the word may be typed to its end. -/
theorem handed_us_l :
    Catalog.handed ⟨[.listUsers, .uploadLog]⟩ {} "us l" =
        (Catalog.handed ⟨[.listUsers, .uploadLog]⟩ {} "u l").filter
          (fun m => Text.abbreviates "us" m.template.firstWord) ∧
      (Catalog.handed ⟨[.listUsers, .uploadLog]⟩ {} "u l").length = 2 ∧
      ∀ (τ : Type) (chooser : Chooser τ),
        Catalog.resolve ⟨[.listUsers, .uploadLog]⟩ {} chooser "user l" =
          pure (.ok (.matched ⟨0, .listUsers, .empty⟩)) := by
  have hbuilt : ∀ t ∈ [Template.listUsers, .uploadLog], t.Built := by
    simp [Template.built_listUsers, Template.built_uploadLog]
  have hcompleted := fun {text text' p q} => @handed_eq_filter_of_completed
    ⟨[.listUsers, .uploadLog]⟩ {} text text' p q ["l"] hbuilt
  obtain ⟨hfilter, -, -⟩ := @hcompleted "u l" "us l" "u" "us" (by decide) (by decide) (by decide)
    (by decide) (by decide) (by decide) (by decide) (by decide) (by decide)
  obtain ⟨-, -, hfound⟩ := @hcompleted "us l" "user l" "us" "user" (by decide) (by decide)
    (by decide) (by decide) (by decide) (by decide) (by decide) (by decide) (by decide)
  exact ⟨hfilter, rfl, hfound Unit Chooser.refuse () () ⟨0, .listUsers, .empty⟩ rfl (by decide)⟩

end Catalog

end Abbrev

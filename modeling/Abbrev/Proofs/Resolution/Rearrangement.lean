import Abbrev.Proofs.Binding.Distribution
import Abbrev.Proofs.Resolution.Filters

/-! The order of a line's named arguments is of no account. Two lines that begin alike, with the
same arguments by place in the same order and the same named arguments in any order and place, have
the same meanings, and if they have any they come to the same. Only the faults of lines without
meaning may differ. -/

namespace Abbrev

/-- The same arguments by place in the same order, and the same named arguments in any. -/
structure Rearranged (tokens tokens' : List String) : Prop where
  positional : tokens.filter (fun token => !(Argument.ofToken token).isNamed) =
    tokens'.filter fun token => !(Argument.ofToken token).isNamed
  named : (tokens.filter fun token => (Argument.ofToken token).isNamed).Perm
    (tokens'.filter fun token => (Argument.ofToken token).isNamed)

theorem Argument.filterMap_positional?_ofToken (tokens : List String) :
    (tokens.map ofToken).filterMap positional? =
      tokens.filter fun token => !(ofToken token).isNamed := by
  induction tokens with
  | nil => rfl
  | cons token tokens ih =>
    rw [List.map_cons]
    cases hnamed : (ofToken token).isNamed with
    | false =>
      rw [ofToken_eq_positional hnamed, List.filterMap_cons, positional?, ih,
        List.filter_cons_of_pos (by simp [hnamed])]
    | true =>
      have hnone : (ofToken token).positional? = none := by
        cases h : ofToken token with
        | named key value => rfl
        | positional text => simp [h, isNamed] at hnamed
      rw [List.filterMap_cons, hnone, ih, List.filter_cons_of_neg (by simp [hnamed])]

theorem Argument.filterMap_named?_ofToken (tokens : List String) :
    (tokens.map ofToken).filterMap named? =
      (tokens.filter fun token => (ofToken token).isNamed).filterMap fun token =>
        (ofToken token).named? := by
  rw [List.filterMap_map, List.filterMap_filter]
  refine List.filterMap_congr fun token _ => ?_
  cases h : ofToken token <;> simp [h, isNamed, named?]

namespace Rearranged

variable {tokens tokens' : List String} {separator : Char}

theorem cons (first : String) (h : Rearranged tokens tokens') :
    Rearranged (first :: tokens) (first :: tokens') := by
  constructor
  · simp only [List.filter_cons, h.positional]
  · simp only [List.filter_cons]
    split
    · exact h.named.cons first
    · exact h.named

theorem length_eq (h : Rearranged tokens tokens') : tokens.length = tokens'.length := by
  rw [List.length_eq_length_filter_add fun token => (Argument.ofToken token).isNamed,
    h.named.length_eq, h.positional, ← List.length_eq_length_filter_add]

/-- Without named arguments there is nothing to rearrange. -/
theorem eq_of_not_named (h : Rearranged tokens tokens')
    (hnone : ∀ token ∈ tokens, (Argument.ofToken token).isNamed = false) : tokens = tokens' := by
  have hempty : (tokens.filter fun token => (Argument.ofToken token).isNamed) = [] := by
    simpa [List.filter_eq_nil_iff] using hnone
  have hnone' : ∀ token ∈ tokens', (Argument.ofToken token).isNamed = false := by
    have hperm := h.named
    rw [hempty, List.nil_perm] at hperm
    simpa [List.filter_eq_nil_iff] using hperm
  have hpositional := h.positional
  rwa [List.filter_eq_self.2 (by simpa using hnone),
    List.filter_eq_self.2 (by simpa using hnone')] at hpositional

theorem bind_eq_ok_iff (h : Rearranged tokens tokens') (t : Template) {b : Binding} :
    t.bind tokens separator = .ok b ↔ t.bind tokens' separator = .ok b := by
  by_cases hnone : ∀ token ∈ tokens, (Argument.ofToken token).isNamed = false
  · rw [h.eq_of_not_named hnone]
  · obtain ⟨token, htoken, hnamed⟩ :
        ∃ token ∈ tokens, (Argument.ofToken token).isNamed = true := by
      simpa using hnone
    have htoken' : token ∈ tokens' :=
      (List.mem_filter.1 (h.named.mem_iff.1 (List.mem_filter.2 ⟨htoken, hnamed⟩))).1
    have hany (us : List String) (hu : token ∈ us) :
        (us.map Argument.ofToken).any Argument.isNamed = true :=
      List.any_eq_true.2 ⟨_, List.mem_map_of_mem hu, hnamed⟩
    simp only [Template.bind, hany tokens htoken, hany tokens' htoken', if_true]
    refine Template.bindNamed_eq_ok_congr ?_ ?_
    · rw [Argument.filterMap_positional?_ofToken, Argument.filterMap_positional?_ofToken,
        h.positional]
    · rw [Argument.filterMap_named?_ofToken, Argument.filterMap_named?_ofToken]
      exact h.named.filterMap _

theorem survivors_eq (h : Rearranged tokens tokens') (candidates : List (Template × Nat)) :
    survivors separator tokens candidates = survivors separator tokens' candidates := by
  refine List.filterMap_congr ?_
  rintro ⟨t, id⟩ -
  dsimp only
  cases hbind : t.bind tokens separator with
  | ok b => rw [(h.bind_eq_ok_iff t).1 hbind]
  | error r =>
    cases hbind' : t.bind tokens' separator with
    | ok b =>
      rw [(h.bind_eq_ok_iff t).2 hbind'] at hbind
      cases hbind
    | error r' => rfl

end Rearranged

namespace Catalog

variable {c : Catalog} {s : Settings} {text text' first : String} {rest rest' : List String}

theorem contenders_eq_of_rearranged (h : Rearranged rest rest')
    (htokens : (Line.ofText s.sigil text).tokens = first :: rest)
    (htokens' : (Line.ofText s.sigil text').tokens = first :: rest') :
    c.contenders s text = c.contenders s text' := by
  have hfitting : c.fitting (first :: rest) = c.fitting (first :: rest') := by
    rw [fitting, fitting, List.length_cons, List.length_cons, h.length_eq]
  rw [contenders, contenders, htokens, htokens', hfitting, (h.cons first).survivors_eq]

/-- Behind a common first token the arguments given by place keep their order and the named ones
stand anywhere: the meanings are the same, and so is what comes of them. -/
theorem handed_eq_of_rearranged (h : Rearranged rest rest')
    (hsingle : (Text.lines text).length ≤ 1) (hsingle' : (Text.lines text').length ≤ 1)
    (hhelp : (Line.ofText s.sigil text).help = false)
    (hhelp' : (Line.ofText s.sigil text').help = false)
    (htokens : (Line.ofText s.sigil text).tokens = first :: rest)
    (htokens' : (Line.ofText s.sigil text').tokens = first :: rest') :
    c.handed s text = c.handed s text' ∧
      (c.handed s text ≠ [] → ∀ (σ : Type) (chooser : Chooser σ),
        c.resolve s chooser text = c.resolve s chooser text') ∧
      (c.handed s text = [] → ∃ f f', ∀ (σ : Type) (chooser : Chooser σ),
        c.resolve s chooser text = pure (.error f) ∧
          c.resolve s chooser text' = pure (.error f')) := by
  have heq := contenders_eq_of_rearranged (c := c) h htokens htokens'
  rw [handed_eq_contenders hsingle hhelp, handed_eq_contenders hsingle' hhelp']
  refine ⟨heq, fun hsome σ chooser => ?_, fun hnone => ?_⟩
  · obtain ⟨m, ms, hms⟩ := List.exists_cons_of_ne_nil hsome
    rw [resolve_of_meanings chooser (read_of_contenders hsingle hhelp hms),
      resolve_of_meanings chooser (read_of_contenders hsingle' hhelp' (heq ▸ hms))]
  · obtain ⟨f, hf⟩ := read_of_no_contenders hsingle hhelp hnone
    obtain ⟨f', hf'⟩ := read_of_no_contenders hsingle' hhelp' (heq ▸ hnone)
    exact ⟨f, f', fun σ chooser => ⟨resolve_of_error chooser hf, resolve_of_error chooser hf'⟩⟩

/-- Two spellings of one call, one of them with an argument between the words. -/
theorem handed_findUser_rearranged :
    Catalog.handed ⟨[.listUsers, .findUser]⟩ {} "u n=Bob f a=3" =
        Catalog.handed ⟨[.listUsers, .findUser]⟩ {} "u f a=3 n=Bob" ∧
      Catalog.resolve ⟨[.listUsers, .findUser]⟩ {} (@Chooser.refuse Unit) "u n=Bob f a=3" =
        Catalog.resolve ⟨[.listUsers, .findUser]⟩ {} Chooser.refuse "u f a=3 n=Bob" := by
  have hrearranged : Rearranged ["n=Bob", "f", "a=3"] ["f", "a=3", "n=Bob"] :=
    ⟨by decide, by decide⟩
  have hsome : (Catalog.handed ⟨[.listUsers, .findUser]⟩ {} "u n=Bob f a=3").isEmpty = false := by
    decide
  obtain ⟨hhanded, hresolve, -⟩ :=
    @handed_eq_of_rearranged ⟨[.listUsers, .findUser]⟩ {} "u n=Bob f a=3" "u f a=3 n=Bob" "u" _ _
      hrearranged (by decide) (by decide) (by decide) (by decide) (by decide) (by decide)
  exact ⟨hhanded, hresolve (by simpa using hsome) Unit Chooser.refuse⟩

end Catalog

end Abbrev

import Abbrev.Resolution
import Abbrev.Proofs.Binding.Named
import Abbrev.Proofs.Binding.Positional
import Mathlib.Data.List.TakeDrop
import Mathlib.Data.List.TakeWhile

/-! Whichever way a line is bound, by place or by name, the binding is complete, and the template is
one that its first word and its length would not have ruled out. -/

namespace Abbrev

theorem Argument.ofToken_eq_positional {token : String} (h : (ofToken token).isNamed = false) :
    ofToken token = .positional token := by
  unfold ofToken at h ⊢
  split
  · rename_i hspan
    rw [hspan] at h
    cases h
  · rfl

/-- An equals sign names an argument unless the token begins with one. -/
theorem Argument.isNamed_ofToken_eq_false_iff {token : String} :
    (ofToken token).isNamed = false ↔ ('=' ∈ token.toList → token.toList.head? = some '=') := by
  rw [ofToken, List.span_eq_takeWhile_dropWhile]
  cases htoken : token.toList with
  | nil => simp [isNamed]
  | cons c s =>
    by_cases hc : c = '='
    · simp [hc, isNamed]
    · cases hrest : s.dropWhile (· != '=') with
      | nil =>
        have hnone : '=' ∉ s := fun h => by simpa using List.dropWhile_eq_nil_iff.1 hrest _ h
        simp [hc, hrest, hnone, isNamed, Ne.symm hc]
      | cons d rest =>
        have hmem : '=' ∈ s := by
          by_contra hnone
          have hall : s.dropWhile (· != '=') = [] :=
            List.dropWhile_eq_nil_iff.2 fun d hd => bne_iff_ne.2 fun heq => hnone (heq ▸ hd)
          simp [hall] at hrest
        simp [hc, hrest, hmem, isNamed]

namespace Template

variable {t : Template} {tokens : List String} {separator : Char} {b : Binding}

theorem bind_eq_ok :
    t.bind tokens separator = .ok b ↔
      ((tokens.map Argument.ofToken).any Argument.isNamed = true ∧
        t.bindNamed (tokens.map Argument.ofToken) separator = .ok b) ∨
      ((tokens.map Argument.ofToken).any Argument.isNamed = false ∧
        t.bindPositional tokens separator = .ok b) := by
  simp only [bind]
  cases (tokens.map Argument.ofToken).any Argument.isNamed <;> simp

theorem completes_of_bind (ht : t.WellFormed) (h : t.bind tokens separator = .ok b) :
    b.Completes t := by
  rcases bind_eq_ok.1 h with ⟨-, h⟩ | ⟨-, h⟩
  · obtain ⟨es, hes, rfl⟩ := exists_supplied_of_bindNamed ht h
    exact hes.completes ht
  · obtain ⟨es, hes, rfl⟩ := exists_supplied_of_bindPositional ht h
    exact hes.completes ht

theorem length_le_of_bind (ht : t.WellFormed) (h : t.bind tokens separator = .ok b) :
    tokens.length ≤ t.parts.length := by
  rcases bind_eq_ok.1 h with ⟨-, h⟩ | ⟨-, h⟩
  · simpa using length_le_of_bindNamed ht h
  · exact length_le_of_bindPositional h

theorem abbreviates_firstWord_of_bind (ht : t.WellFormed) {first : String} {rest : List String}
    (hfirst : (Argument.ofToken first).isNamed = false)
    (h : t.bind (first :: rest) separator = .ok b) :
    Text.abbreviates first t.firstWord = true := by
  rcases bind_eq_ok.1 h with ⟨-, h⟩ | ⟨-, h⟩
  · rw [List.map_cons, Argument.ofToken_eq_positional hfirst] at h
    exact abbreviates_firstWord_of_bindNamed ht h
  · exact abbreviates_firstWord_of_bindPositional ht h

end Template

end Abbrev

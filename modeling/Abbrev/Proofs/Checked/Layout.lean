import Abbrev.Proofs.Template.Representation
import Mathlib.Data.Nat.PSub

/-! What is read off the tables of a template when each pointer is followed and each number taken
away under a check. On the tables of a well-formed template no check fails, and what is read is what
the template has there. -/

namespace Abbrev

namespace Layout

def words (l : Layout) : List String := l.cells.filterMap Cell.word?

def allDefaults (l : Layout) : Bool := l.defaultCount == l.params.length

/-- The parameter with a name, if there is one. Its place is looked up first. -/
def param? (l : Layout) (name : String) : Option (Option Param) :=
  match l.paramPlaces.lookup name with
  | none => some none
  | some i => do
    let p ← l.params[i]?
    pure (some p)

variable {l : Layout} {parts : List Part}

theorem Lays.words_eq (h : l.Lays parts) : l.words = parts.filterMap Part.word? := by
  have hword : ∀ c p, l.HoldsPart c p → c.word? = p.word? := by
    rintro _ _ (_ | _) <;> rfl
  rw [words]
  refine h.cells.rec rfl fun hcp _ ih => ?_
  rw [List.filterMap_cons, List.filterMap_cons, hword _ _ hcp, ih]

end Layout

namespace Template

variable {t : Template}

theorem WellFormed.layout_words (h : t.WellFormed) : t.layout.words = t.words :=
  h.lays.words_eq

theorem WellFormed.length_cells (h : t.WellFormed) : t.layout.cells.length = t.parts.length :=
  h.lays.cells.length_eq

theorem WellFormed.defaultCount_le (h : t.WellFormed) : t.defaultCount ≤ t.parts.length := by
  have hparts := h.length_words_add_length_slots
  have hslots : t.defaultCount ≤ t.slots.length := h.defaultCount_eq ▸ List.countP_le_length
  omega

/-- Taking the defaults away from the parts never goes below zero. -/
theorem WellFormed.psub_defaultCount (h : t.WellFormed) :
    Nat.psub t.layout.cells.length t.layout.defaultCount =
      some (t.parts.length - t.defaultCount) := by
  rw [h.length_cells]
  exact Nat.psub_eq_sub h.defaultCount_le

theorem WellFormed.layout_param? (h : t.WellFormed) (name : String) :
    t.layout.param? name = some (t.param? name) := by
  have hplaces : t.layout.paramPlaces.lookup name = t.paramIndex? name := rfl
  rw [Layout.param?, h.param?_eq_bind, hplaces]
  cases hplace : t.paramIndex? name with
  | none => rfl
  | some i =>
    obtain ⟨p, hp, -⟩ := h.paramIndex?_eq_some.1 hplace
    have hparam : t.layout.params[i]? = some p := hp
    rw [Option.bind_some, hp]
    simp only [hparam]
    rfl

end Template

end Abbrev

import Abbrev.Conversion
import Abbrev.Proofs.Success

/-! A text that converts gives a value of the type asked for: a scalar of its kind, or an array in
which every element is one. -/

namespace Abbrev

theorem Value.hasType_one {v : Value} {k : Kind} :
    v.HasType (.one k) ↔ ∃ x, v = .scalar x ∧ x.kind = k := by
  cases v <;> simp [HasType, ParamType.shape, Shape.admits]

theorem Value.hasType_many {v : Value} {k : Kind} :
    v.HasType (.many k) ↔ ∃ items, v = .array items ∧ ∀ item ∈ items, item.HasType (.one k) := by
  cases v <;> simp [HasType, ParamType.shape, Shape.admits]

theorem Kind.kind_of_read? {k : Kind} {text : String} {x : Scalar} (h : k.read? text = some x) :
    x.kind = k := by
  cases k with
  | bool =>
    obtain ⟨b, -, rfl⟩ := Option.map_eq_some_iff.1 h
    rfl
  | char =>
    simp only [Kind.read?] at h
    split at h
    · cases h
      rfl
    · cases h
  | string =>
    cases h
    rfl
  | int k =>
    obtain ⟨n, -, rfl⟩ := Option.map_eq_some_iff.1 h
    rfl
  | float k =>
    obtain ⟨n, -, rfl⟩ := Option.map_eq_some_iff.1 h
    rfl

theorem Kind.convert_eq_ok {k : Kind} {text : String} {v : Value} :
    k.convert text = .ok v ↔ ∃ x, k.read? text = some x ∧ v = .scalar x := by
  unfold Kind.convert
  cases k.read? text with
  | none => simp
  | some x => simp [eq_comm]

theorem Kind.hasType_of_convert {k : Kind} {text : String} {v : Value}
    (h : k.convert text = .ok v) : v.HasType (.one k) := by
  obtain ⟨x, hx, rfl⟩ := Kind.convert_eq_ok.1 h
  exact Value.hasType_one.2 ⟨x, rfl, Kind.kind_of_read? hx⟩

theorem ParamType.hasType_of_convert {t : ParamType} {separator : Char} {text : String} {v : Value}
    (h : t.convert separator text = .ok v) : v.HasType t := by
  cases t with
  | one k => exact Kind.hasType_of_convert h
  | many k =>
    obtain ⟨items, hitems, hv⟩ := bind_eq_ok.1 h
    rw [pure_eq_ok] at hv
    refine Value.hasType_many.2 ⟨items, hv.symm, fun item hitem => ?_⟩
    obtain ⟨piece, -, hpiece⟩ := exists_of_forall₂ (mapM_eq_ok.1 hitems).flip hitem
    exact Kind.hasType_of_convert hpiece

end Abbrev

import Abbrev.Proofs.Conversion.Rendering

/-! A value that was read is read again from its own text. That text may be shorter than the one
that was typed, since leading zeros and a plus sign are dropped, but no character comes into it that
was not typed, so a separator that has not cut the one text does not cut the other. Truth values are
written out and numbers with a fraction are written anew: in arrays, where a separator may stand
among the letters that are added, they are left out. -/

namespace Abbrev

theorem IntKind.integer_subset {k : IntKind} {text : List Char} {n : k.Range}
    (h : k.read? text = some n) : Number.integer n.val ⊆ text := by
  unfold read? at h
  split at h
  · cases h
  · obtain ⟨m, hm, hrange⟩ := Option.bind_eq_some_iff.1 h
    rw [inRange?] at hrange
    split at hrange
    · cases hrange
      exact Number.integer_subset hm
    · cases hrange

/-- The kinds whose values are written with characters that they were read from. -/
inductive Kind.Frugal : Kind → Prop
  | int (k : IntKind) : Frugal (.int k)
  | char : Frugal .char
  | string : Frugal .string

theorem Kind.Frugal.ne_float {k : Kind} (h : k.Frugal) (f : FloatKind) : k ≠ .float f := by
  rintro rfl
  cases h

theorem Kind.Frugal.text_subset {k : Kind} (h : k.Frugal) {text : String} {x : Scalar}
    (hx : k.read? text = some x) : x.text.toList ⊆ text.toList := by
  cases h with
  | int k =>
    obtain ⟨n, hn, rfl⟩ := Option.map_eq_some_iff.1 hx
    rw [Scalar.text, String.toList_ofList]
    exact IntKind.integer_subset hn
  | char =>
    rw [read?] at hx
    split at hx
    · rename_i c htext
      cases hx
      rw [htext, Scalar.text, String.toList_singleton]
      exact List.Subset.refl _
    · cases hx
  | string =>
    cases hx
    exact List.Subset.refl _

theorem Kind.Frugal.text_ne_empty {k : Kind} (h : k.Frugal) {text : String} (hne : text ≠ "")
    {x : Scalar} (hx : k.read? text = some x) : x.text ≠ "" := by
  cases h with
  | int k =>
    obtain ⟨n, -, rfl⟩ := Option.map_eq_some_iff.1 hx
    exact mt String.ofList_eq_empty_iff.1 (Number.integer_ne_nil _)
  | char =>
    rw [read?] at hx
    split at hx
    · cases hx
      simp [Scalar.text]
    · cases hx
  | string =>
    cases hx
    exact hne

/-- The types whose values come back from their text, whatever the separator. -/
inductive ParamType.Restored : ParamType → Prop
  | one {k : Kind} (h : ∀ f, k ≠ .float f) : Restored (.one k)
  | many {k : Kind} (h : k.Frugal) : Restored (.many k)

theorem Kind.Frugal.convertsAll_text {k : Kind} (h : k.Frugal) {separator : Char} {text : String}
    {v : Value} (htext : Text.Whole separator text) (hv : k.convert text = .ok v) :
    k.ConvertsAll (Text.pieces separator (v.text separator)) [v] := by
  obtain ⟨x, hx, rfl⟩ := convert_eq_ok.1 hv
  obtain rfl := kind_of_read? hx
  exact Scalar.convertsAll_of_whole h.ne_float
    ⟨h.text_ne_empty htext.1 hx, fun hmem => htext.2 (h.text_subset hx hmem)⟩

namespace ParamType

/-- What a text was converted to is what its own text converts to, and each scalar is what its own
text converts to. -/
theorem convert_back {t : ParamType} (ht : t.Restored) (separator : Char) :
    (∀ text v, t.convert separator text = .ok v →
      t.convert separator (v.text separator) = .ok v) ∧
      ∀ k, t = .one k → ∀ v : Value, v.HasType t → t.convert separator v.display = .ok v := by
  have hscalar {k : Kind} (hk : ∀ f, k ≠ .float f) (v : Value) (hv : v.HasType (.one k))
      (separator : Char) : k.convert (v.text separator) = .ok v := by
    obtain ⟨x, rfl, rfl⟩ := Value.hasType_one.1 hv
    exact Kind.convert_eq_ok.2 ⟨x, Scalar.read?_text hk, rfl⟩
  cases ht with
  | one hk =>
    refine ⟨fun text v hv => hscalar hk v (Kind.hasType_of_convert hv) separator, ?_⟩
    rintro k ⟨⟩ v hv
    exact hscalar hk v hv ','
  | many hk =>
    refine ⟨fun text v hv => ?_, nofun⟩
    obtain ⟨items, hitems, rfl⟩ := convert_many_eq_ok.1 hv
    refine convert_text_array fun item hitem => ?_
    obtain ⟨piece, hpiece, hread⟩ := exists_of_forall₂ hitems.flip hitem
    exact hk.convertsAll_text (Text.whole_of_mem_pieces hpiece) hread

end ParamType

/-- A number that was typed with a sign and zeros in front, and a zero with a minus. -/
def Value.eightAndZero : Value :=
  .array [.scalar (.int .i32 ⟨8, by decide⟩), .scalar (.int .i32 ⟨0, by decide⟩)]

/-- A digit for the separator: it stands in neither number, since it was typed in neither. -/
theorem ParamType.convert_back_eightAndZero :
    (many (.int .i32)).convert '1' "+0081-0" = .ok .eightAndZero ∧
      (many (.int .i32)).convert '1' (Value.eightAndZero.text '1') = .ok .eightAndZero := by
  have hread : (many (.int .i32)).convert '1' "+0081-0" = .ok .eightAndZero := rfl
  exact ⟨hread, (convert_back (.many (.int .i32)) '1').1 _ _ hread⟩

end Abbrev

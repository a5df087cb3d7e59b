import Abbrev.Proofs.Conversion.Elements
import Abbrev.Settings

/-! The text of a value converts to the value again. A scalar is read from its text by the reader of
its kind. An array's text is cut at each separator, so its elements come back when none has the
separator in its text, or has it where the rest still reads as the element. -/

namespace Abbrev

theorem IntKind.read?_integer {k : IntKind} (n : k.Range) :
    k.read? (Number.integer n.val) = some n := by
  unfold read?
  split
  · -- Without a sign no number is negative, and digits alone do not begin with a minus.
    rename_i hsigned hminus
    have hpos := n.property.1
    simp only [least, hsigned, Bool.false_eq_true, if_false] at hpos
    rw [Number.integer, if_neg (by omega)] at hminus
    have hdigit := List.all_eq_true.1 (Number.all_isDigit_decimal n.val.natAbs) '-'
      (hminus ▸ List.mem_cons_self)
    exact absurd hdigit (by decide)
  · rw [Number.integer?_integer, Option.bind_some, inRange?_val]

/-- The kinds whose values are typed without quotes. -/
inductive Kind.Bare : Kind → Prop
  | bool : Bare .bool
  | int (k : IntKind) : Bare (.int k)

theorem Kind.Bare.ne_float {k : Kind} (h : k.Bare) (f : FloatKind) : k ≠ .float f := by
  rintro rfl
  cases h

namespace Scalar

variable {x : Scalar} {separator : Char}

theorem read?_text (h : ∀ k, x.kind ≠ .float k) : x.kind.read? x.text = some x := by
  cases x with
  | bool b => cases b <;> rfl
  | char c => simp [Kind.read?, text, kind]
  | string s => rfl
  | int k n => simp [Kind.read?, text, kind, IntKind.read?_integer]
  | float k x => exact absurd rfl (h k)

theorem text_ne_empty (h : x.kind.Bare) : x.text.toList ≠ [] := by
  cases x with
  | bool b => cases b <;> decide
  | int k n => simpa [text] using Number.integer_ne_nil n.val
  | _ => cases h

theorem isReserved_eq_false_of_mem_text (h : x.kind.Bare) {c : Char} (hc : c ∈ x.text.toList) :
    Settings.isReserved c = false := by
  cases x with
  | bool b => cases b <;> revert c <;> simp [text, Settings.isReserved, Text.isBlank]
  | int k n =>
    rw [text, String.toList_ofList] at hc
    rcases Number.mem_integer hc with rfl | hdigit
    · decide
    · exact Settings.isReserved_eq_false_of_isDigit hdigit
  | _ => cases h

/-- Cutting the text at a separator does no harm. The last letter of a truth value may be cut off,
since what is left of the word still stands for it. -/
def Separable (separator : Char) (x : Scalar) : Prop :=
  separator ∉ x.text.toList ∨ ∃ b, x = .bool b ∧ separator = 'e'

/-- A text that is one piece is read as the scalar that it is the text of. -/
theorem convertsAll_of_whole (h : ∀ k, x.kind ≠ .float k) (hwhole : Text.Whole separator x.text) :
    x.kind.ConvertsAll (Text.pieces separator x.text) [.scalar x] := by
  have hread : x.kind.convert x.text = .ok (.scalar x) :=
    Kind.convert_eq_ok.2 ⟨x, read?_text h, rfl⟩
  rw [hwhole.pieces_eq]
  exact .cons hread .nil

/-- The text of an element, cut at the separator, converts to that element alone. -/
theorem convertsAll_pieces_text (h : x.kind.Bare) (hsep : x.Separable separator) :
    x.kind.ConvertsAll (Text.pieces separator x.text) [.scalar x] := by
  rcases hsep with hsep | ⟨b, rfl, rfl⟩
  · exact convertsAll_of_whole h.ne_float ⟨mt String.toList_eq_nil_iff.2 (text_ne_empty h), hsep⟩
  · cases b <;> exact .cons rfl .nil

end Scalar

namespace Value

variable {t : ParamType} {v : Value} {separator : Char}

theorem toList_text_array (separator : Char) (items : List Value) :
    ((array items).text separator).toList =
      [separator].intercalate (items.map fun v => (v.text separator).toList) := by
  rw [text, texts_eq_map, String.toList_intercalate, List.map_map, String.toList_singleton]
  rfl

/-- Cutting an array's text at each separator does its elements no harm. -/
def Separable (separator : Char) : Value → Prop
  | scalar _ => True
  | array items => ∀ x, .scalar x ∈ items → x.Separable separator

theorem text_ne_empty (hbare : t.element.Bare) (hv : v.HasType t) (hne : v ≠ .array []) :
    (v.text separator).toList ≠ [] := by
  cases t with
  | one k =>
    obtain ⟨x, rfl, rfl⟩ := hasType_one.1 hv
    exact Scalar.text_ne_empty hbare
  | many k =>
    obtain ⟨items, rfl, hitems⟩ := hasType_many.1 hv
    obtain ⟨item, rest, rfl⟩ := List.exists_cons_of_ne_nil fun h => hne (h ▸ rfl)
    obtain ⟨x, rfl, rfl⟩ := hasType_one.1 (hitems item List.mem_cons_self)
    have hfirst : ((scalar x).text separator).toList ≠ [] := Scalar.text_ne_empty hbare
    rw [toList_text_array, List.map_cons]
    cases rest with
    | nil => simpa using hfirst
    | cons item' rest => simp [List.intercalate_cons_cons]

theorem isReserved_eq_false_of_mem_text (hbare : t.element.Bare) (hv : v.HasType t)
    (hsep : Settings.isReserved separator = false) {c : Char}
    (hc : c ∈ (v.text separator).toList) : Settings.isReserved c = false := by
  cases t with
  | one k =>
    obtain ⟨x, rfl, rfl⟩ := hasType_one.1 hv
    exact Scalar.isReserved_eq_false_of_mem_text hbare hc
  | many k =>
    obtain ⟨items, rfl, hitems⟩ := hasType_many.1 hv
    rw [toList_text_array] at hc
    rcases Text.mem_of_mem_intercalate hc with hc | ⟨piece, hpiece, hc⟩
    · rwa [List.mem_singleton.1 hc]
    · obtain ⟨item, hitem, rfl⟩ := List.mem_map.1 hpiece
      obtain ⟨x, rfl, rfl⟩ := hasType_one.1 (hitems item hitem)
      exact Scalar.isReserved_eq_false_of_mem_text hbare hc

end Value

/-- An array is read from its text when each of its elements is read from its own, cut at the
separator. -/
theorem ParamType.convert_text_array {k : Kind} {items : List Value} {separator : Char}
    (h : ∀ item ∈ items, k.ConvertsAll (Text.pieces separator (item.text separator)) [item]) :
    (many k).convert separator ((Value.array items).text separator) = .ok (.array items) := by
  have hpieces : List.Forall₂ (fun item vs =>
      k.ConvertsAll (Text.pieces separator (item.text separator)) vs) items
      (items.map fun item => [item]) :=
    List.forall₂_map_right_iff.2 (List.forall₂_same.2 h)
  refine convert_many_eq_ok.2 ⟨items, ?_, rfl⟩
  rw [Value.text, Value.texts_eq_map, Text.pieces_intercalate, List.flatMap_map]
  exact forall₂_flatMap_left_iff.2 ⟨_, hpieces, (List.flatMap_singleton' items).symm⟩

theorem ParamType.convert_text {t : ParamType} {v : Value} {separator : Char}
    (hbare : t.element.Bare) (hv : v.HasType t) (hsep : v.Separable separator) :
    t.convert separator (v.text separator) = .ok v := by
  cases t with
  | one k =>
    obtain ⟨x, rfl, rfl⟩ := Value.hasType_one.1 hv
    exact Kind.convert_eq_ok.2 ⟨x, Scalar.read?_text hbare.ne_float, rfl⟩
  | many k =>
    obtain ⟨items, rfl, hitems⟩ := Value.hasType_many.1 hv
    refine convert_text_array fun item hitem => ?_
    obtain ⟨x, rfl, rfl⟩ := Value.hasType_one.1 (hitems item hitem)
    exact Scalar.convertsAll_pieces_text hbare (hsep x hitem)

end Abbrev

import Abbrev.Proofs.Conversion.Typing
import Abbrev.Proofs.Report.JsonText

/-! Values of one type without floating-point numbers are told from their JSON texts. The type has
to be known: a character and a string of one character look alike, and so do equal integers of
different widths. -/

namespace Abbrev

namespace Json

theorem texts_eq_map (js : List Json) : texts js = js.map text := by
  induction js with
  | nil => rfl
  | cons j js ih => rw [texts, ih, List.map_cons]

theorem fieldTexts_eq_map (fields : List (String × Json)) :
    fieldTexts fields = fields.map fun f => quote f.1 ++ ":" ++ f.2.text := by
  induction fields with
  | nil => rfl
  | cons f fields ih =>
    obtain ⟨name, j⟩ := f
    rw [fieldTexts, ih, List.map_cons]

end Json

namespace Scalar

def IsFloat (x : Scalar) : Prop := ∃ k, x.kind = .float k

theorem widen_of_not_isFloat {x : Scalar} (h : ¬ x.IsFloat) : x.widen = x := by
  cases x with
  | float k x => exact absurd ⟨k, rfl⟩ h
  | _ => rfl

end Scalar

namespace Value

mutual

/-- The scalars in a value, at every depth. -/
def scalars : Value → List Scalar
  | scalar x => [x]
  | array items => scalarsAll items

def scalarsAll : List Value → List Scalar
  | [] => []
  | v :: vs => v.scalars ++ scalarsAll vs

end

def Floatless (v : Value) : Prop := ∀ x ∈ v.scalars, ¬ x.IsFloat

theorem scalarsAll_eq_flatMap (vs : List Value) : scalarsAll vs = vs.flatMap scalars := by
  induction vs with
  | nil => rfl
  | cons v vs ih => rw [scalarsAll, ih, List.flatMap_cons]

theorem jsons_eq_map (vs : List Value) : jsons vs = vs.map json := by
  induction vs with
  | nil => rfl
  | cons v vs ih => rw [jsons, ih, List.map_cons]

@[simp] theorem floatless_scalar {x : Scalar} : (scalar x).Floatless ↔ ¬ x.IsFloat := by
  simp [Floatless, scalars]

theorem floatless_array {items : List Value} :
    (array items).Floatless ↔ ∀ item ∈ items, item.Floatless := by
  simp only [Floatless, scalars, scalarsAll_eq_flatMap, List.mem_flatMap]
  constructor
  · exact fun h item hitem x hx => h x ⟨item, hitem, hx⟩
  · rintro h x ⟨item, hitem, hx⟩
    exact h item hitem x hx

mutual

theorem widen_of_floatless : ∀ {v : Value}, v.Floatless → v.widen = v
  | scalar x, h => by rw [widen, Scalar.widen_of_not_isFloat (floatless_scalar.1 h)]
  | array items, h => by rw [widen, widenAll_of_floatless (floatless_array.1 h)]

theorem widenAll_of_floatless : ∀ {vs : List Value}, (∀ v ∈ vs, v.Floatless) → widenAll vs = vs
  | [], _ => rfl
  | v :: vs, h => by
    rw [List.forall_mem_cons] at h
    rw [widenAll, widen_of_floatless h.1, widenAll_of_floatless h.2]

end

end Value

namespace Json

theorem isDelimiter_of_mem_integer {n : Int} {c : Char} (h : c ∈ Number.integer n) :
    isDelimiter c = false := by
  rcases Number.mem_integer h with rfl | hdigit
  · rfl
  · refine Bool.eq_false_iff.2 fun hdelimiter => ?_
    simp only [isDelimiter, Bool.or_eq_true, beq_iff_eq] at hdelimiter
    rcases hdelimiter with (rfl | rfl) | rfl <;> cases hdigit

theorem text_int (k : IntKind) (n : k.Range) :
    (Scalar.int k n).json.text.toList = Number.integer n.val := by
  rw [Scalar.json, text, String.toList_ofList]

/-- Scalars of one kind are told from their texts. -/
theorem selfDelimiting_scalar (k : Kind) :
    SelfDelimiting (fun x : Scalar => x.json.text.toList) fun x => x.kind = k ∧ ¬ x.IsFloat where
  starts := by
    rintro x ⟨-, hfloat⟩
    cases x with
    | bool b =>
      cases b
      · exact ⟨'f', _, rfl, rfl⟩
      · exact ⟨'t', _, rfl, rfl⟩
    | char c => exact selfDelimiting_quote.starts _ trivial
    | string s => exact selfDelimiting_quote.starts _ trivial
    | int k n =>
      obtain ⟨c, s, hcs⟩ := List.exists_cons_of_ne_nil (Number.integer_ne_nil n.val)
      exact ⟨c, s, (text_int k n).trans hcs, isDelimiter_of_mem_integer (hcs ▸ List.mem_cons_self)⟩
    | float k x => exact absurd ⟨k, rfl⟩ hfloat
  cancel := by
    rintro x y ⟨rfl, hfloat⟩ ⟨hkind, -⟩ s s' hs hs' h
    cases x with
    | bool b =>
      cases y <;> cases hkind
      rename_i b'
      cases b <;> cases b' <;> simp_all [Scalar.json, text]
    | char c =>
      cases y <;> cases hkind
      obtain ⟨hcc, hrest⟩ := quote_cancel h
      exact ⟨congrArg Scalar.char (by simpa using congrArg String.toList hcc), hrest⟩
    | string t =>
      cases y <;> cases hkind
      obtain ⟨rfl, hrest⟩ := quote_cancel h
      exact ⟨rfl, hrest⟩
    | int k n =>
      cases y <;> cases hkind
      rename_i n'
      simp only [text_int] at h
      obtain ⟨hnn, hrest⟩ := undelimited_cancel (fun _ => isDelimiter_of_mem_integer)
        (fun _ => isDelimiter_of_mem_integer) hs hs' h
      have hread := congrArg Number.integer? hnn
      rw [Number.integer?_integer, Number.integer?_integer] at hread
      obtain rfl := Subtype.ext (Option.some.inj hread)
      exact ⟨rfl, hrest⟩
    | float k x => exact absurd ⟨k, rfl⟩ hfloat

theorem toList_text_array (items : List Value) : (Value.array items).json.text.toList =
    '[' :: ([','].intercalate (items.map fun v => v.json.text.toList) ++ [']']) := by
  simp [Value.json, text, texts_eq_map, Value.jsons_eq_map, String.toList_intercalate,
    Function.comp_def]

/-- Values of one type are told from their texts. -/
theorem selfDelimiting_value (t : ParamType) :
    SelfDelimiting (fun v : Value => v.json.text.toList) fun v => v.HasType t ∧ v.Floatless := by
  have hone (k : Kind) : SelfDelimiting (fun v : Value => v.json.text.toList)
      fun v => v.HasType (.one k) ∧ v.Floatless := by
    constructor
    · rintro v ⟨htype, hfloat⟩
      obtain ⟨x, rfl, hx⟩ := Value.hasType_one.1 htype
      exact (selfDelimiting_scalar k).starts x ⟨hx, Value.floatless_scalar.1 hfloat⟩
    · rintro v w ⟨hv, hvf⟩ ⟨hw, hwf⟩ s s' hs hs' h
      obtain ⟨x, rfl, hx⟩ := Value.hasType_one.1 hv
      obtain ⟨y, rfl, hy⟩ := Value.hasType_one.1 hw
      obtain ⟨rfl, hrest⟩ := (selfDelimiting_scalar k).cancel x y
        ⟨hx, Value.floatless_scalar.1 hvf⟩ ⟨hy, Value.floatless_scalar.1 hwf⟩ s s' hs hs' h
      exact ⟨rfl, hrest⟩
  cases t with
  | one k => exact hone k
  | many k =>
    constructor
    · rintro v ⟨htype, -⟩
      obtain ⟨items, rfl, -⟩ := Value.hasType_many.1 htype
      exact ⟨'[', _, toList_text_array items, rfl⟩
    · rintro v w ⟨hv, hvf⟩ ⟨hw, hwf⟩ s s' - - h
      obtain ⟨items, rfl, hitems⟩ := Value.hasType_many.1 hv
      obtain ⟨others, rfl, hothers⟩ := Value.hasType_many.1 hw
      rw [Value.floatless_array] at hvf hwf
      simp only [toList_text_array, List.cons_append, List.append_assoc, List.cons.injEq,
        true_and] at h
      obtain ⟨rfl, hrest⟩ := (hone k).intercalate_cancel rfl (by decide)
        (fun item hitem => ⟨hitems item hitem, hvf item hitem⟩)
        (fun item hitem => ⟨hothers item hitem, hwf item hitem⟩) h
      exact ⟨rfl, hrest⟩

end Json

end Abbrev

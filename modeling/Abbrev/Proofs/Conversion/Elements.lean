import Abbrev.Proofs.Conversion.Typing

/-! The elements of an array's text are its pieces between separators. Texts that are joined by
separators come apart into the pieces of each of them, so that they come back only where none is
empty or has a separator in it. -/

namespace Abbrev

namespace Text

variable {separator : Char} {text : String}

/-- The pieces of a text between separators, none of them empty. -/
def pieces (separator : Char) (text : String) : List String :=
  (fields (· == separator) text.toList).map String.ofList

/-- A text that is one piece. -/
def Whole (separator : Char) (text : String) : Prop :=
  text ≠ "" ∧ separator ∉ text.toList

theorem whole_of_mem_pieces {piece : String} (h : piece ∈ pieces separator text) :
    Whole separator piece := by
  obtain ⟨p, hp, rfl⟩ := List.mem_map.1 h
  refine ⟨mt String.ofList_eq_empty_iff.1 (ne_nil_of_mem_fields hp), fun hmem => ?_⟩
  rw [String.toList_ofList] at hmem
  have hcut := not_cut_of_mem_fields hp separator hmem
  simp at hcut

theorem Whole.pieces_eq (h : Whole separator text) : pieces separator text = [text] := by
  have hwhole : ∀ c ∈ text.toList, (c == separator) = false := fun c hc =>
    beq_eq_false_iff_ne.2 fun heq => h.2 (heq ▸ hc)
  rw [pieces, fields_eq_singleton (mt String.toList_eq_nil_iff.1 h.1) hwhole, List.map_singleton,
    String.ofList_toList]

theorem pieces_intercalate (separator : Char) (texts : List String) :
    pieces separator (String.intercalate (String.singleton separator) texts) =
      texts.flatMap (pieces separator) := by
  have hcut (xss : List (List Char)) : fields (· == separator) ([separator].intercalate xss) =
      xss.flatMap (fields (· == separator)) :=
    fields_intercalate (by simp) xss
  rw [pieces, String.toList_intercalate, String.toList_singleton, hcut, List.flatMap_map,
    List.map_flatMap]
  rfl

/-- What is cut into pieces comes back exactly when it was in pieces. -/
theorem flatMap_pieces_eq_self_iff {texts : List String} :
    texts.flatMap (pieces separator) = texts ↔ ∀ text ∈ texts, Whole separator text := by
  constructor
  · intro h text hmem
    rw [← h] at hmem
    obtain ⟨whole, -, hpiece⟩ := List.mem_flatMap.1 hmem
    exact whole_of_mem_pieces hpiece
  · intro h
    induction texts with
    | nil => rfl
    | cons text texts ih =>
      rw [List.forall_mem_cons] at h
      rw [List.flatMap_cons, h.1.pieces_eq, ih h.2, List.singleton_append]

end Text

/-- The values of texts one by one. -/
def Kind.ConvertsAll (k : Kind) (texts : List String) (vs : List Value) : Prop :=
  List.Forall₂ (fun text v => k.convert text = .ok v) texts vs

theorem ParamType.convert_many_eq_ok {k : Kind} {separator : Char} {text : String} {v : Value} :
    (many k).convert separator text = .ok v ↔
      ∃ vs, k.ConvertsAll (Text.pieces separator text) vs ∧ v = .array vs := by
  rw [convert, bind_eq_ok]
  simp only [mapM_eq_ok, pure_eq_ok, Kind.ConvertsAll, Text.pieces, List.forall₂_map_left_iff]
  exact exists_congr fun vs => and_congr_right fun _ => eq_comm

/-- Any text is the text that it stands for. -/
theorem Kind.convertsAll_string_iff {texts : List String} {vs : List Value} :
    Kind.string.ConvertsAll texts vs ↔ texts.map (fun text => .scalar (.string text)) = vs := by
  rw [← List.forall₂_eq_eq_eq, List.forall₂_map_left_iff, ConvertsAll]
  simp only [Kind.convert, Kind.read?, Except.ok.injEq]

end Abbrev

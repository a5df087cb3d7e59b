import Abbrev.Proofs.Conversion.Elements
import Abbrev.Proofs.Failing

/-! Texts joined by a separator. An array's text is converted piece by piece, so what stands behind
a separator is converted as if it stood alone: the elements of two joined texts are those of the one
followed by those of the other, and of two texts that do not convert the first is the one that is
reported. Separators around nothing make no difference. -/

namespace Abbrev

theorem Kind.convert_eq_error {k : Kind} {text : String} {f : Fault} :
    k.convert text = .error f ↔ k.read? text = none ∧ f = .conversion text k.name := by
  unfold convert
  cases k.read? text with
  | none => simp [eq_comm]
  | some x => simp

namespace Text

variable (separator : Char) (a b : String)

theorem pieces_empty : pieces separator "" = [] := by
  simp [pieces]

theorem pieces_append :
    pieces separator (a ++ String.singleton separator ++ b) =
      pieces separator a ++ pieces separator b := by
  simp [pieces, fields_append_cons]

end Text

/-- The elements of an array. -/
def Value.items : Value → List Value
  | array vs => vs
  | scalar _ => []

namespace ParamType

theorem convert_many (k : Kind) (separator : Char) (text : String) :
    (many k).convert separator text =
      Value.array <$> (Text.pieces separator text).mapM k.convert := by
  rw [convert, Text.pieces, List.mapM_map]
  rfl

/-- How an array's text falls into the texts of its elements. -/
structure JoinsElements (k : Kind) (separator : Char) : Prop where
  /-- The first text that does not convert is the one that is reported. -/
  append : ∀ a b, (many k).convert separator (a ++ String.singleton separator ++ b) = do
    let x ← (many k).convert separator a
    let y ← (many k).convert separator b
    pure (.array (x.items ++ y.items))
  array : ∀ text v, (many k).convert separator text = .ok v → v = .array v.items
  empty : (many k).convert separator "" = .ok (.array [])
  single : ∀ text, Text.Whole separator text →
    (many k).convert separator text = (k.convert text).map fun v => .array [v]
  leading : ∀ text, (many k).convert separator (String.singleton separator ++ text) =
    (many k).convert separator text
  trailing : ∀ text, (many k).convert separator (text ++ String.singleton separator) =
    (many k).convert separator text
  repeated : ∀ a b, (many k).convert separator
      (a ++ String.singleton separator ++ String.singleton separator ++ b) =
    (many k).convert separator (a ++ String.singleton separator ++ b)
  leftmost : ∀ text f, (many k).convert separator text = .error f ↔
    ∃ before bad after, Text.pieces separator text = before ++ bad :: after ∧
      (∀ piece ∈ before, ∃ v, k.convert piece = .ok v) ∧ k.read? bad = none ∧
      f = .conversion bad k.name

theorem convert_many_congr {k : Kind} {separator : Char} {a b : String}
    (h : Text.pieces separator a = Text.pieces separator b) :
    (many k).convert separator a = (many k).convert separator b := by
  rw [convert_many, convert_many, h]

theorem convert_many_append (k : Kind) (separator : Char) (a b : String) :
    (many k).convert separator (a ++ String.singleton separator ++ b) = (do
      let x ← (many k).convert separator a
      let y ← (many k).convert separator b
      pure (.array (x.items ++ y.items))) := by
  rw [convert_many, convert_many, convert_many, Text.pieces_append, List.mapM_append]
  cases (Text.pieces separator a).mapM k.convert with
  | error f => rfl
  | ok vs =>
    cases (Text.pieces separator b).mapM k.convert with
    | error f => rfl
    | ok ws => rfl

theorem convert_many_eq_error {k : Kind} {separator : Char} {text : String} {f : Fault} :
    (many k).convert separator text = .error f ↔
      ∃ before bad after, Text.pieces separator text = before ++ bad :: after ∧
        (∀ piece ∈ before, ∃ v, k.convert piece = .ok v) ∧ k.read? bad = none ∧
        f = .conversion bad k.name := by
  simp only [← Kind.convert_eq_error]
  rw [← mapM_eq_error, convert_many]
  exact map_eq_error

/-- Conversion of an array takes joined texts to joined arrays. -/
theorem joinsElements (k : Kind) (separator : Char) : JoinsElements k separator where
  append := convert_many_append k separator
  array text v h := by
    obtain ⟨vs, -, rfl⟩ := convert_many_eq_ok.1 h
    rfl
  empty := by
    rw [convert_many, Text.pieces_empty]
    rfl
  single text h := by
    rw [convert_many, h.pieces_eq, List.mapM_cons, List.mapM_nil]
    cases k.convert text <;> rfl
  leading text := convert_many_congr <| by
    have hjoined := Text.pieces_append separator "" text
    rwa [Text.pieces_empty, String.empty_append] at hjoined
  trailing text := convert_many_congr <| by
    have hjoined := Text.pieces_append separator text ""
    rwa [Text.pieces_empty, String.append_empty, List.append_nil] at hjoined
  repeated a b := convert_many_congr <| by
    have hfirst := Text.pieces_append separator a ""
    rw [String.append_empty, Text.pieces_empty, List.append_nil] at hfirst
    rw [Text.pieces_append, Text.pieces_append, hfirst]
  leftmost _ _ := convert_many_eq_error

end ParamType

end Abbrev

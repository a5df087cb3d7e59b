import Abbrev.Proofs.Report.Values
import Abbrev.Text.Fields

/-! No JSON text has a control character in it: strings have theirs escaped, and numbers are written
with digits, signs, a point and an exponent's letter. So data is written without line breaks,
whatever it holds. -/

namespace Abbrev

namespace Number

/-- The characters of numbers. -/
def IsNumeral (c : Char) : Prop := c.isDigit = true ∨ c ∈ ['.', 'e', '+', '-']

theorem isNumeral_of_mem_decimal {n : Nat} {c : Char} (h : c ∈ decimal n) : IsNumeral c :=
  .inl (List.all_eq_true.1 (all_isDigit_decimal n) c h)

theorem isNumeral_of_mem_replicate {n : Nat} {c : Char} (h : c ∈ List.replicate n '0') :
    IsNumeral c := by
  rw [List.eq_of_mem_replicate h]
  exact .inl rfl

theorem isNumeral_of_mem_positional {s : Scaled} {c : Char} (h : c ∈ s.positional) :
    IsNumeral c := by
  unfold Scaled.positional at h
  split at h
  · exact (List.mem_append.1 h).elim isNumeral_of_mem_decimal isNumeral_of_mem_replicate
  · have hpadded {n : Nat} {d : Char} (hd : d ∈ List.replicate n '0' ++ decimal s.digits) :
        IsNumeral d :=
      (List.mem_append.1 hd).elim isNumeral_of_mem_replicate isNumeral_of_mem_decimal
    rcases List.mem_append.1 h with hd | hd
    · exact hpadded (List.mem_of_mem_take hd)
    · rcases List.mem_cons.1 hd with rfl | hd
      · exact .inr (by decide)
      · exact hpadded (List.mem_of_mem_drop hd)

theorem isNumeral_of_mem_scientific {s : Scaled} {c : Char} (h : c ∈ s.scientific) :
    IsNumeral c := by
  unfold Scaled.scientific at h
  rcases List.mem_append.1 h with hmantissa | hexponent
  · split at hmantissa
    · rename_i d e r hdigits
      rcases List.mem_cons.1 hmantissa with rfl | hrest
      · exact isNumeral_of_mem_decimal (hdigits ▸ List.mem_cons_self)
      · rcases List.mem_cons.1 hrest with rfl | hrest
        · exact .inr (by decide)
        · exact isNumeral_of_mem_decimal (hdigits ▸ List.mem_cons_of_mem d hrest)
    · exact isNumeral_of_mem_decimal hmantissa
  · rcases List.mem_cons.1 hexponent with rfl | hsigned
    · exact .inr (by decide)
    · rcases List.mem_cons.1 hsigned with rfl | hdigits
      · split <;> exact .inr (by decide)
      · exact isNumeral_of_mem_decimal hdigits

theorem isNumeral_of_mem_signed {negative : Bool} {s : List Char} (hs : ∀ c ∈ s, IsNumeral c)
    {c : Char} (h : c ∈ signed negative s) : IsNumeral c := by
  cases negative with
  | false => exact hs c h
  | true =>
    rcases List.mem_cons.1 h with rfl | h
    · exact .inr (by decide)
    · exact hs c h

theorem isNumeral_of_mem_data? {f : Format} {x : Binary} {s : List Char} (hs : x.data? f = some s)
    {c : Char} (h : c ∈ s) : IsNumeral c := by
  cases x with
  | finite negative m e =>
    obtain rfl := Option.some.inj hs
    refine isNumeral_of_mem_signed (fun d hd => ?_) h
    split at hd
    · split at hd
      · refine (List.mem_append.1 hd).elim isNumeral_of_mem_positional fun hpoint => ?_
        rcases List.mem_cons.1 hpoint with rfl | hzero
        · exact .inr (by decide)
        · exact @isNumeral_of_mem_replicate 1 d hzero
      · exact isNumeral_of_mem_positional hd
    · exact isNumeral_of_mem_scientific hd
  | _ => cases hs

theorem isNumeral_of_mem_integer {n : Int} {c : Char} (h : c ∈ integer n) : IsNumeral c := by
  rcases mem_integer h with rfl | hdigit
  · exact .inr (by decide)
  · exact .inl hdigit

end Number

namespace Json

/-- Whether a character is none of the control characters. -/
def isPrinted (c : Char) : Bool := 0x20 ≤ c.toNat

theorem isPrinted_of_mem {s : List Char} (hs : s.all isPrinted = true) {c : Char} (h : c ∈ s) :
    isPrinted c = true :=
  List.all_eq_true.1 hs c h

theorem isPrinted_of_isNumeral {c : Char} (h : Number.IsNumeral c) : isPrinted c = true := by
  rcases h with hdigit | hmem
  · have := (Number.toNat_of_isDigit hdigit).1
    rw [isPrinted, decide_eq_true_iff]
    omega
  · exact isPrinted_of_mem (by decide) hmem

theorem isPrinted_hexDigit : ∀ n < 16, isPrinted (hexDigit n) = true := by decide

theorem isPrinted_of_mem_escape {c d : Char} (h : d ∈ escape c) : isPrinted d = true := by
  unfold escape at h
  split at h
  case h_8 =>
    split at h
    · simp only [List.mem_cons, List.not_mem_nil, or_false] at h
      rcases h with rfl | rfl | rfl | rfl | rfl | rfl
      any_goals rfl
      · exact isPrinted_hexDigit _ (by omega)
      · exact isPrinted_hexDigit _ (by omega)
    · rename_i hcontrol
      rw [List.mem_singleton.1 h, isPrinted, decide_eq_true_iff]
      exact Nat.le_of_not_lt hcontrol
  all_goals exact isPrinted_of_mem (by decide) h

theorem isPrinted_of_mem_quote {s : String} {c : Char} (h : c ∈ (quote s).toList) :
    isPrinted c = true := by
  rw [toList_quote, List.mem_cons, List.mem_append, List.mem_flatMap, List.mem_singleton] at h
  rcases h with rfl | ⟨d, -, hd⟩ | rfl
  · rfl
  · exact isPrinted_of_mem_escape hd
  · rfl

theorem isPrinted_of_mem_intercalate {items : List (List Char)}
    (hitems : ∀ s ∈ items, ∀ c ∈ s, isPrinted c = true) {c : Char}
    (h : c ∈ [','].intercalate items) : isPrinted c = true := by
  rcases Text.mem_of_mem_intercalate h with hcomma | ⟨s, hs, hc⟩
  · rw [List.mem_singleton.1 hcomma]
    rfl
  · exact hitems s hs c hc

end Json

namespace Value

open Json

theorem isPrinted_of_mem_scalar {x : Scalar} {c : Char} (h : c ∈ x.json.text.toList) :
    isPrinted c = true := by
  cases x with
  | bool b => cases b <;> exact isPrinted_of_mem (by decide) h
  | char d => exact isPrinted_of_mem_quote h
  | string s => exact isPrinted_of_mem_quote h
  | int k n =>
    rw [text_int] at h
    exact isPrinted_of_isNumeral (Number.isNumeral_of_mem_integer h)
  | float k x =>
    rw [Scalar.json, Number.Binary.json] at h
    split at h
    · rename_i s hs
      rw [Json.text, String.toList_ofList] at h
      exact isPrinted_of_isNumeral (Number.isNumeral_of_mem_data? hs h)
    · exact isPrinted_of_mem (by decide) h

mutual

theorem isPrinted_of_mem_text : ∀ (v : Value), ∀ c ∈ v.json.text.toList, isPrinted c = true
  | scalar x, _, h => isPrinted_of_mem_scalar h
  | array items, c, h => by
    rw [toList_text_array, List.mem_cons, List.mem_append, List.mem_singleton] at h
    rcases h with rfl | hitems | rfl
    · rfl
    · refine isPrinted_of_mem_intercalate (fun s hs => ?_) hitems
      obtain ⟨item, hitem, rfl⟩ := List.mem_map.1 hs
      exact isPrinted_of_mem_texts items item hitem
    · rfl

theorem isPrinted_of_mem_texts : ∀ (vs : List Value), ∀ v ∈ vs, ∀ c ∈ v.json.text.toList,
    isPrinted c = true
  | v :: vs, w, hw, c, hc => by
    rcases List.mem_cons.1 hw with heq | hw
    · exact isPrinted_of_mem_text v c (heq ▸ hc)
    · exact isPrinted_of_mem_texts vs w hw c hc

end

end Value

end Abbrev

import Abbrev.Json
import Mathlib.Data.List.TakeWhile

/-! JSON texts inside a longer text. A string ends at its closing quote, and a number or a keyword
where a comma or a bracket stands behind it; so of values that are written one after the other each
can be told from the text, once their types are known. No text has a control character in it. -/

namespace Abbrev

namespace Json

/-- What stands behind an element, a member, or the last of them. -/
def isDelimiter (c : Char) : Bool := c == ',' || c == ']' || c == '\x7d'

/-- A text in which a delimiter comes next. -/
def Delimited (s : List Char) : Prop := ∃ c rest, s = c :: rest ∧ isDelimiter c = true

/-- The text of an item shows where it ends and which item it is. -/
structure SelfDelimiting {α : Type} (item : α → List Char) (A : α → Prop) : Prop where
  starts : ∀ x, A x → ∃ c s, item x = c :: s ∧ isDelimiter c = false
  cancel : ∀ x y, A x → A y → ∀ s s', Delimited s → Delimited s' →
    item x ++ s = item y ++ s' → x = y ∧ s = s'

section Escapes

def hexValue (c : Char) : Nat := if c.isDigit then c.toNat - '0'.toNat else c.toNat - 'a'.toNat + 10

theorem hexValue_hexDigit : ∀ n < 16, hexValue (hexDigit n) = n := by decide

theorem hexValue_digits {n : Nat} (h : n < 256) :
    16 * hexValue (hexDigit (n / 16)) + hexValue (hexDigit (n % 16)) = n := by
  rw [hexValue_hexDigit _ (by omega), hexValue_hexDigit _ (by omega)]
  omega

/-- The first character of an escaped text, and the text behind it. -/
def readEscaped? : List Char → Option (Char × List Char)
  | '\\' :: 'u' :: '0' :: '0' :: a :: b :: s => some (Char.ofNat (16 * hexValue a + hexValue b), s)
  | '\\' :: 'n' :: s => some ('\n', s)
  | '\\' :: 'r' :: s => some ('\r', s)
  | '\\' :: 't' :: s => some ('\t', s)
  | '\\' :: 'b' :: s => some ('\x08', s)
  | '\\' :: 'f' :: s => some ('\x0c', s)
  | '\\' :: c :: s => some (c, s)
  | c :: s => some (c, s)
  | [] => none

theorem readEscaped?_of_ne {c : Char} (h : c ≠ '\\') (s : List Char) :
    readEscaped? (c :: s) = some (c, s) := by
  unfold readEscaped?
  split <;> simp_all

theorem readEscaped?_hexDigits {n : Nat} (h : n < 256) (s : List Char) :
    readEscaped? (['\\', 'u', '0', '0', hexDigit (n / 16), hexDigit (n % 16)] ++ s) =
      some (Char.ofNat n, s) := by
  calc
    _ = some (Char.ofNat (16 * hexValue (hexDigit (n / 16)) + hexValue (hexDigit (n % 16))), s) :=
      rfl
    _ = some (Char.ofNat n, s) := by rw [hexValue_digits h]

theorem readEscaped?_escape (c : Char) (s : List Char) :
    readEscaped? (escape c ++ s) = some (c, s) := by
  unfold escape
  split
  case h_8 _ hback _ _ _ _ _ =>
    split
    · rw [readEscaped?_hexDigits (by omega), Char.ofNat_toNat]
    · exact readEscaped?_of_ne hback s
  all_goals rfl

theorem escape_append_ne (c : Char) (s s' : List Char) : escape c ++ s ≠ '"' :: s' := by
  intro h
  have hread := readEscaped?_escape c s
  rw [h, readEscaped?_of_ne (by decide)] at hread
  obtain ⟨rfl, -⟩ := Prod.mk.inj (Option.some.inj hread)
  exact absurd (List.cons.inj h).1 (by decide)

end Escapes

section Strings

/-- A string ends at the first quote that is not escaped. -/
theorem escaped_cancel {s t r r' : List Char}
    (h : s.flatMap escape ++ '"' :: r = t.flatMap escape ++ '"' :: r') : s = t ∧ r = r' := by
  induction s generalizing t with
  | nil =>
    cases t with
    | nil => exact ⟨rfl, (List.cons.inj h).2⟩
    | cons d t =>
      rw [List.flatMap_cons, List.append_assoc] at h
      exact absurd h.symm (escape_append_ne d _ _)
  | cons c s ih =>
    cases t with
    | nil =>
      rw [List.flatMap_cons, List.append_assoc] at h
      exact absurd h (escape_append_ne c _ _)
    | cons d t =>
      have hread := congrArg readEscaped? h
      simp only [List.flatMap_cons, List.append_assoc, readEscaped?_escape, Option.some.injEq,
        Prod.mk.injEq] at hread
      obtain ⟨rfl, hrest⟩ := hread
      obtain ⟨rfl, rfl⟩ := ih hrest
      exact ⟨rfl, rfl⟩

theorem toList_quote (s : String) : (quote s).toList = '"' :: (s.toList.flatMap escape ++ ['"']) := by
  rw [quote, String.toList_ofList]
  rfl

theorem quote_cancel {s t : String} {r r' : List Char}
    (h : (quote s).toList ++ r = (quote t).toList ++ r') : s = t ∧ r = r' := by
  simp only [toList_quote, List.cons_append, List.append_assoc, List.nil_append, List.cons.injEq,
    true_and] at h
  obtain ⟨hst, hr⟩ := escaped_cancel h
  exact ⟨String.toList_inj.1 hst, hr⟩

theorem selfDelimiting_quote : SelfDelimiting (fun s => (quote s).toList) fun _ => True where
  starts s _ := ⟨'"', _, toList_quote s, rfl⟩
  cancel _ _ _ _ _ _ _ _ h := quote_cancel h

end Strings

section Undelimited

/-- A text without delimiters ends where the first one stands. -/
theorem undelimited_cancel {u v r r' : List Char} (hu : ∀ c ∈ u, isDelimiter c = false)
    (hv : ∀ c ∈ v, isDelimiter c = false) (hr : Delimited r) (hr' : Delimited r')
    (h : u ++ r = v ++ r') : u = v ∧ r = r' := by
  have htake {w s : List Char} (hw : ∀ c ∈ w, isDelimiter c = false) (hs : Delimited s) :
      (w ++ s).takeWhile (fun c => !isDelimiter c) = w := by
    obtain ⟨c, rest, rfl, hc⟩ := hs
    rw [List.takeWhile_append_of_pos (by simpa using hw), List.takeWhile_cons_of_neg (by simpa),
      List.append_nil]
  have huv : u = v := by rw [← htake hu hr, h, htake hv hr']
  subst huv
  exact ⟨rfl, List.append_cancel_left h⟩

end Undelimited

section Joined

variable {α : Type} {item : α → List Char} {A : α → Prop} {close : Char}

/-- What stands behind the first of some joined items. -/
def behind (item : α → List Char) (close : Char) (xs : List α) (r : List Char) : List Char :=
  match xs with
  | [] => close :: r
  | x :: xs => ',' :: ([','].intercalate ((x :: xs).map item) ++ close :: r)

theorem intercalate_cons (x : α) (xs : List α) (r : List Char) :
    [','].intercalate ((x :: xs).map item) ++ close :: r = item x ++ behind item close xs r := by
  cases xs with
  | nil => simp [behind]
  | cons y ys => simp [behind, List.intercalate_cons_cons]

theorem delimited_behind (hclose : isDelimiter close = true) (xs : List α) (r : List Char) :
    Delimited (behind item close xs r) := by
  cases xs with
  | nil => exact ⟨close, r, rfl, hclose⟩
  | cons x xs => exact ⟨',', _, rfl, rfl⟩

/-- Items with commas between them are told from the text up to the closing bracket. -/
theorem SelfDelimiting.intercalate_cancel (hitem : SelfDelimiting item A)
    (hclose : isDelimiter close = true) (hcomma : close ≠ ',') {xs ys : List α}
    (hxs : ∀ x ∈ xs, A x) (hys : ∀ y ∈ ys, A y) {r r' : List Char}
    (h : [','].intercalate (xs.map item) ++ close :: r =
      [','].intercalate (ys.map item) ++ close :: r') : xs = ys ∧ r = r' := by
  have hstart {y : α} (hy : A y) (ys : List α) (s s' : List Char) :
      close :: s ≠ [','].intercalate ((y :: ys).map item) ++ close :: s' := by
    obtain ⟨c, rest, hc, hd⟩ := hitem.starts y hy
    rw [intercalate_cons, hc, List.cons_append]
    intro heq
    obtain ⟨rfl, -⟩ := List.cons.inj heq
    rw [hclose] at hd
    cases hd
  induction xs generalizing ys with
  | nil =>
    cases ys with
    | nil => exact ⟨rfl, (List.cons.inj h).2⟩
    | cons y ys => exact absurd h (hstart (hys y List.mem_cons_self) ys _ _)
  | cons x xs ih =>
    cases ys with
    | nil => exact absurd h.symm (hstart (hxs x List.mem_cons_self) xs _ _)
    | cons y ys =>
      rw [List.forall_mem_cons] at hxs hys
      rw [intercalate_cons, intercalate_cons] at h
      obtain ⟨rfl, hbehind⟩ := hitem.cancel x y hxs.1 hys.1 _ _ (delimited_behind hclose xs r)
        (delimited_behind hclose ys r') h
      -- Either both lists end here, or a comma stands behind both items.
      cases xs with
      | nil =>
        cases ys with
        | nil => exact ⟨rfl, (List.cons.inj hbehind).2⟩
        | cons z zs => exact absurd (List.cons.inj hbehind).1 hcomma
      | cons w ws =>
        cases ys with
        | nil => exact absurd (List.cons.inj hbehind).1.symm hcomma
        | cons z zs =>
          obtain ⟨htail, hr⟩ := ih hxs.2 hys.2 (List.cons.inj hbehind).2
          exact ⟨by rw [htail], hr⟩

end Joined

end Json

end Abbrev

import Abbrev.Text.Blank

/-! The non-empty pieces of a text cut at chosen characters: words at white space, lines at line
breaks. Cutting at one more character joins the pieces of the two sides. -/

namespace Abbrev.Text

def fields (cut : Char → Bool) (s : List Char) : List (List Char) :=
  (s.splitOnP cut).filter (!·.isEmpty)

@[simp] theorem fields_nil (cut : Char → Bool) : fields cut [] = [] := by simp [fields]

theorem fields_append_cons (cut : Char → Bool) (a b : List Char) {c : Char} (h : cut c = true) :
    fields cut (a ++ c :: b) = fields cut a ++ fields cut b := by
  simp [fields, List.splitOnP_append_cons _ _ h]

theorem fields_cons_of_cut {cut : Char → Bool} {c : Char} (h : cut c = true) (s : List Char) :
    fields cut (c :: s) = fields cut s :=
  fields_append_cons cut [] s h

theorem ne_nil_of_mem_fields {cut : Char → Bool} {s p : List Char} (h : p ∈ fields cut s) :
    p ≠ [] := by
  simp only [fields, List.mem_filter] at h
  simpa using h.2

theorem not_cut_of_mem_splitOnP {cut : Char → Bool} {s p : List Char}
    (h : p ∈ s.splitOnP cut) : ∀ c ∈ p, cut c = false := by
  induction s generalizing p with
  | nil =>
    rw [List.splitOnP_nil, List.mem_singleton] at h
    simp [h]
  | cons c s ih =>
    rw [List.splitOnP_cons_eq_if_modifyHead] at h
    split at h
    · rcases List.mem_cons.1 h with rfl | h
      · simp
      · exact ih h
    · rename_i hc
      obtain ⟨first, rest, hs⟩ := List.exists_cons_of_ne_nil (List.splitOnP_ne_nil cut s)
      rw [hs, List.modifyHead_cons] at h
      rcases List.mem_cons.1 h with rfl | h
      · intro d hd
        rcases List.mem_cons.1 hd with rfl | hd
        · simpa using hc
        · exact ih (hs ▸ List.mem_cons_self) d hd
      · exact ih (hs ▸ List.mem_cons_of_mem first h)

theorem not_cut_of_mem_fields {cut : Char → Bool} {s p : List Char} (h : p ∈ fields cut s) :
    ∀ c ∈ p, cut c = false :=
  not_cut_of_mem_splitOnP (List.mem_filter.1 h).1

theorem fields_eq_singleton {cut : Char → Bool} {p : List Char} (hne : p ≠ [])
    (h : ∀ c ∈ p, cut c = false) : fields cut p = [p] := by
  simp [fields, List.splitOnP_eq_singleton h, hne]

/-- A text that does not begin with a cut begins with its first piece. -/
theorem exists_fields_cons {cut : Char → Bool} {c : Char} (h : cut c = false) (s : List Char) :
    ∃ p rest, c :: s = p ++ rest ∧ fields cut (c :: s) = p :: fields cut rest := by
  have hsplit : c :: s = (c :: s).takeWhile (!cut ·) ++ (c :: s).dropWhile (!cut ·) :=
    List.takeWhile_append_dropWhile.symm
  have hpiece : fields cut ((c :: s).takeWhile (!cut ·)) = [(c :: s).takeWhile (!cut ·)] := by
    refine fields_eq_singleton (by simp [h]) fun d hd => ?_
    simpa using List.all_eq_true.1 List.all_takeWhile d hd
  refine ⟨_, _, hsplit, ?_⟩
  conv => lhs; rw [hsplit]
  cases hrest : (c :: s).dropWhile (!cut ·) with
  | nil => rw [List.append_nil, hpiece, fields_nil]
  | cons d rest =>
    have hd : cut d = true := by
      simpa [hrest] using List.head?_dropWhile_not (!cut ·) (c :: s)
    rw [fields_append_cons _ _ _ hd, hpiece, fields_cons_of_cut hd, List.singleton_append]

theorem all_cut_of_fields_eq_nil {cut : Char → Bool} {s : List Char} (h : fields cut s = []) :
    ∀ c ∈ s, cut c = true := by
  induction s with
  | nil => simp
  | cons c s ih =>
    cases hc : cut c with
    | true => exact List.forall_mem_cons.2 ⟨hc, ih (fields_cons_of_cut hc s ▸ h)⟩
    | false =>
      obtain ⟨p, rest, -, hfields⟩ := exists_fields_cons hc s
      simp [hfields] at h

/-- A single piece has nothing but cuts around it. -/
theorem exists_cuts_of_fields_eq_singleton {cut : Char → Bool} {s p : List Char}
    (h : fields cut s = [p]) :
    ∃ before after, s = before ++ p ++ after ∧ (∀ c ∈ before, cut c = true) ∧
      ∀ c ∈ after, cut c = true := by
  induction s with
  | nil => simp at h
  | cons c s ih =>
    cases hc : cut c with
    | true =>
      obtain ⟨before, after, rfl, hbefore, hafter⟩ := ih (fields_cons_of_cut hc s ▸ h)
      exact ⟨c :: before, after, rfl, List.forall_mem_cons.2 ⟨hc, hbefore⟩, hafter⟩
    | false =>
      obtain ⟨q, rest, hsplit, hfields⟩ := exists_fields_cons hc s
      obtain ⟨rfl, hrest⟩ := List.cons_eq_cons.1 (hfields.symm.trans h)
      exact ⟨[], rest, hsplit, by simp, all_cut_of_fields_eq_nil hrest⟩

theorem mem_of_mem_intercalate {α : Type} {separator : List α} {xss : List (List α)} {x : α}
    (h : x ∈ separator.intercalate xss) : x ∈ separator ∨ ∃ xs ∈ xss, x ∈ xs := by
  induction xss with
  | nil => cases h
  | cons xs xss ih =>
    cases xss with
    | nil => exact .inr ⟨xs, List.mem_cons_self, by simpa using h⟩
    | cons ys yss =>
      rw [List.intercalate_cons_cons, List.mem_append, List.mem_append] at h
      rcases h with (h | h) | h
      · exact .inr ⟨xs, List.mem_cons_self, h⟩
      · exact .inl h
      · exact (ih h).imp_right fun ⟨zs, hzs, hx⟩ => ⟨zs, List.mem_cons_of_mem xs hzs, hx⟩

/-- Pieces joined by a cut are cut one by one. -/
theorem fields_intercalate {cut : Char → Bool} {c : Char} (h : cut c = true)
    (xss : List (List Char)) : fields cut ([c].intercalate xss) = xss.flatMap (fields cut) := by
  induction xss with
  | nil => rfl
  | cons xs xss ih =>
    cases xss with
    | nil => simp
    | cons ys yss =>
      rw [List.intercalate_cons_cons, List.append_assoc, List.singleton_append,
        fields_append_cons _ _ _ h, ih]
      rfl

def words (s : String) : List String :=
  (fields isBlank s.toList).map String.ofList

theorem mem_words {s w : String} (h : w ∈ words s) :
    w ≠ "" ∧ ∀ c ∈ w.toList, isBlank c = false := by
  obtain ⟨p, hp, rfl⟩ := List.mem_map.1 h
  rw [String.toList_ofList]
  exact ⟨mt String.ofList_eq_empty_iff.1 (ne_nil_of_mem_fields hp), not_cut_of_mem_fields hp⟩

def isLineBreak (c : Char) : Bool := c == '\r' || c == '\n'

theorem isBlank_of_isLineBreak {c : Char} (h : isLineBreak c = true) : isBlank c = true := by
  rw [isLineBreak, Bool.or_eq_true, beq_iff_eq, beq_iff_eq] at h
  rcases h with rfl | rfl <;> decide

theorem isLineBreak_eq_false {c : Char} (h : isBlank c = false) : isLineBreak c = false := by
  cases hbreak : isLineBreak c with
  | false => rfl
  | true => rw [isBlank_of_isLineBreak hbreak] at h; cases h

/-- A carriage return and a line feed each end a line; lines without characters do not count. -/
def lines (s : String) : List String :=
  (fields isLineBreak s.toList).map String.ofList

theorem lines_append_cons (a b : String) {c : Char} (h : isLineBreak c = true) :
    lines (a ++ String.singleton c ++ b) = lines a ++ lines b := by
  simp [lines, fields_append_cons _ _ _ h]

theorem lines_of_mem_lines {text line : String} (h : line ∈ lines text) : lines line = [line] := by
  obtain ⟨p, hp, rfl⟩ := List.mem_map.1 h
  have hp : fields isLineBreak p = [p] :=
    fields_eq_singleton (ne_nil_of_mem_fields hp) (not_cut_of_mem_fields hp)
  rw [lines, String.toList_ofList, hp, List.map_singleton]

theorem length_lines_le_one {text : String} (h : ∀ c ∈ text.toList, isLineBreak c = false) :
    (lines text).length ≤ 1 := by
  rw [lines, List.length_map]
  by_cases hne : text.toList = []
  · simp [hne]
  · simp [fields_eq_singleton hne h]

theorem exists_breaks_of_lines_eq_singleton {text line : String} (h : lines text = [line]) :
    ∃ before after, text.toList = before ++ line.toList ++ after ∧
      (∀ c ∈ before, isLineBreak c = true) ∧ ∀ c ∈ after, isLineBreak c = true := by
  obtain ⟨p, hfields, rfl⟩ := List.map_eq_singleton_iff.1 h
  rw [String.toList_ofList]
  exact exists_cuts_of_fields_eq_singleton hfields

end Abbrev.Text

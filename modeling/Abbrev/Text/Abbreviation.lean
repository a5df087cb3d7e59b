/-! Abbreviating a word means typing some of its first characters. -/

namespace Abbrev.Text

/-- Whether `short` is the beginning of `full`. -/
def abbreviates (short full : String) : Bool :=
  short.toList.isPrefixOf full.toList

theorem abbreviates_iff {short full : String} :
    abbreviates short full = true ↔ short.toList <+: full.toList :=
  List.isPrefixOf_iff_prefix

@[simp] theorem abbreviates_self (s : String) : abbreviates s s = true :=
  abbreviates_iff.2 (List.prefix_refl _)

theorem abbreviates_trans {short long full : String} (h : abbreviates short long = true)
    (h' : abbreviates long full = true) : abbreviates short full = true :=
  abbreviates_iff.2 ((abbreviates_iff.1 h).trans (abbreviates_iff.1 h'))

/-- The two lists are compared place by place as far as both go. -/
def abbreviateAll (short full : List String) : Bool :=
  (short.zip full).all fun (s, f) => abbreviates s f

@[simp] theorem abbreviateAll_self (ws : List String) : abbreviateAll ws ws = true := by
  induction ws with
  | nil => rfl
  | cons w ws ih => simpa [abbreviateAll] using ih

theorem exists_abbreviates_of_abbreviateAll {short full : List String}
    (hlength : short.length = full.length) (h : abbreviateAll short full = true) {s : String}
    (hs : s ∈ short) : ∃ f ∈ full, abbreviates s f = true := by
  obtain ⟨i, hi, rfl⟩ := List.mem_iff_getElem.1 hs
  have hzip : i < (short.zip full).length := by
    rw [List.length_zip]
    omega
  have hpair := List.all_eq_true.1 h _ (List.getElem_mem hzip)
  rw [List.getElem_zip] at hpair
  exact ⟨_, List.getElem_mem (hlength ▸ hi), hpair⟩

end Abbrev.Text

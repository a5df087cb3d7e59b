import Abbrev.Proofs.Conversion.Rendering
import Abbrev.Proofs.Line.Written
import Abbrev.Proofs.Resolution.Filters

/-! Typing a value as its text. Under all settings that are accepted, the text of a truth value, an
integer or an array of these needs no quotes, so that behind a command's word it is a token of its
own. It is read as the value again where the sigil is not what a token begins with, and where the
separator does the elements no harm. -/

namespace Abbrev

theorem Settings.validate_eq_ok {s s' : Settings} :
    s.validate = .ok s' ↔
      isReserved s.sigil = false ∧ isReserved s.separator = false ∧ s.sigil ≠ s.separator ∧
        1 ≤ s.maxChoices ∧ s.maxChoices ≤ mostChoices ∧ s = s' := by
  have hchar (what : String) (c : Char) : checkChar what c = .ok () ↔ isReserved c = false := by
    cases hc : isReserved c <;> simp [checkChar, hc]
  simp only [validate, bind_eq_ok, throw_bind, ite_throw_eq_ok, hchar, pure_eq_ok, exists_const]
  rw [not_or, Nat.not_lt, Nat.not_lt, and_assoc]

theorem Settings.of_isReserved_eq_false {c : Char} (h : isReserved c = false) :
    (Text.isBlank c = false ∧ Lexer.isQuote c = false) ∧ c ≠ '=' := by
  rw [isReserved] at h
  simp only [Bool.or_eq_false_iff, beq_eq_false_iff_ne] at h
  obtain ⟨⟨⟨⟨hblank, hdouble⟩, hsingle⟩, -⟩, hequals⟩ := h
  exact ⟨⟨hblank, by simp [Lexer.isQuote, hdouble, hsingle]⟩, hequals⟩

theorem Argument.isNamed_ofToken_of_not_reserved {u : String}
    (h : ∀ c ∈ u.toList, Settings.isReserved c = false) : (ofToken u).isNamed = false :=
  isNamed_ofToken_eq_false_iff.2 fun heq => absurd rfl (Settings.of_isReserved_eq_false (h _ heq)).2

namespace Line

variable {u v : String}

theorem encode_pair_of_not_reserved (hu : ∀ c ∈ u.toList, Settings.isReserved c = false)
    (hv : ∀ c ∈ v.toList, Settings.isReserved c = false) : encode [u, v] = u ++ " " ++ v :=
  encode_pair (fun c hc => (Settings.of_isReserved_eq_false (hu c hc)).1) fun c hc =>
    (Settings.of_isReserved_eq_false (hv c hc)).1

theorem length_lines_pair_le_one (hu : ∀ c ∈ u.toList, Settings.isReserved c = false)
    (hv : ∀ c ∈ v.toList, Settings.isReserved c = false) :
    (Text.lines (u ++ " " ++ v)).length ≤ 1 := by
  have hwhole (t : String) (ht : ∀ c ∈ t.toList, Settings.isReserved c = false) :
      ∀ c ∈ t.toList, Text.isLineBreak c = false := fun c hc =>
    Text.isLineBreak_eq_false (Settings.of_isReserved_eq_false (ht c hc)).1.1
  rw [← encode_pair_of_not_reserved hu hv]
  exact length_lines_encode_le_one
    (List.forall_mem_cons.2 ⟨hwhole u hu, List.forall_mem_singleton.2 (hwhole v hv)⟩)

theorem ofText_pair {sigil : Char} (hu : ∀ c ∈ u.toList, Settings.isReserved c = false)
    (hv : ∀ c ∈ v.toList, Settings.isReserved c = false) (hu' : IsToken sigil u)
    (hv' : IsToken sigil v) : ofText sigil (u ++ " " ++ v) = ⟨[u, v], false⟩ := by
  rw [← encode_pair_of_not_reserved hu hv]
  exact ofText_encode (List.forall_mem_cons.2 ⟨hu', List.forall_mem_singleton.2 hv'⟩)

end Line

/-- A word that stands for itself in a path and in a line, as every word of letters does. -/
structure IsBareWord (w : String) : Prop where
  ne_empty : w ≠ ""
  plain : Declaration.opensBrace w = false
  not_reserved : ∀ c ∈ w.toList, Settings.isReserved c = false

theorem isBareWord_set : IsBareWord "set" where
  ne_empty := by decide
  plain := by decide
  not_reserved := by simp [Settings.isReserved, Text.isBlank]

/-- A command of one word that takes one argument. -/
def Declaration.taking (w : String) (t : ParamType) : Declaration where
  path := w ++ " \x7bx\x7d"
  params := [⟨"x", t⟩]

def Template.taking (w : String) (t : ParamType) : Template :=
  .ofParts (w ++ " \x7bx\x7d") "" [⟨"x", t⟩] [.word w, .slot ⟨⟨"x", t⟩, "x", none, ""⟩]

variable {w : String} {t : ParamType} {v : Value} {s : Settings}

theorem IsBareWord.words_path (hw : IsBareWord w) (t : ParamType) :
    Text.words (Declaration.taking w t).path = [w, "\x7bx\x7d"] := by
  have hpath : (Declaration.taking w t).path.toList = w.toList ++ ' ' :: "\x7bx\x7d".toList := by
    simp [Declaration.taking]
  have hword : Text.fields Text.isBlank w.toList = [w.toList] :=
    Text.fields_eq_singleton (by simpa using hw.ne_empty) fun c hc =>
      (Settings.of_isReserved_eq_false (hw.not_reserved c hc)).1.1
  have hslot : Text.fields Text.isBlank "\x7bx\x7d".toList = ["\x7bx\x7d".toList] := by decide
  rw [Text.words, hpath, Text.fields_append_cons _ _ _ (by decide), hword, hslot]
  simp

theorem IsBareWord.build_taking (hw : IsBareWord w) (t : ParamType) :
    (Declaration.taking w t).build = .ok (.taking w t) := by
  have hwords := hw.words_path t
  have hkey : Declaration.Encloses "\x7bx\x7d" "x" := ⟨by decide, by decide⟩
  have hpath : (Declaration.taking w t).normalPath = w ++ " \x7bx\x7d" := by
    rw [Declaration.normalPath, hwords, ← String.toList_inj, String.toList_intercalate]
    simp [List.intercalate_cons_cons]
  have hbecomes : List.Forall₂ ((Declaration.taking w t).Becomes [])
      (Text.words (Declaration.taking w t).path)
      [.word w, .slot ⟨⟨"x", t⟩, "x", none, ""⟩] := by
    rw [hwords]
    exact .cons (.word hw.plain) (.cons (.slot hkey rfl) .nil)
  have hparted : (Declaration.taking w t).Parted [] [.word w, .slot ⟨⟨"x", t⟩, "x", none, ""⟩] :=
    ⟨hbecomes, by simp [Part.slot?], List.nodup_singleton _, List.nodup_singleton _⟩
  refine Declaration.build_eq_ok.2
    ⟨?_, List.nodup_singleton _, [], _, ⟨.nil, .nil⟩, hparted, ?_, ?_⟩
  · rw [hwords]
    exact List.cons_ne_nil _ _
  · rw [hpath]
    rfl
  · simp [Declaration.taking, Part.slot?]

theorem Template.bind_taking (hword : (Argument.ofToken w).isNamed = false) {u : String}
    (hu : (Argument.ofToken u).isNamed = false) {separator : Char}
    (h : t.convert separator u = .ok v) :
    (Template.taking w t).bind [w, u] separator = .ok (.ofList [("x", v)]) := by
  have hparts : (taking w t).parts = [.word w, .slot ⟨⟨"x", t⟩, "x", none, ""⟩] := rfl
  refine bind_eq_ok.2 (.inr ⟨by simp [hword, hu], bindPositional_eq_ok.2 (.inl ⟨rfl, _, ?_, rfl⟩)⟩)
  simp only [hparts, fill, Text.abbreviates_self, if_true, h]
  rfl

/-- A value of a kind typed without quotes is bound from its text, in every accepted setting, where
neither the word nor the text begins with the sigil and the separator does the elements of an array
no harm. -/
theorem resolve_rendered (hs : s.validate = .ok s) (hw : IsBareWord w) (hbare : t.element.Bare)
    (hv : v.HasType t) (hne : v ≠ .array []) (hword : w.toList.head? ≠ some s.sigil)
    (htext : (v.text s.separator).toList.head? ≠ some s.sigil)
    (hsep : v.Separable s.separator) :
    ∃ T, (Declaration.taking w t).build = .ok T ∧
      ∀ (σ : Type) (chooser : Chooser σ),
        Catalog.resolve ⟨[T]⟩ s chooser (w ++ " " ++ v.text s.separator) =
          pure (.ok (.matched ⟨0, T, .ofList [("x", v)]⟩)) := by
  obtain ⟨-, hseparator, -⟩ := Settings.validate_eq_ok.1 hs
  have htextChars : ∀ c ∈ (v.text s.separator).toList, Settings.isReserved c = false :=
    fun c hc => Value.isReserved_eq_false_of_mem_text hbare hv hseparator hc
  have hread : Line.ofText s.sigil (w ++ " " ++ v.text s.separator) =
      ⟨[w, v.text s.separator], false⟩ := by
    refine Line.ofText_pair hw.not_reserved htextChars ⟨hw.ne_empty, hword⟩ ⟨?_, htext⟩
    simpa using Value.text_ne_empty hbare hv hne
  have hwordNamed := Argument.isNamed_ofToken_of_not_reserved hw.not_reserved
  have hbind := Template.bind_taking hwordNamed
    (Argument.isNamed_ofToken_of_not_reserved htextChars) (ParamType.convert_text hbare hv hsep)
  exact ⟨_, hw.build_taking t, fun σ chooser => Catalog.resolve_alone ⟨_, hw.build_taking t⟩
    (Line.length_lines_pair_le_one hw.not_reserved htextChars) (by rw [hread]) (by rw [hread])
    hwordNamed hbind chooser⟩

/-- Two numbers, one of them behind a minus. -/
def Value.shifts : Value :=
  .array [.scalar (.int .i32 ⟨7, by decide⟩), .scalar (.int .i32 ⟨-12, by decide⟩)]

/-- A digit for the separator and a minus for the sigil: the numbers are told apart all the same,
since none has that digit and the first is without a minus. -/
theorem resolve_shifts :
    ∃ T, (Declaration.taking "set" (.many (.int .i32))).build = .ok T ∧
      ∀ (σ : Type) (chooser : Chooser σ),
        Catalog.resolve ⟨[T]⟩ ⟨'-', '0', 9⟩ chooser "set 70-12" =
          pure (.ok (.matched ⟨0, T, .ofList [("x", .shifts)]⟩)) := by
  have hseven : (Scalar.int .i32 ⟨7, by decide⟩).text = "7" := by
    simp [Scalar.text, Number.integer, Number.decimal, Number.digitChar]
  have htwelve : (Scalar.int .i32 ⟨-12, by decide⟩).text = "-12" := by
    simp [Scalar.text, Number.integer, Number.decimal, Number.digitChar]
  have htext : Value.shifts.text '0' = "70-12" := by
    simp only [Value.shifts, Value.text, Value.texts, hseven, htwelve]
    decide
  have htype : Value.shifts.HasType (.many (.int .i32)) := rfl
  have hne : Value.shifts ≠ .array [] := by simp [Value.shifts]
  have hsep : Value.shifts.Separable '0' := by
    intro x hx
    simp only [List.mem_cons, Value.scalar.injEq, List.not_mem_nil, or_false] at hx
    rcases hx with rfl | rfl
    · exact .inl (by rw [hseven]; decide)
    · exact .inl (by rw [htwelve]; decide)
  have hbare : (ParamType.many (.int .i32)).element.Bare := .int .i32
  obtain ⟨T, hbuild, hfound⟩ := resolve_rendered (s := ⟨'-', '0', 9⟩) rfl isBareWord_set hbare htype
    hne (by decide) (by rw [htext]; decide) hsep
  rw [htext] at hfound
  exact ⟨T, hbuild, hfound⟩

/-- With a minus for the sigil, a negative number is taken for a flag. -/
theorem resolve_negative_flag :
    ({ sigil := '-' } : Settings).validate = .ok { sigil := '-' } ∧ IsBareWord "set" ∧
      Value.HasType (.scalar (.int .i32 ⟨-5, by decide⟩)) (.one (.int .i32)) ∧
      (Declaration.taking "set" (.one (.int .i32))).build =
        .ok (.taking "set" (.one (.int .i32))) ∧
      Value.text ',' (.scalar (.int .i32 ⟨-5, by decide⟩)) = "-5" ∧
      ∀ (σ : Type) (chooser : Chooser σ),
        Catalog.resolve ⟨[.taking "set" (.one (.int .i32))]⟩ { sigil := '-' } chooser "set -5" =
          pure (.error (.commandNotFound "set -5")) := by
  have htext : Value.text ',' (.scalar (.int .i32 ⟨-5, by decide⟩)) = "-5" := by
    simp [Value.text, Scalar.text, Number.integer, Number.decimal, Number.digitChar]
  exact ⟨rfl, isBareWord_set, rfl, isBareWord_set.build_taking _, htext, fun _ _ => rfl⟩

end Abbrev

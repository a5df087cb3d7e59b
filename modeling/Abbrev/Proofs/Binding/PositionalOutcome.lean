import Abbrev.Proofs.Binding.Defaults
import Abbrev.Proofs.Failing

/-! What binding by place comes to, for any tokens whatever. With a token for each part it succeeds
exactly when each part takes the token at its place, and else the first part that does not is the
reason. With fewer tokens it succeeds exactly when they are the words of the path and each slot, of
which there is one at least, has a default; wherever the slots stand between the words, it is the
words alone that the tokens are compared with. -/

namespace Abbrev

namespace Part

/-- A word takes what abbreviates it, a slot what converts to its type. -/
def Takes (separator : Char) : Part → String → Prop
  | word w, token => Text.abbreviates token w = true
  | slot s, token => ∃ v, s.param.type.convert separator token = .ok v

/-- What is said of a part that does not take its token. -/
def refusal : Part → Rejection
  | word _ => .silent .word
  | slot s => .report (.incorrectArgumentType s.name s.param.type)

end Part

namespace Template

variable {t : Template} {separator : Char} {tokens : List String} {b : Binding} {r : Rejection}

/-- One part more: its token is taken and the rest is filled. -/
theorem exists_fill_cons_iff {part : Part} {parts : List Part} {token : String} :
    (∃ es, fill separator (part :: parts) (token :: tokens) = .ok es) ↔
      part.Takes separator token ∧ ∃ es, fill separator parts tokens = .ok es := by
  cases part with
  | word w =>
    by_cases hw : Text.abbreviates token w = true <;> simp [fill, Part.Takes, hw]
  | slot s =>
    cases hconvert : s.param.type.convert separator token with
    | error f => simp [fill, Part.Takes, hconvert]
    | ok v => simp [fill, Part.Takes, hconvert, Abbrev.bind_eq_ok, -bind_pure_comp]

theorem fill_cons_eq_error_iff {part : Part} {parts : List Part} {token : String} :
    fill separator (part :: parts) (token :: tokens) = .error r ↔
      ¬ part.Takes separator token ∧ r = part.refusal ∨
        part.Takes separator token ∧ fill separator parts tokens = .error r := by
  cases part with
  | word w =>
    by_cases hw : Text.abbreviates token w = true <;>
      simp [fill, Part.Takes, Part.refusal, hw, eq_comm]
  | slot s =>
    cases hconvert : s.param.type.convert separator token with
    | error f => simp [fill, Part.Takes, Part.refusal, hconvert, eq_comm]
    | ok v => simp [fill, Part.Takes, hconvert, bind_eq_error, -bind_pure_comp]

theorem exists_fill_iff {parts : List Part} (hlength : parts.length = tokens.length) :
    (∃ es, fill separator parts tokens = .ok es) ↔
      List.Forall₂ (Part.Takes separator) parts tokens := by
  induction parts generalizing tokens with
  | nil =>
    obtain rfl : tokens = [] := List.eq_nil_of_length_eq_zero hlength.symm
    simp [fill]
  | cons part parts ih =>
    obtain _ | ⟨token, tokens⟩ := tokens
    · cases hlength
    · rw [exists_fill_cons_iff, ih (Nat.succ.inj hlength), List.forall₂_cons]

/-- Filling stops at the first part that does not take its token. -/
theorem fill_eq_error_iff {parts : List Part} (hlength : parts.length = tokens.length) :
    fill separator parts tokens = .error r ↔ ∃ pre part post seen token rest,
      parts = pre ++ part :: post ∧ tokens = seen ++ token :: rest ∧
        List.Forall₂ (Part.Takes separator) pre seen ∧ ¬ part.Takes separator token ∧
        r = part.refusal := by
  constructor
  · intro h
    induction parts generalizing tokens with
    | nil => cases h
    | cons part parts ih =>
      obtain _ | ⟨token, tokens⟩ := tokens
      · cases hlength
      · obtain ⟨hrefuses, rfl⟩ | ⟨htakes, hrest⟩ := fill_cons_eq_error_iff.1 h
        · exact ⟨[], part, parts, [], token, tokens, rfl, rfl, .nil, hrefuses, rfl⟩
        · obtain ⟨pre, part', post, seen, token', rest, rfl, rfl, hpre, hrefuses, rfl⟩ :=
            ih (Nat.succ.inj hlength) hrest
          exact ⟨part :: pre, part', post, token :: seen, token', rest, rfl, rfl,
            .cons htakes hpre, hrefuses, rfl⟩
  · rintro ⟨pre, part, post, seen, token, rest, rfl, rfl, hpre, hrefuses, rfl⟩
    clear hlength
    induction hpre with
    | nil => exact fill_cons_eq_error_iff.2 (.inl ⟨hrefuses, rfl⟩)
    | cons htakes _ ih => exact fill_cons_eq_error_iff.2 (.inr ⟨htakes, ih⟩)

theorem placedIn_cons_iff {part : Part} {parts : List Part} {token : String} {s : Slot}
    {v : Value} :
    PlacedIn separator (part :: parts) (token :: tokens) s v ↔
      (part = .slot s ∧ s.param.type.convert separator token = .ok v) ∨
        PlacedIn separator parts tokens s v := by
  unfold PlacedIn
  simp only [List.zip_cons_cons, List.mem_cons, Prod.mk.injEq]
  grind

theorem PlacedIn.mem {parts : List Part} {s : Slot} {v : Value}
    (h : PlacedIn separator parts tokens s v) : s ∈ parts.filterMap Part.slot? := by
  obtain ⟨token, hmem, -⟩ := h
  exact List.mem_filterMap.2 ⟨.slot s, (List.of_mem_zip hmem).1, rfl⟩

/-- A slot stands at one place only, so it gets one value only. -/
theorem PlacedIn.unique {parts : List Part}
    (hnodup : ((parts.filterMap Part.slot?).map (·.param.name)).Nodup) {s : Slot} {v w : Value}
    (hv : PlacedIn separator parts tokens s v) (hw : PlacedIn separator parts tokens s w) :
    v = w := by
  induction parts generalizing tokens with
  | nil => exact absurd hv.mem List.not_mem_nil
  | cons part parts ih =>
    obtain _ | ⟨token, tokens⟩ := tokens
    · obtain ⟨x, hx, -⟩ := hv
      cases hx
    · have htail : ((parts.filterMap Part.slot?).map (·.param.name)).Nodup :=
        hnodup.sublist (((List.sublist_cons_self part parts).filterMap _).map _)
      have hfresh : part = .slot s → s ∉ parts.filterMap Part.slot? := by
        rintro rfl hmem
        exact (List.nodup_cons.1 hnodup).1 (List.mem_map_of_mem hmem)
      rcases placedIn_cons_iff.1 hv with ⟨hpart, hv⟩ | hv <;>
        rcases placedIn_cons_iff.1 hw with ⟨hpart', hw⟩ | hw
      · exact Except.ok.inj (hv.symm.trans hw)
      · exact absurd hw.mem (hfresh hpart)
      · exact absurd hv.mem (hfresh hpart')
      · exact ih htail hv hw

/-- A token for each part that it takes. -/
def Fits (t : Template) (tokens : List String) (separator : Char) : Prop :=
  List.Forall₂ (Part.Takes separator) t.parts tokens

/-- A slot at least, and a default for each. -/
structure AllOptional (t : Template) : Prop where
  params_ne_nil : t.params ≠ []
  defaults : ∀ s ∈ t.slots, s.default.isSome = true

/-- Why a template refuses tokens by place: the first part that does not take its token when there
is one for each part, and otherwise a word or the count. -/
inductive RefusesByPlace (t : Template) (tokens : List String) (separator : Char) : Rejection → Prop
  | part {pre post : List Part} {part : Part} {seen rest : List String} {token : String}
    (hcount : tokens.length = t.parts.length) (hparts : t.parts = pre ++ part :: post)
    (htokens : tokens = seen ++ token :: rest) (hpre : List.Forall₂ (Part.Takes separator) pre seen)
    (hpart : ¬ part.Takes separator token) : RefusesByPlace t tokens separator part.refusal
  | word (hcount : tokens.length ≠ t.parts.length) (hoptional : t.AllOptional)
    (hwords : tokens.length = t.words.length) (hword : ¬ t.Typed tokens) :
    RefusesByPlace t tokens separator (.silent .word)
  | count (hcount : tokens.length ≠ t.parts.length)
    (hother : ¬ (t.AllOptional ∧ tokens.length = t.words.length)) :
    RefusesByPlace t tokens separator (.silent .argumentCount)

theorem AllOptional.words_lt (ht : t.WellFormed) (h : t.AllOptional) :
    t.words.length < t.parts.length := by
  have hparts := ht.length_words_add_length_slots
  have hslots := ht.length_slots
  have hpos : 0 < t.params.length := List.length_pos_of_ne_nil h.params_ne_nil
  omega

/-- The count of the defaults leaves the words of the path when each slot has one. -/
theorem WellFormed.relaxed_iff (ht : t.WellFormed) (hcount : tokens.length ≠ t.parts.length) :
    (t.allDefaults && t.parts.length - t.defaultCount == tokens.length) = true ↔
      t.AllOptional ∧ tokens.length = t.words.length := by
  have hparts := ht.length_words_add_length_slots
  have hslots := ht.length_slots
  rw [Bool.and_eq_true, beq_iff_eq, ht.allDefaults_iff]
  constructor
  · rintro ⟨hall, hrest⟩
    have hdefaults := ht.defaultCount_eq_length hall
    refine ⟨⟨fun hnil => ?_, hall⟩, by omega⟩
    rw [hnil, List.length_nil] at hslots
    omega
  · rintro ⟨hoptional, hwords⟩
    have hdefaults := ht.defaultCount_eq_length hoptional.defaults
    exact ⟨hoptional.defaults, by omega⟩

/-- With a token for each part. -/
theorem bindPositional_of_length_eq (hcount : tokens.length = t.parts.length) :
    t.bindPositional tokens separator = (fill separator t.parts tokens).map Binding.ofList := by
  unfold bindPositional
  rw [if_pos hcount.symm]

/-- With the words alone. -/
theorem bindPositional_of_words (ht : t.WellFormed) (hoptional : t.AllOptional)
    (hwords : tokens.length = t.words.length) :
    t.bindPositional tokens separator =
      if Text.abbreviateAll tokens t.words then .ok (Binding.ofList t.defaults)
      else .error (.silent .word) := by
  have hcount : tokens.length ≠ t.parts.length := hwords ▸ Nat.ne_of_lt (hoptional.words_lt ht)
  unfold bindPositional
  rw [if_neg hcount.symm, if_pos ((ht.relaxed_iff hcount).2 ⟨hoptional, hwords⟩)]

theorem bindPositional_of_count (ht : t.WellFormed) (hcount : tokens.length ≠ t.parts.length)
    (hother : ¬ (t.AllOptional ∧ tokens.length = t.words.length)) :
    t.bindPositional tokens separator = .error (.silent .argumentCount) := by
  unfold bindPositional
  rw [if_neg hcount.symm, if_neg (mt (ht.relaxed_iff hcount).1 hother)]

theorem Fits.length_eq (h : t.Fits tokens separator) : tokens.length = t.parts.length :=
  (List.Forall₂.length_eq h).symm

/-- The words alone are too few for the parts. -/
theorem AllOptional.length_ne (ht : t.WellFormed) (h : t.AllOptional) (hwords : t.Typed tokens) :
    tokens.length ≠ t.parts.length := by
  have hlt := h.words_lt ht
  have hlength := (typed_iff.1 hwords).1
  omega

theorem exists_bindPositional_iff (ht : t.WellFormed) :
    (∃ b, t.bindPositional tokens separator = .ok b) ↔
      t.Fits tokens separator ∨ (t.AllOptional ∧ t.Typed tokens) := by
  by_cases hcount : tokens.length = t.parts.length
  · have hwords : ¬ (t.AllOptional ∧ t.Typed tokens) := fun h => h.1.length_ne ht h.2 hcount
    rw [bindPositional_of_length_eq hcount, or_iff_left hwords, Fits,
      ← exists_fill_iff hcount.symm]
    simp only [map_eq_ok]
    constructor
    · rintro ⟨b, es, hes, -⟩
      exact ⟨es, hes⟩
    · rintro ⟨es, hes⟩
      exact ⟨_, es, hes, rfl⟩
  · rw [or_iff_right (mt Fits.length_eq hcount)]
    by_cases hoptional : t.AllOptional ∧ tokens.length = t.words.length
    · rw [bindPositional_of_words ht hoptional.1 hoptional.2, typed_iff]
      by_cases hwords : Text.abbreviateAll tokens t.words = true <;> simp [hwords, hoptional]
    · rw [bindPositional_of_count ht hcount hoptional]
      constructor
      · rintro ⟨b, ⟨⟩⟩
      · rintro ⟨h, hwords⟩
        exact absurd ⟨h, (typed_iff.1 hwords).1⟩ hoptional

theorem assigns_of_bindPositional (ht : t.WellFormed)
    (h : t.bindPositional tokens separator = .ok b) :
    (t.Fits tokens separator ∧ b.Assigns t (PlacedIn separator t.parts tokens)) ∨
      (t.AllOptional ∧ t.Typed tokens ∧ b.Assigns t fun s v => s.default = some v) := by
  rcases (exists_bindPositional_iff ht).1 ⟨b, h⟩ with hfits | ⟨hoptional, hwords⟩
  · rw [bindPositional_of_length_eq hfits.length_eq, map_eq_ok] at h
    obtain ⟨es, hes, rfl⟩ := h
    have hplaced := placed_of_fill hfits.length_eq.symm hes
    rw [← ht.slots_eq] at hplaced
    exact .inl ⟨hfits, Binding.assigns_ofList ht hplaced⟩
  · obtain ⟨hlength, hall⟩ := typed_iff.1 hwords
    rw [bindPositional_of_words ht hoptional hlength, if_pos hall, Except.ok.injEq] at h
    rw [← h]
    exact .inr ⟨hoptional, hwords, Binding.assigns_ofList ht (forall₂_defaults hoptional.defaults)⟩

theorem bindPositional_eq_error_iff (ht : t.WellFormed) :
    t.bindPositional tokens separator = .error r ↔ t.RefusesByPlace tokens separator r := by
  by_cases hcount : tokens.length = t.parts.length
  · rw [bindPositional_of_length_eq hcount, map_eq_error, fill_eq_error_iff hcount.symm]
    constructor
    · rintro ⟨pre, part, post, seen, token, rest, hparts, htokens, hpre, hpart, rfl⟩
      exact .part hcount hparts htokens hpre hpart
    · intro h
      cases h with
      | part _ hparts htokens hpre hpart =>
        exact ⟨_, _, _, _, _, _, hparts, htokens, hpre, hpart, rfl⟩
      | word hne | count hne => exact absurd hcount hne
  · by_cases hoptional : t.AllOptional ∧ tokens.length = t.words.length
    · rw [bindPositional_of_words ht hoptional.1 hoptional.2]
      constructor
      · intro h
        split at h
        · cases h
        · rename_i hwords
          cases h
          exact .word hcount hoptional.1 hoptional.2 fun htyped => hwords (typed_iff.1 htyped).2
      · intro h
        cases h with
        | part heq => exact absurd heq hcount
        | word _ _ hlength hword =>
          exact if_neg fun hall => hword (typed_iff.2 ⟨hlength, hall⟩)
        | count _ hother => exact absurd hoptional hother
    · rw [bindPositional_of_count ht hcount hoptional, Except.error.injEq]
      constructor
      · rintro rfl
        exact .count hcount hoptional
      · intro h
        cases h with
        | part heq => exact absurd heq hcount
        | word _ h hlength => exact absurd ⟨h, hlength⟩ hoptional
        | count => rfl

/-- Binding by place gives each parameter the value of its token when each part takes the token at
its place, or its default when the tokens are the words alone; everything else is refused, with as
many tokens as parts for the first part that does not take its token. -/
theorem bindPositional_outcome (ht : t.Built) (tokens : List String) (separator : Char) :
    ((∃ b, t.bindPositional tokens separator = .ok b) ↔
        t.Fits tokens separator ∨ (t.AllOptional ∧ t.Typed tokens)) ∧
      (∀ b, t.bindPositional tokens separator = .ok b ↔
        (t.Fits tokens separator ∧ b.Assigns t (PlacedIn separator t.parts tokens)) ∨
          (t.AllOptional ∧ t.Typed tokens ∧ b.Assigns t fun s v => s.default = some v)) ∧
      ∀ r, t.bindPositional tokens separator = .error r ↔ t.RefusesByPlace tokens separator r := by
  have hexists : (∃ b, t.bindPositional tokens separator = .ok b) ↔
      t.Fits tokens separator ∨ (t.AllOptional ∧ t.Typed tokens) :=
    exists_bindPositional_iff ht.wellFormed
  refine ⟨hexists, fun b => ⟨assigns_of_bindPositional ht.wellFormed, ?_⟩,
    fun r => bindPositional_eq_error_iff ht.wellFormed⟩
  rintro (⟨hfits, hb⟩ | ⟨hoptional, hwords, hb⟩)
  · obtain ⟨b', hb'⟩ := hexists.2 (.inl hfits)
    rcases assigns_of_bindPositional ht.wellFormed hb' with ⟨-, hassigns⟩ | ⟨hoptional, hwords, -⟩
    · rw [hb', hb.unique ht.wellFormed hassigns fun s _ v w =>
        PlacedIn.unique (ht.wellFormed.slots_eq ▸ ht.wellFormed.slotParamNames_nodup)]
    · exact absurd hfits.length_eq (hoptional.length_ne ht.wellFormed hwords)
  · obtain ⟨b', hb'⟩ := hexists.2 (.inr ⟨hoptional, hwords⟩)
    rcases assigns_of_bindPositional ht.wellFormed hb' with ⟨hfits, -⟩ | ⟨-, -, hassigns⟩
    · exact absurd hfits.length_eq (hoptional.length_ne ht.wellFormed hwords)
    · rw [hb', hb.unique ht.wellFormed hassigns fun s _ v w hv hw =>
        Option.some.inj (hv.symm.trans hw)]

end Template

/-- A command with a slot between its words. -/
def Declaration.showPage : Declaration where
  path := "page \x7bnumber\x7d show"
  params := [⟨"number", .one (.int .u32)⟩]
  options := [⟨"number", none, some "3", none⟩]

namespace Template

def showPage : Template :=
  .ofParts "page \x7bnumber\x7d show" "" [⟨"number", .one (.int .u32)⟩]
    [.word "page",
      .slot ⟨⟨"number", .one (.int .u32)⟩, "number", some (.scalar (.int .u32 ⟨3, by decide⟩)), ""⟩,
      .word "show"]

theorem built_showPage : showPage.Built :=
  ⟨.showPage, Declaration.build_of_laid (by decide) rfl (by decide) (by decide) rfl rfl rfl rfl⟩

/-- The second of two tokens is the second word, the second of three is the number, which is told
before the last word is looked at. -/
theorem bindPositional_outcome_showPage :
    showPage.Built ∧
      showPage.bindPositional ["p", "sh"] ',' =
        .ok (.ofList [("number", .scalar (.int .u32 ⟨3, by decide⟩))]) ∧
      showPage.bindPositional ["p", "sh", "hide"] ',' =
        .error (.report (.incorrectArgumentType "number" (.one (.int .u32)))) := by
  obtain ⟨-, hok, -⟩ := bindPositional_outcome built_showPage ["p", "sh"] ','
  obtain ⟨-, -, herror⟩ := bindPositional_outcome built_showPage ["p", "sh", "hide"] ','
  have htyped : showPage.Typed ["p", "sh"] := .cons (by decide) (.cons (by decide) .nil)
  have hassigns : (Binding.ofList [("number", .scalar (.int .u32 ⟨3, by decide⟩))]).Assigns showPage
      fun s v => s.default = some v :=
    Binding.assigns_ofList built_showPage.wellFormed (.cons ⟨rfl, rfl⟩ .nil)
  have hparts : showPage.parts = [.word "page"] ++ showPage.parts[1] :: [.word "show"] := rfl
  have hword : Text.abbreviates "p" "page" = true := by decide
  have hpart : ¬ showPage.parts[1].Takes ',' "sh" := by
    rintro ⟨v, hv⟩
    cases hv
  refine ⟨built_showPage, (hok _).2 (.inr ⟨⟨by decide, by decide⟩, htyped, hassigns⟩), ?_⟩
  exact (herror _).2 (.part rfl hparts rfl (.cons hword .nil) hpart)

end Template

end Abbrev

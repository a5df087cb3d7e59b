import Abbrev.Proofs.Binding.Distribution
import Abbrev.Proofs.Binding.Positional

/-! Binding by place and binding by name agree. Typing a text in the place of each slot, among the
words of the path, binds as naming each slot by a key of its own does, in whatever order and place
the named arguments stand among the words. -/

namespace Abbrev

theorem pairwise_of_forall₂ {α β : Type} {R : α → β → Prop} {P : α → α → Prop} {Q : β → β → Prop}
    (himp : ∀ {a c b e}, P a c → R a b → R c e → Q b e) {xs : List α} {ys : List β}
    (h : List.Forall₂ R xs ys) (hxs : xs.Pairwise P) : ys.Pairwise Q := by
  induction h with
  | nil => exact .nil
  | cons hab hrest ih =>
    obtain ⟨hfirst, htail⟩ := List.pairwise_cons.1 hxs
    refine List.pairwise_cons.2 ⟨fun e he => ?_, ih htail⟩
    obtain ⟨c, hc, hce⟩ := exists_of_forall₂ hrest.flip he
    exact himp (hfirst c hc) hab hce

namespace Supply

/-- Slots with a text for each. -/
def ofTexts (slots : List Slot) (texts : List String) : List Supply :=
  slots.zipWith (fun s text => (s, some text)) texts

theorem forall₂_ofTexts {R : Slot → String × String → Prop} {slots : List Slot}
    {given : List (String × String)} (h : List.Forall₂ R slots given) :
    List.Forall₂ (fun s u => ∃ g ∈ given, R s g ∧ u = (s, some g.2)) slots
      (ofTexts slots (given.map (·.2))) := by
  induction h with
  | nil => exact .nil
  | @cons s g slots given hsg _ ih =>
    refine .cons ⟨g, List.mem_cons_self, hsg, rfl⟩ (ih.imp ?_)
    rintro s' u ⟨g', hg', hu⟩
    exact ⟨g', List.mem_cons_of_mem g hg', hu⟩

end Supply

namespace Template

variable {t : Template} {separator : Char}

/-- Words and texts in the places of the parts. -/
def weave : List Part → List String → List String → List String
  | .word _ :: parts, w :: ws, texts => w :: weave parts ws texts
  | .slot _ :: parts, ws, text :: texts => text :: weave parts ws texts
  | _, _, _ => []

theorem length_weave {parts : List Part} {ws texts : List String}
    (hws : ws.length = (parts.filterMap Part.word?).length)
    (htexts : texts.length = (parts.filterMap Part.slot?).length) :
    (weave parts ws texts).length = parts.length := by
  induction parts generalizing ws texts with
  | nil => rfl
  | cons part parts ih =>
    cases part with
    | word w =>
      obtain _ | ⟨w', ws⟩ := ws
      · cases hws
      · rw [weave, List.length_cons, List.length_cons,
          ih (Nat.succ.inj hws) htexts]
    | slot s =>
      obtain _ | ⟨text, texts⟩ := texts
      · cases htexts
      · rw [weave, List.length_cons, List.length_cons, ih hws (Nat.succ.inj htexts)]

theorem weave_perm {parts : List Part} {ws texts : List String}
    (hws : ws.length = (parts.filterMap Part.word?).length)
    (htexts : texts.length = (parts.filterMap Part.slot?).length) :
    (weave parts ws texts).Perm (ws ++ texts) := by
  induction parts generalizing ws texts with
  | nil =>
    obtain rfl : ws = [] := List.eq_nil_of_length_eq_zero hws
    obtain rfl : texts = [] := List.eq_nil_of_length_eq_zero htexts
    exact .nil
  | cons part parts ih =>
    cases part with
    | word w =>
      obtain _ | ⟨w', ws⟩ := ws
      · cases hws
      · exact (ih (Nat.succ.inj hws) htexts).cons w'
    | slot s =>
      obtain _ | ⟨text, texts⟩ := texts
      · cases htexts
      · exact ((ih hws (Nat.succ.inj htexts)).cons text).trans List.perm_middle.symm

/-- Filling the parts checks the words and gives each slot the value of its text. -/
theorem fill_weave_eq_ok {parts : List Part} {ws texts : List String} {es : List (String × Value)}
    (hws : ws.length = (parts.filterMap Part.word?).length)
    (htexts : texts.length = (parts.filterMap Part.slot?).length) :
    fill separator parts (weave parts ws texts) = .ok es ↔
      Text.abbreviateAll ws (parts.filterMap Part.word?) = true ∧
        (Supply.ofTexts (parts.filterMap Part.slot?) texts).mapM (Supply.value separator) =
          .ok es := by
  induction parts generalizing ws texts es with
  | nil =>
    obtain rfl : ws = [] := List.eq_nil_of_length_eq_zero hws
    simp [fill, Text.abbreviateAll, Supply.ofTexts, pure, Except.pure]
  | cons part parts ih =>
    cases part with
    | word w =>
      obtain _ | ⟨w', ws⟩ := ws
      · cases hws
      · simp only [List.filterMap_cons, Part.word?, Part.slot?, weave, fill] at hws htexts ⊢
        rw [Text.abbreviateAll, List.zip_cons_cons, List.all_cons, ← Text.abbreviateAll]
        by_cases hw : Text.abbreviates w' w = true
        · simp only [hw, if_true, Bool.true_and]
          exact ih (Nat.succ.inj hws) htexts
        · simp [hw]
    | slot s =>
      obtain _ | ⟨text, texts⟩ := texts
      · cases htexts
      · have hrest (rest : List (String × Value)) :
            fill separator parts (weave parts ws texts) = .ok rest ↔ _ :=
          ih hws (Nat.succ.inj htexts)
        simp only [List.filterMap_cons, Part.word?, Part.slot?, weave, fill]
        rw [Supply.ofTexts, List.zipWith_cons_cons, ← Supply.ofTexts, List.mapM_cons]
        cases hconvert : s.param.type.convert separator text with
        | error f =>
          simp only [Supply.value, hconvert, bind_eq_ok, reduceCtorEq, false_and, exists_false,
            and_false]
        | ok v =>
          simp only [Supply.value, hconvert, bind_eq_ok, pure_eq_ok, hrest]
          constructor
          · rintro ⟨rest, ⟨hwords, hvalues⟩, rfl⟩
            exact ⟨hwords, _, rfl, rest, hvalues, rfl⟩
          · rintro ⟨hwords, _, ⟨⟩, rest, hvalues, rfl⟩
            exact ⟨rest, ⟨hwords, hvalues⟩, rfl⟩

/-- A key that abbreviates the name of one slot and no other name. -/
def Selects (t : Template) (s : Slot) (key : String) : Prop :=
  Text.abbreviates key s.name = true ∧
    ∀ u ∈ t.slots, Text.abbreviates key u.name = true → u.name = s.name

theorem Selects.countP_eq_one (hnames : (t.slots.map (·.name)).Nodup) {s : Slot} {key : String}
    (hs : s ∈ t.slots) (h : t.Selects s key) :
    t.slots.countP (fun u => Text.abbreviates key u.name) = 1 := by
  obtain ⟨pre, post, hslots⟩ := List.append_of_mem hs
  obtain ⟨hself, hothers⟩ := h
  rw [hslots] at hothers hnames ⊢
  rw [List.map_append, List.map_cons, List.nodup_middle, List.nodup_cons, List.mem_append] at hnames
  have hzero : ∀ us : List Slot, (∀ u ∈ us, u ∈ pre ++ s :: post) → s.name ∉ us.map (·.name) →
      us.countP (fun u => Text.abbreviates key u.name) = 0 := by
    intro us hus hfresh
    refine List.countP_eq_zero.2 fun u hu hkey => hfresh ?_
    exact hothers u (hus u hu) hkey ▸ List.mem_map_of_mem hu
  have hpre := hzero pre (fun u hu => List.mem_append_left _ hu) fun h => hnames.1 (.inl h)
  have hpost := hzero post (fun u hu => List.mem_append_right _ (List.mem_cons_of_mem s hu))
    fun h => hnames.1 (.inr h)
  rw [List.countP_append, List.countP_cons, hpre, hpost, if_pos hself]

/-- Keys of their own distribute the texts in the order of the slots. -/
theorem distributes_ofTexts (hnames : (t.slots.map (·.name)).Nodup)
    {given : List (String × String)}
    (h : List.Forall₂ (fun s g => t.Selects s g.1) t.slots given) :
    Supply.Distributes t.slots given (Supply.ofTexts t.slots (given.map (·.2))) := by
  have hapart : given.Pairwise fun g e => ∀ s ∈ t.slots,
      ¬ (Text.abbreviates g.1 s.name = true ∧ Text.abbreviates e.1 s.name = true) := by
    refine pairwise_of_forall₂ ?_ h (List.pairwise_map.1 hnames)
    intro s u g e hne hg he v hv hboth
    exact hne ((hg.2 v hv hboth.1).symm.trans (he.2 v hv hboth.2))
  have hunique : ∀ g ∈ given, ∀ e ∈ given, ∀ s ∈ t.slots,
      Text.abbreviates g.1 s.name = true → Text.abbreviates e.1 s.name = true → g = e := by
    refine List.Pairwise.forall_of_forall_of_flip (fun _ _ _ _ _ _ => rfl) ?_ ?_
    · exact hapart.imp fun hge s hs hg he => absurd ⟨hg, he⟩ (hge s hs)
    · exact hapart.imp fun hge s hs he hg => absurd ⟨hg, he⟩ (hge s hs)
  refine ⟨fun g hg => ?_, hapart, ?_⟩
  · obtain ⟨s, hs, hselects⟩ := exists_of_forall₂ h.flip hg
    exact Selects.countP_eq_one hnames hs hselects
  · refine ((List.forall₂_and_left _ _).2 ⟨fun _ => id, Supply.forall₂_ofTexts h⟩).imp ?_
    rintro s u ⟨hs, g, hg, hselects, rfl⟩
    refine ⟨rfl, fun text => ⟨?_, ?_⟩⟩
    · rintro ⟨⟩
      exact ⟨g.1, hg, hselects.1⟩
    · rintro ⟨key, hkey, habbreviates⟩
      rw [hunique g hg (key, text) hkey s hs hselects.1 habbreviates]

/-- A text in the place of each slot binds exactly as the same text under a key that selects the
slot does, in any arrangement that keeps the words in order. -/
theorem bindPositional_weave_iff_bindNamed (ht : t.Built) {ws : List String}
    (hws : ws.length = t.words.length) {given : List (String × String)}
    (hkeys : List.Forall₂ (fun s g => t.Selects s g.1) t.slots given) {args : List Argument}
    (hpositional : args.filterMap Argument.positional? = ws)
    (hnamed : (args.filterMap Argument.named?).Perm given) (separator : Char) (b : Binding) :
    t.bindPositional (weave t.parts ws (given.map (·.2))) separator = .ok b ↔
      t.bindNamed args separator = .ok b := by
  have hslots := ht.wellFormed.slots_eq
  have htexts : (given.map (·.2)).length = (t.parts.filterMap Part.slot?).length := by
    rw [← hslots, List.length_map, hkeys.length_eq]
  have hlength : t.parts.length = (weave t.parts ws (given.map (·.2))).length :=
    (length_weave hws htexts).symm
  have hd := distributes_ofTexts ht.wellFormed.slotNames_nodup hkeys
  have hplace : t.bindPositional (weave t.parts ws (given.map (·.2))) separator = .ok b ↔
      ∃ es, fill separator t.parts (weave t.parts ws (given.map (·.2))) = .ok es ∧
        Binding.ofList es = b := by
    rw [bindPositional_eq_ok]
    simp only [hlength, true_and, ne_eq, not_true_eq_false, false_and, or_false]
  rw [hplace, bindNamed_iff_distributes, ht.wellFormed.wordCount_eq, hpositional]
  simp only [Supply.distributes_perm_iff hnamed, fill_weave_eq_ok hws htexts, ← hslots]
  constructor
  · rintro ⟨es, ⟨hwords, hvalues⟩, hb⟩
    exact ⟨hws, hwords, _, es, hd, hvalues, hb⟩
  · rintro ⟨-, hwords, supplies, es, hd', hvalues, hb⟩
    rw [hd'.unique hd] at hvalues
    exact ⟨es, ⟨hwords, hvalues⟩, hb⟩

/-- Naming the arguments of a command backwards, in front of and between its words. -/
theorem bindNamed_findUser :
    findUser.bindNamed [.named "a" "30", .positional "u", .named "n" "Bob", .positional "f"] ',' =
      .ok (.ofList [("name", .scalar (.string "Bob")),
        ("age", .scalar (.int .i32 ⟨30, by decide⟩))]) := by
  have hkeys : List.Forall₂ (fun s g => findUser.Selects s g.1) findUser.slots
      [("n", "Bob"), ("a", "30")] := by
    refine .cons ⟨by decide, ?_⟩ (.cons ⟨by decide, ?_⟩ .nil) <;> decide
  have hnamed : [("a", "30"), ("n", "Bob")].Perm [("n", "Bob"), ("a", "30")] := .swap _ _ _
  have hplace : findUser.bindPositional ["u", "f", "Bob", "30"] ',' =
      .ok (.ofList [("name", .scalar (.string "Bob")),
        ("age", .scalar (.int .i32 ⟨30, by decide⟩))]) := rfl
  exact (@bindPositional_weave_iff_bindNamed findUser built_findUser ["u", "f"] rfl _ hkeys
    [.named "a" "30", .positional "u", .named "n" "Bob", .positional "f"] rfl hnamed ',' _).1 hplace

end Template

end Abbrev

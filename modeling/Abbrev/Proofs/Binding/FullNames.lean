import Abbrev.Proofs.Binding.Complete
import Abbrev.Proofs.Binding.NamedOutcome

/-! Naming options in full. Two slots never have one name, but the name of one may begin the name of
another, and then it is no less ambiguous as a key than any other beginning of both. A full name
always works where no other name goes on from it, and the call that names every slot in full
succeeds exactly where this holds of all of them. -/

namespace Abbrev

theorem Argument.ofToken_named {name : String} (hne : name ≠ "") (hequals : '=' ∉ name.toList)
    (text : String) : ofToken (name ++ "=" ++ text) = .named name text := by
  have hall : ∀ c ∈ name.toList, (c != '=') = true := fun c hc =>
    bne_iff_ne.2 fun heq => hequals (heq ▸ hc)
  have htoken : (name ++ "=" ++ text).toList = name.toList ++ '=' :: text.toList := by simp
  rw [ofToken, List.span_eq_takeWhile_dropWhile, htoken, List.takeWhile_append_of_pos hall,
    List.dropWhile_append_of_pos hall]
  obtain ⟨c, cs, hname⟩ := List.exists_cons_of_ne_nil (mt String.toList_eq_nil_iff.1 hne)
  have hback : String.ofList (c :: cs) = name := by rw [← hname, String.ofList_toList]
  simp [hname, hback]

namespace Template

variable {t : Template} {s : Slot} {args : List Argument} {separator : Char} {b : Binding}
  {given : List (Slot × String)}

/-- The name of another slot goes on from the name of this one. -/
def Extended (t : Template) (s : Slot) : Prop :=
  ∃ u ∈ t.slots, u.name ≠ s.name ∧ Text.abbreviates s.name u.name = true

instance (t : Template) (s : Slot) : Decidable (t.Extended s) :=
  inferInstanceAs (Decidable (∃ u ∈ t.slots, u.name ≠ s.name ∧ _))

theorem selects_name_iff : t.Selects s s.name ↔ ¬ t.Extended s := by
  unfold Selects Extended
  simp only [Text.abbreviates_self, true_and]
  grind

/-- The words of the path, and each slot under its full name, in any order, with a text that
converts. -/
structure CallsInFull (t : Template) (args : List Argument) (separator : Char)
    (given : List (Slot × String)) : Prop where
  words : args.filterMap Argument.positional? = t.words
  named : args.filterMap Argument.named? = given.map fun g => (g.1.name, g.2)
  slots_perm : (given.map (·.1)).Perm t.slots
  converts : ∀ g ∈ given, ∃ v, g.1.param.type.convert separator g.2 = .ok v

theorem typed_words : t.Typed t.words :=
  typed_iff.2 ⟨rfl, Text.abbreviateAll_self t.words⟩

/-- Full names of several slots are keys for them where no other name goes on from any. -/
theorem keysFit_names (hmem : ∀ g ∈ given, g.1 ∈ t.slots)
    (hnodup : (given.map (·.1.name)).Nodup) (hnone : ∀ g ∈ given, ¬ t.Extended g.1) :
    t.KeysFit (given.map fun g => (g.1.name, g.2)) := by
  constructor
  · intro g hg
    obtain ⟨own, hown, rfl⟩ := List.mem_map.1 hg
    exact ⟨own.1, hmem own hown, selects_name_iff.2 (hnone own hown)⟩
  · rw [List.pairwise_map]
    refine (List.pairwise_map.1 hnodup).imp_of_mem fun hg hh hne s hs hboth => hne ?_
    exact (hboth.1.2 _ (hmem _ hg) (Text.abbreviates_self _)).trans
      (hboth.2.2 _ (hmem _ hh) (Text.abbreviates_self _)).symm

/-- A full name that another one goes on from is refused when its turn comes. -/
theorem bindNamed_eq_ambiguous (ht : t.WellFormed) (hs : s ∈ t.slots) (hextended : t.Extended s)
    (htyped : t.Typed (args.filterMap Argument.positional?)) {before after : List (String × String)}
    {text : String} (hsplit : args.filterMap Argument.named? = before ++ (s.name, text) :: after)
    (hbefore : t.KeysFit before) :
    t.bindNamed args separator = .error (.report (.ambiguousOptionName s.name)) := by
  obtain ⟨u, hu, hne, hkey⟩ := hextended
  exact (bindNamed_eq_error_iff ht).2 <| .key htyped hsplit hbefore <|
    .ambiguous hu hs hne hkey (Text.abbreviates_self _)

theorem extended_of_ambiguous (ht : t.WellFormed)
    (h : t.bindNamed args separator = .error (.report (.ambiguousOptionName s.name))) :
    t.Extended s := by
  generalize hr : Rejection.report (.ambiguousOptionName s.name) = r at h
  cases (bindNamed_eq_error_iff ht).1 h with
  | key _ _ _ hkey =>
    cases hkey with
    | ambiguous hu hv hne hku hkv =>
      cases hr
      by_contra hnone
      have hselects := selects_name_iff.2 hnone
      exact hne ((hselects.2 _ hu hku).trans (hselects.2 _ hv hkv).symm)
    | unknown | repeated => cases hr
  | wordCount | word | missing | value => cases hr

theorem bindNamed_ne_ambiguous_iff (ht : t.WellFormed) (hs : s ∈ t.slots) :
    (∀ args, t.bindNamed args separator ≠ .error (.report (.ambiguousOptionName s.name))) ↔
      ¬ t.Extended s := by
  refine ⟨fun h hextended => ?_, fun hnone args h => hnone (extended_of_ambiguous ht h)⟩
  have hpositional : (t.words.map Argument.positional ++ [Argument.named s.name ""]).filterMap
      Argument.positional? = t.words := by
    simp [List.filterMap_append, List.filterMap_map, Function.comp_def, Argument.positional?]
  have hnamed : (t.words.map Argument.positional ++ [Argument.named s.name ""]).filterMap
      Argument.named? = [] ++ (s.name, "") :: [] := by
    simp [List.filterMap_append, List.filterMap_map, Function.comp_def, Argument.named?]
  refine h _ (bindNamed_eq_ambiguous ht hs hextended ?_ hnamed ?_)
  · rw [hpositional]
    exact typed_words
  · exact ⟨fun g hg => absurd hg List.not_mem_nil, .nil⟩

/-- The text given under the full name of a slot is the one that the slot takes. -/
theorem get?_of_named (ht : t.WellFormed) (hs : s ∈ t.slots) {text : String}
    (hmem : .named s.name text ∈ args) (h : t.bindNamed args separator = .ok b) :
    ∃ v, s.param.type.convert separator text = .ok v ∧ b.get? s.param.name = some v := by
  have hbinds := (exists_bindNamed_iff ht).1 ⟨b, h⟩
  have hnamed : (s.name, text) ∈ args.filterMap Argument.named? :=
    List.mem_filterMap.2 ⟨_, hmem, rfl⟩
  have hselects : t.Selects s s.name := by
    obtain ⟨u, hu, hkey⟩ := hbinds.keysFit.selects _ hnamed
    have hsame : s.name = u.name := hkey.2 s hs (Text.abbreviates_self _)
    exact ⟨Text.abbreviates_self _, fun v hv hkv => (hkey.2 v hv hkv).trans hsame.symm⟩
  obtain ⟨v, hv⟩ := hbinds.converts _ hnamed s hs hselects
  obtain ⟨w, hget, hgives⟩ := (assigns_of_bindNamed ht h).value s hs
  have hsame : w = v :=
    hbinds.keysFit.gives_unique ht hs hgives (.argument hnamed hselects hv)
  exact ⟨v, hv, hsame ▸ hget⟩

namespace CallsInFull

theorem mem_slots (h : t.CallsInFull args separator given) {g : Slot × String} (hg : g ∈ given) :
    g.1 ∈ t.slots :=
  h.slots_perm.mem_iff.1 (List.mem_map_of_mem hg)

theorem named_mem (h : t.CallsInFull args separator given) {text : String}
    (hg : (s, text) ∈ given) : .named s.name text ∈ args := by
  have hmem : (s.name, text) ∈ args.filterMap Argument.named? := by
    rw [h.named]
    exact List.mem_map_of_mem hg
  obtain ⟨arg, harg, hnamed⟩ := List.mem_filterMap.1 hmem
  cases arg with
  | positional token => cases hnamed
  | named key value =>
    cases hnamed
    exact harg

theorem names_nodup (ht : t.WellFormed) (h : t.CallsInFull args separator given) :
    (given.map (·.1.name)).Nodup := by
  have hperm : (given.map (·.1.name)).Perm (t.slots.map (·.name)) := by
    simpa [Function.comp_def] using h.slots_perm.map Slot.name
  exact hperm.nodup_iff.2 ht.slotNames_nodup

/-- All slots are named, so no default is needed and none is used. -/
theorem bindsByName (ht : t.WellFormed) (h : t.CallsInFull args separator given)
    (hnone : ∀ s ∈ t.slots, ¬ t.Extended s) : t.BindsByName args separator := by
  constructor
  · rw [h.words]
    exact typed_words
  · rw [h.named]
    exact keysFit_names (fun _ => h.mem_slots) (h.names_nodup ht) fun g hg =>
      hnone _ (h.mem_slots hg)
  · intro s hs
    obtain ⟨g, hg, rfl⟩ := List.mem_map.1 (h.slots_perm.mem_iff.2 hs)
    refine .inl ⟨(g.1.name, g.2), ?_, selects_name_iff.2 (hnone _ hs)⟩
    rw [h.named]
    exact List.mem_map_of_mem hg
  · rw [h.named]
    intro g hg s hs hselects
    obtain ⟨own, hown, rfl⟩ := List.mem_map.1 hg
    have hname : own.1.name = s.name := hselects.2 _ (h.mem_slots hown) (Text.abbreviates_self _)
    rw [← List.inj_on_of_nodup_map ht.slotNames_nodup (h.mem_slots hown) hs hname]
    exact h.converts own hown

end CallsInFull

/-- The first name in the call that another one goes on from. -/
theorem CallsInFull.exists_first (h : t.CallsInFull args separator given)
    (hextended : ∃ s ∈ t.slots, t.Extended s) :
    ∃ before s text after, given = before ++ (s, text) :: after ∧ s ∈ t.slots ∧
      (∀ g ∈ before, ¬ t.Extended g.1) ∧ t.Extended s := by
  obtain ⟨s, hs, hext⟩ := hextended
  obtain ⟨g, hg, rfl⟩ := List.mem_map.1 (h.slots_perm.mem_iff.2 hs)
  have hsome : (given.find? fun g => decide (t.Extended g.1)).isSome = true :=
    List.find?_isSome.2 ⟨g, hg, decide_eq_true hext⟩
  obtain ⟨⟨u, text⟩, hfirst⟩ := Option.isSome_iff_exists.1 hsome
  obtain ⟨hu, before, after, hsplit, hbefore⟩ := List.find?_eq_some_iff_append.1 hfirst
  refine ⟨before, u, text, after, hsplit, ?_, fun e he => ?_, of_decide_eq_true hu⟩
  · exact h.mem_slots (hsplit ▸ List.mem_append_right _ List.mem_cons_self)
  · simpa using hbefore e he

/-- A full name is ambiguous exactly where another name goes on from it, and else gives its slot the
value. The call that names all slots in full binds each to its own value, unless there are names
that go on from others: the first of those others is then ambiguous. -/
theorem bindNamed_full_names (ht : t.Built)
    (hnames : ∀ s ∈ t.slots, s.name ≠ "" ∧ '=' ∉ s.name.toList) (separator : Char) :
    (∀ s ∈ t.slots,
      (∀ text, Argument.ofToken (s.name ++ "=" ++ text) = .named s.name text) ∧
        ((∀ args, t.bindNamed args separator ≠
            .error (.report (.ambiguousOptionName s.name))) ↔ ¬ t.Extended s) ∧
        ∀ args text b, .named s.name text ∈ args → t.bindNamed args separator = .ok b →
          ∃ v, s.param.type.convert separator text = .ok v ∧ b.get? s.param.name = some v) ∧
      ∀ args given, t.CallsInFull args separator given →
        ((∀ s ∈ t.slots, ¬ t.Extended s) →
          ∃ b, t.bindNamed args separator = .ok b ∧ b.Assigns t fun s v =>
            ∃ text, (s, text) ∈ given ∧ s.param.type.convert separator text = .ok v) ∧
        ((∃ s ∈ t.slots, t.Extended s) →
          ∃ before s text after, given = before ++ (s, text) :: after ∧
            (∀ g ∈ before, ¬ t.Extended g.1) ∧ t.Extended s ∧
            t.bindNamed args separator = .error (.report (.ambiguousOptionName s.name))) := by
  have hwell := ht.wellFormed
  refine ⟨fun s hs => ⟨?_, bindNamed_ne_ambiguous_iff hwell hs, ?_⟩,
    fun args given h => ⟨fun hnone => ?_, fun hextended => ?_⟩⟩
  · exact Argument.ofToken_named (hnames s hs).1 (hnames s hs).2
  · exact fun args text b => get?_of_named hwell hs
  · obtain ⟨b, hb⟩ := (exists_bindNamed_iff hwell).2 (h.bindsByName hwell hnone)
    refine ⟨b, hb, fun s hs => ?_, (assigns_of_bindNamed hwell hb).mem_names⟩
    obtain ⟨⟨u, text⟩, hg, rfl⟩ := List.mem_map.1 (h.slots_perm.mem_iff.2 hs)
    obtain ⟨v, hv, hget⟩ := get?_of_named hwell hs (h.named_mem hg) hb
    exact ⟨v, hget, text, hg, hv⟩
  · obtain ⟨before, s, text, after, rfl, hs, hbefore, hext⟩ := h.exists_first hextended
    refine ⟨before, s, text, after, rfl, hbefore, hext, ?_⟩
    have hnodup := h.names_nodup hwell
    rw [List.map_append] at hnodup
    have hnamed := h.named
    rw [List.map_append, List.map_cons] at hnamed
    refine bindNamed_eq_ambiguous hwell hs hext (h.words ▸ typed_words) hnamed ?_
    exact keysFit_names (fun g hg => h.mem_slots (List.mem_append_left _ hg))
      (List.nodup_append.1 hnodup).1 hbefore

/-- Neither of two names goes on from the other, so both can be given in full. -/
theorem bindNamed_full_names_findUser :
    findUser.Built ∧ (∀ s ∈ findUser.slots, s.name ≠ "" ∧ '=' ∉ s.name.toList) ∧
      ∃ b, findUser.bindNamed
          [.named "age" "30", .positional "user", .named "name" "Bob", .positional "find"] ',' =
            .ok b ∧
        b.get? "name" = some (.scalar (.string "Bob")) ∧
        b.get? "age" = some (.scalar (.int .i32 ⟨30, by decide⟩)) := by
  have hnames : ∀ s ∈ findUser.slots, s.name ≠ "" ∧ '=' ∉ s.name.toList := by decide
  obtain ⟨hslots, hcalls⟩ := bindNamed_full_names built_findUser hnames ','
  have hcall : findUser.CallsInFull
      [.named "age" "30", .positional "user", .named "name" "Bob", .positional "find"] ','
      [(findUser.slots[1], "30"), (findUser.slots[0], "Bob")] := by
    refine ⟨rfl, rfl, .swap _ _ _, ?_⟩
    rw [List.forall_mem_cons, List.forall_mem_singleton]
    exact ⟨⟨_, rfl⟩, ⟨_, rfl⟩⟩
  obtain ⟨b, hb, -⟩ := (hcalls _ _ hcall).1 (by decide)
  obtain ⟨-, -, hname⟩ := hslots _ (List.getElem_mem (by decide : 0 < findUser.slots.length))
  obtain ⟨-, -, hage⟩ := hslots _ (List.getElem_mem (by decide : 1 < findUser.slots.length))
  obtain ⟨v, hv, hgetName⟩ := hname _ "Bob" b (hcall.named_mem (.tail _ (.head _))) hb
  obtain ⟨w, hw, hgetAge⟩ := hage _ "30" b (hcall.named_mem (.head _)) hb
  cases hv
  cases hw
  exact ⟨built_findUser, hnames, b, hb, hgetName, hgetAge⟩

end Template

/-- A command where one name goes on from another. -/
def Declaration.findAccount : Declaration where
  path := "find \x7buser\x7d \x7buser_id\x7d"
  params := [⟨"user", .one .string⟩, ⟨"user_id", .one .string⟩]

namespace Template

def findAccount : Template :=
  .ofParts "find \x7buser\x7d \x7buser_id\x7d" ""
    [⟨"user", .one .string⟩, ⟨"user_id", .one .string⟩]
    [.word "find", .slot ⟨⟨"user", .one .string⟩, "user", none, ""⟩,
      .slot ⟨⟨"user_id", .one .string⟩, "user_id", none, ""⟩]

theorem built_findAccount : findAccount.Built :=
  ⟨.findAccount, Declaration.build_of_laid (by decide) rfl (by decide) (by decide) rfl rfl rfl rfl⟩

/-- The full name of the user is ambiguous, although all is named in full and every text converts.
-/
theorem bindNamed_findAccount :
    findAccount.Built ∧ (∀ s ∈ findAccount.slots, s.name ≠ "" ∧ '=' ∉ s.name.toList) ∧
      findAccount.CallsInFull
        [.positional "find", .named "user" "Bob", .named "user_id" "7"] ','
        [(findAccount.slots[0], "Bob"), (findAccount.slots[1], "7")] ∧
      findAccount.bindNamed [.positional "find", .named "user" "Bob", .named "user_id" "7"] ',' =
        .error (.report (.ambiguousOptionName "user")) := by
  refine ⟨built_findAccount, by decide, ⟨rfl, rfl, .refl _, ?_⟩, rfl⟩
  rw [List.forall_mem_cons, List.forall_mem_singleton]
  exact ⟨⟨_, rfl⟩, ⟨_, rfl⟩⟩

end Template

end Abbrev

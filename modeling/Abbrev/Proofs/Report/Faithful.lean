import Abbrev.Proofs.Commands.Dispatch
import Abbrev.Proofs.Report.OneLine
import Abbrev.Report.Arguments

/-! A command as data. It is one line, whatever characters its path, its names and its values are
made of; and of one command, two lines are the same only when each parameter has the same value. -/

namespace Abbrev

namespace Arguments

variable {a b : Arguments} {t : Template} {r : Report}

/-- The entries in the order of their names, in which they are written. -/
def sorted (a : Arguments) : List (String × Value) := (Binding.ofList a.entries).entries

/-- A member of the object of arguments. -/
def member (e : String × Value) : List Char :=
  (Json.quote e.1).toList ++ ':' :: e.2.widen.json.text.toList

theorem map_toList_fieldTexts (es : List (String × Value)) :
    (Json.fieldTexts (es.map fun e => (e.1, e.2.widen.json))).map String.toList = es.map member := by
  rw [Json.fieldTexts_eq_map, List.map_map, List.map_map]
  exact List.map_congr_left fun e _ => by simp [member]

theorem toList_json (a : Arguments) : a.json.text.toList =
    "\x7b\"command\":".toList ++ ((Json.quote a.path).toList ++ (",\"args\":\x7b".toList ++
      ([','].intercalate (a.sorted.map member) ++ ['\x7d', '\x7d']))) := by
  have hcommand : (Json.quote "command").toList = "\"command\"".toList := rfl
  have hargs : (Json.quote "args").toList = "\"args\"".toList := rfl
  rw [json, Json.text, sorted]
  simp [Json.fieldTexts, Json.text, String.toList_intercalate, hcommand, hargs,
    map_toList_fieldTexts]

theorem report_json (hr : r.format = .json) (a : Arguments) : a.report r = a.json.text ++ "\n" := by
  simp [report, hr, unlines, String.join]

theorem isPrinted_of_mem_member {e : String × Value} :
    ∀ c ∈ member e, Json.isPrinted c = true := by
  intro c h
  rw [member, List.mem_append, List.mem_cons] at h
  rcases h with hname | rfl | hvalue
  · exact Json.isPrinted_of_mem_quote hname
  · rfl
  · exact Value.isPrinted_of_mem_text _ c hvalue

theorem isPrinted_of_mem_json {c : Char} (h : c ∈ a.json.text.toList) :
    Json.isPrinted c = true := by
  rw [toList_json] at h
  simp only [List.mem_append] at h
  rcases h with hopening | hpath | hmiddle | hmembers | hclosing
  · exact Json.isPrinted_of_mem (by decide) hopening
  · exact Json.isPrinted_of_mem_quote hpath
  · exact Json.isPrinted_of_mem (by decide) hmiddle
  · refine Json.isPrinted_of_mem_intercalate (fun s hs => ?_) hmembers
    obtain ⟨e, -, rfl⟩ := List.mem_map.1 hs
    exact isPrinted_of_mem_member
  · exact Json.isPrinted_of_mem (by decide) hclosing

/-- No value of the command has a floating-point number in it. -/
def Floatless (a : Arguments) : Prop := ∀ e ∈ a.entries, e.2.Floatless

theorem Fit.names_eq (h : a.Fit t) : a.entries.map (·.1) = t.params.map (·.name) :=
  map_eq_map_of_forall₂ (h.entries.imp fun _ _ he => he.1)

theorem Fit.names_nodup (ht : t.WellFormed) (h : a.Fit t) : (a.entries.map (·.1)).Nodup :=
  h.names_eq ▸ ht.paramNames_nodup

theorem Fit.mem_sorted (ht : t.WellFormed) (h : a.Fit t) {e : String × Value} :
    e ∈ a.sorted ↔ e ∈ a.entries := by
  have hnames : (a.sorted.map (·.1)).Nodup := Binding.names_nodup _
  rw [← Binding.get?_ofList (h.names_nodup ht)]
  exact (lookup_eq_some_iff_mem hnames).symm

/-- The entry gives a parameter a value of its type, without floating-point numbers. -/
def EntryOf (t : Template) (e : String × Value) : Prop :=
  ∃ p ∈ t.params, e.1 = p.name ∧ e.2.HasType p.type ∧ e.2.Floatless

theorem selfDelimiting_member (ht : t.WellFormed) : Json.SelfDelimiting member (EntryOf t) := by
  constructor
  · rintro e -
    exact ⟨'"', _, by rw [member, Json.toList_quote, List.cons_append], rfl⟩
  · rintro ⟨name, v⟩ ⟨other, w⟩ ⟨p, hp, rfl, hv, hvf⟩ ⟨q, hq, rfl, hw, hwf⟩ s s' hs hs' h
    simp only [member, List.append_assoc, List.cons_append] at h
    obtain ⟨hname, hvalue⟩ := Json.quote_cancel h
    obtain rfl : p = q := List.inj_on_of_nodup_map ht.paramNames_nodup hp hq hname
    rw [Value.widen_of_floatless hvf, Value.widen_of_floatless hwf] at hvalue
    obtain ⟨rfl, hrest⟩ := (Json.selfDelimiting_value p.type).cancel v w ⟨hv, hvf⟩ ⟨hw, hwf⟩ s s'
      hs hs' (List.cons.inj hvalue).2
    exact ⟨rfl, hrest⟩

theorem Fit.entryOf (ht : t.WellFormed) (h : a.Fit t) (hf : a.Floatless) :
    ∀ e ∈ a.sorted, EntryOf t e := by
  intro e he
  rw [h.mem_sorted ht] at he
  obtain ⟨p, hp, hname, htype, -⟩ := exists_of_forall₂ h.entries.flip he
  exact ⟨p, hp, hname, htype, hf e he⟩

/-- The text of a command that is known tells the values. -/
theorem Fit.json_text_eq_iff (ht : t.WellFormed) (ha : a.Fit t) (hb : b.Fit t) (haf : a.Floatless)
    (hbf : b.Floatless) : a.json.text = b.json.text ↔ a.sorted = b.sorted := by
  rw [← String.toList_inj, toList_json, toList_json, ha.path_eq, hb.path_eq]
  simp only [List.append_cancel_left_eq]
  constructor
  · intro h
    exact ((selfDelimiting_member ht).intercalate_cancel rfl (by decide) (ha.entryOf ht haf)
      (hb.entryOf ht hbf) h).1
  · intro h
    rw [h]

theorem lookup_entries (h : (a.entries.map (·.1)).Nodup) (name : String) :
    a.entries.lookup name = (Binding.ofList a.entries).get? name := by
  rw [Binding.ofList, Binding.get?_foldl_insert h, Binding.get?_empty, Option.or_none]

/-- The same entries in the order of names are the same values parameter by parameter. -/
theorem Fit.sorted_eq_iff (ht : t.WellFormed) (ha : a.Fit t) (hb : b.Fit t) :
    a.sorted = b.sorted ↔
      ∀ p ∈ t.params, a.entries.lookup p.name = b.entries.lookup p.name := by
  simp only [lookup_entries (ha.names_nodup ht), lookup_entries (hb.names_nodup ht)]
  constructor
  · intro h p _
    exact congrArg (List.lookup p.name) h
  · intro h
    have hbinding : Binding.ofList a.entries = Binding.ofList b.entries := by
      refine Binding.eq_of_get?_eq fun name => ?_
      by_cases hname : ∃ p ∈ t.params, p.name = name
      · obtain ⟨p, hp, rfl⟩ := hname
        exact h p hp
      · have hnone {c : Arguments} (hc : c.Fit t) :
            (Binding.ofList c.entries).get? name = none := by
          rw [Option.eq_none_iff_forall_ne_some]
          intro v hv
          rw [Binding.get?_ofList (hc.names_nodup ht)] at hv
          have hmem : name ∈ c.entries.map (·.1) := List.mem_map.2 ⟨_, hv, rfl⟩
          rw [hc.names_eq] at hmem
          exact hname (List.mem_map.1 hmem)
        rw [hnone ha, hnone hb]
    exact congrArg Binding.entries hbinding

/-- Every command is written as one line, and commands of one template are written with the same
bytes exactly when their values are the same. -/
theorem json_faithful (hr : r.format = .json) :
    (∀ args : Arguments, ∃ line, args.report r = line ++ "\n" ∧ '\n' ∉ line.toList) ∧
    ∀ t : Template, t.Built → ∀ a b : Arguments, a.Fit t → b.Fit t → a.Floatless → b.Floatless →
      ((a.report r).toUTF8 = (b.report r).toUTF8 ↔
        ∀ p ∈ t.params, a.entries.lookup p.name = b.entries.lookup p.name) := by
  refine ⟨fun args => ⟨args.json.text, report_json hr args, fun hmem => ?_⟩, ?_⟩
  · cases isPrinted_of_mem_json hmem
  · intro t ht a b ha hb haf hbf
    have hbytes : (a.report r).toUTF8 = (b.report r).toUTF8 ↔ a.report r = b.report r :=
      String.toByteArray_inj
    have hline : a.report r = b.report r ↔ a.json.text = b.json.text := by
      rw [report_json hr, report_json hr, ← String.toList_inj, ← String.toList_inj,
        String.toList_append, String.toList_append, List.append_cancel_right_eq]
    rw [hbytes, hline, ha.json_text_eq_iff ht.wellFormed hb haf hbf,
      ha.sorted_eq_iff ht.wellFormed hb]

/-- What is understood when a user is looked for. -/
def findUser (name : String) (age : IntKind.i32.Range) : Arguments where
  path := "user find \x7bname\x7d \x7bage\x7d"
  entries := [("name", .scalar (.string name)), ("age", .scalar (.int .i32 age))]

theorem fit_findUser (name : String) (age : IntKind.i32.Range) :
    (findUser name age).Fit .findUser :=
  ⟨rfl, .cons ⟨rfl, rfl, rfl⟩ (.cons ⟨rfl, rfl, rfl⟩ .nil)⟩

theorem floatless_findUser (name : String) (age : IntKind.i32.Range) :
    (findUser name age).Floatless := by
  simp [Floatless, findUser, Scalar.IsFloat, Scalar.kind]

/-- A line feed in a name is not written like a backslash with a letter behind it. -/
theorem json_faithful_findUser :
    Template.findUser.Built ∧ (findUser "B\nb" ⟨24, by decide⟩).Fit .findUser ∧
    (findUser "B\\nb" ⟨24, by decide⟩).Fit .findUser ∧
    (findUser "B\nb" ⟨24, by decide⟩).Floatless ∧ (findUser "B\\nb" ⟨24, by decide⟩).Floatless ∧
    ((findUser "B\nb" ⟨24, by decide⟩).report { format := .json }).toUTF8 ≠
      ((findUser "B\\nb" ⟨24, by decide⟩).report { format := .json }).toUTF8 := by
  refine ⟨Template.built_findUser, fit_findUser _ _, fit_findUser _ _, floatless_findUser _ _,
    floatless_findUser _ _, fun heq => ?_⟩
  have hvalues := ((json_faithful rfl).2 .findUser Template.built_findUser _ _ (fit_findUser _ _)
    (fit_findUser _ _) (floatless_findUser _ _) (floatless_findUser _ _)).1 heq
  have hname := hvalues ⟨"name", .one .string⟩ (by decide)
  simp [findUser] at hname

end Arguments

end Abbrev

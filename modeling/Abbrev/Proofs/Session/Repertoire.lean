import Abbrev.Proofs.Commands.Registration
import Abbrev.Proofs.Template.WellFormed
import Abbrev.Session.Repertoire

/-! The commands that a session has: its own, always the same five in the same places, and behind
them those of the manifest, one for each entry and in the order of the entries. All come from
declarations, and all paths differ. -/

namespace Abbrev

namespace Template

/-- A command of one word that takes no arguments. -/
def ofWord (word help : String) : Template :=
  .ofParts word help [] [.word word]

def userFind : Template :=
  .ofParts "user find \x7bname\x7d \x7bage\x7d" "Command to search for a user by name and age"
    [⟨"user_name", .string⟩, ⟨"age", .one (.int .i32)⟩]
    [.word "user", .word "find",
      .slot ⟨⟨"user_name", .string⟩, "name", none, "User name. Case sensitive."⟩,
      .slot ⟨⟨"age", .one (.int .i32)⟩, "age",
        (IntKind.i32.inRange? 24).map (.scalar <| .int .i32 ·),
        "User age. The maximum value is 90 years."⟩]

def productCounts : Template :=
  .ofParts "product counts \x7bcounts\x7d \x7bprices\x7d" "Pair product counts with their prices"
    [⟨"counts", .many (.int .i32)⟩, ⟨"prices", .many (.float .f64)⟩]
    [.word "product", .word "counts",
      .slot ⟨⟨"counts", .many (.int .i32)⟩, "counts", none, ""⟩,
      .slot ⟨⟨"prices", .many (.float .f64)⟩, "prices", none, ""⟩]

end Template

namespace Commands

variable {σ : Type} {c c' : Commands σ}

theorem paths_catalog_append (c : Commands σ) (commands : List (Command σ)) :
    (⟨c.list ++ commands⟩ : Commands σ).catalog.paths =
      c.catalog.paths ++ commands.map (·.template.path) := by
  simp [Catalog.paths, catalog]

/-- Templates registered with one handler stand behind what was there; nothing else can prevent it
than a path that is taken. -/
theorem foldlM_register_eq_ok {ts : List Template} {h : Handler σ} (hc : c.catalog.paths.Nodup) :
    ts.foldlM (fun c t => c.register t h) c = .ok c' ↔
      (c.catalog.paths ++ ts.map (·.path)).Nodup ∧ c' = ⟨c.list ++ ts.map (⟨·, h⟩)⟩ := by
  induction ts generalizing c with
  | nil =>
    rw [List.foldlM_nil, pure_eq_ok, List.map_nil, List.map_nil, List.append_nil, List.append_nil]
    simp [hc, eq_comm]
  | cons t ts ih =>
    have hpaths := paths_catalog_append c [⟨t, h⟩]
    rw [List.map_singleton] at hpaths
    rw [List.foldlM_cons, bind_eq_ok]
    simp only [register_eq_ok]
    constructor
    · rintro ⟨_, ⟨hfresh, rfl⟩, hrest⟩
      have hnext : (c.catalog.paths ++ [t.path]).Nodup :=
        List.nodup_append_comm.2 (List.nodup_cons.2 ⟨hfresh, hc⟩)
      rw [ih (hpaths ▸ hnext), hpaths] at hrest
      simpa using hrest
    · rintro ⟨hnodup, rfl⟩
      rw [List.map_cons, List.append_cons] at hnodup
      have hnext := hnodup.of_append_left
      refine ⟨_, ⟨fun hmem => ?_, rfl⟩, ?_⟩
      · exact List.disjoint_of_nodup_append hnext hmem (List.mem_singleton_self _)
      · rw [ih (hpaths ▸ hnext), hpaths]
        exact ⟨hnodup, by simp⟩

end Commands

theorem Manifest.exists_entry_of_templates {m : Manifest} {separator : Char} {ts : List Template}
    (h : m.templates separator = .ok ts) {t : Template} (ht : t ∈ ts) :
    ∃ e ∈ m.commands, e.template separator = .ok t :=
  exists_of_forall₂ (mapM_eq_ok.1 h).flip ht

theorem Manifest.exists_template_of_templates {m : Manifest} {separator : Char}
    {ts : List Template} (h : m.templates separator = .ok ts) {e : CommandEntry}
    (he : e ∈ m.commands) : ∃ t ∈ ts, e.template separator = .ok t :=
  exists_of_forall₂ (mapM_eq_ok.1 h) he

theorem CommandEntry.built_of_template {e : CommandEntry} {separator : Char} {t : Template}
    (h : e.template separator = .ok t) : t.Built := by
  obtain ⟨d, -, hd⟩ := bind_eq_ok.1 h
  exact ⟨d, hd⟩

namespace Session

/-- The templates that every session has. -/
def ownTemplates : List Template := [
  .ofWord "prompt" "To enter commands from console",
  .ofWord "exit" "To exit from console",
  .ofWord "help" "Describe every command",
  .userFind,
  .productCounts]

def ownCommands (r : Report) : List (Command Session) := [
  ⟨.ofWord "prompt" "To enter commands from console", enterPrompt⟩,
  ⟨.ofWord "exit" "To exit from console", leave⟩,
  ⟨.ofWord "help" "Describe every command", describeAll⟩,
  ⟨.userFind, answering r findUser⟩,
  ⟨.productCounts, answering r countProducts⟩]

theorem build_userFind (separator : Char) : (userFind separator).build = .ok .userFind := by
  have hsame : (userFind separator).build = (userFind ',').build := rfl
  rw [hsame]
  exact Declaration.build_of_laid (by decide) rfl (by decide) (by decide) rfl rfl rfl rfl

theorem build_productCounts (separator : Char) :
    (productCounts separator).build = .ok .productCounts := by
  have hsame : (productCounts separator).build = (productCounts ',').build := rfl
  rw [hsame]
  exact Declaration.build_of_laid (by decide) rfl (by decide) (by decide) rfl rfl rfl rfl

theorem own_eq_ok (r : Report) : own r = .ok ⟨ownCommands r⟩ := by
  simp only [own, samples, steering, List.cons_append, List.nil_append, List.foldlM_cons,
    List.foldlM_nil, build_userFind, build_productCounts]
  rfl

theorem built_of_mem_ownTemplates {t : Template} (h : t ∈ ownTemplates) : t.Built := by
  simp only [ownTemplates, List.mem_cons, List.not_mem_nil, or_false] at h
  rcases h with rfl | rfl | rfl | rfl | rfl
  · exact ⟨⟨"prompt", "To enter commands from console", [], [], ','⟩, rfl⟩
  · exact ⟨⟨"exit", "To exit from console", [], [], ','⟩, rfl⟩
  · exact ⟨⟨"help", "Describe every command", [], [], ','⟩, rfl⟩
  · exact ⟨_, build_userFind ','⟩
  · exact ⟨_, build_productCounts ','⟩

variable {r : Report} {m : Manifest} {c : Commands Session}

/-- The manifest's commands stand behind the session's own, each with a path that no other has. -/
theorem repertoire_eq_ok :
    repertoire r (some m) = .ok c ↔ ∃ declared, m.templates r.separator = .ok declared ∧
      ((ownTemplates ++ declared).map (·.path)).Nodup ∧
      c = ⟨ownCommands r ++ declared.map (⟨·, echo r⟩)⟩ := by
  have hown : (⟨ownCommands r⟩ : Commands Session).catalog.paths = ownTemplates.map (·.path) := rfl
  have hnodup : (⟨ownCommands r⟩ : Commands Session).catalog.paths.Nodup := by
    rw [hown]
    decide
  simp only [repertoire, own_eq_ok, bind_eq_ok, Except.ok.injEq, exists_eq_left',
    Commands.foldlM_register_eq_ok hnodup, hown, List.map_append]

theorem list_of_repertoire (h : repertoire r (some m) = .ok c) :
    ∃ declared, m.templates r.separator = .ok declared ∧
      c.list = ownCommands r ++ declared.map (⟨·, echo r⟩) := by
  obtain ⟨declared, hdeclared, -, rfl⟩ := repertoire_eq_ok.1 h
  exact ⟨declared, hdeclared, rfl⟩

theorem templates_of_repertoire (h : repertoire r (some m) = .ok c) :
    ∃ declared, m.templates r.separator = .ok declared ∧
      c.catalog.templates = ownTemplates ++ declared := by
  obtain ⟨declared, hdeclared, hlist⟩ := list_of_repertoire h
  refine ⟨declared, hdeclared, ?_⟩
  rw [Commands.catalog, hlist, List.map_append, List.map_map]
  exact congrArg (ownTemplates ++ ·) (List.map_id declared)

theorem built_of_repertoire (h : repertoire r (some m) = .ok c) :
    ∀ t ∈ c.catalog.templates, t.Built := by
  obtain ⟨declared, hdeclared, htemplates⟩ := templates_of_repertoire h
  intro t ht
  rw [htemplates, List.mem_append] at ht
  rcases ht with ht | ht
  · exact built_of_mem_ownTemplates ht
  · obtain ⟨e, -, he⟩ := Manifest.exists_entry_of_templates hdeclared ht
    exact CommandEntry.built_of_template he

end Session

end Abbrev

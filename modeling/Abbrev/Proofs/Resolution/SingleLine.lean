import Abbrev.Proofs.Line.Spans
import Abbrev.Proofs.Template.WellFormed
import Abbrev.Resolution

/-! A text that has one line, with line breaks in front of it and behind it. Resolved line by line
the text comes to what its line comes to. Resolved as it stands it comes to the same, except where
the line leaves a span open: then the last token takes the line breaks behind the line with it. -/

namespace Abbrev

theorem Line.ofText_congr {text text' : String}
    (h : Lexer.tokens text.toList = Lexer.tokens text'.toList) (sigil : Char) :
    ofText sigil text = ofText sigil text' := by
  rw [ofText, ofText, h]

namespace Catalog

variable (c : Catalog) (s : Settings) {text line : String} {σ : Type} (chooser : Chooser σ)

/-- A catalog sees no more of a text than how many lines it has, its tokens, and what is left of it
without the white space at its ends. -/
theorem read_congr (hlines : (Text.lines text).length = (Text.lines line).length)
    (htokens : Lexer.tokens text.toList = Lexer.tokens line.toList)
    (htrim : Text.trim text = Text.trim line) : c.read s text = c.read s line := by
  simp only [read, meanings, hlines, Line.ofText_congr htokens, htrim]

theorem resolveAll_of_lines (h : Text.lines text = [line]) :
    c.resolveAll s chooser text = List.singleton <$> c.resolve s chooser line := by
  rw [resolveAll, h, List.mapM_cons, List.mapM_nil]
  rfl

/-- A text of one line comes, line by line, to what its line comes to. As it stands it comes to the
same unless line breaks stand behind a span that nothing closes: they belong to the last token. -/
theorem resolveAll_of_single_line (h : Text.lines text = [line]) :
    c.resolveAll s chooser text = List.singleton <$> c.resolve s chooser line ∧
      ∃ before after, text.toList = before ++ line.toList ++ after ∧
        (∀ b ∈ before, Text.isLineBreak b = true) ∧ (∀ b ∈ after, Text.isLineBreak b = true) ∧
        (after = [] ∨ Lexer.endsOpen line.toList = false →
          c.resolveAll s chooser text = List.singleton <$> c.resolve s chooser text) ∧
        (after ≠ [] → Lexer.endsOpen line.toList = true → ∃ front begun,
          Lexer.tokens line.toList = front ++ (if begun.isEmpty then [] else [begun]) ∧
            Lexer.tokens text.toList = front ++ [begun ++ after]) := by
  have hall := c.resolveAll_of_lines s chooser h
  obtain ⟨before, after, htext, hbefore, hafter⟩ := Text.exists_breaks_of_lines_eq_singleton h
  have hbefore' : ∀ b ∈ before, Text.isBlank b = true := fun b hb =>
    Text.isBlank_of_isLineBreak (hbefore b hb)
  have hafter' : ∀ b ∈ after, Text.isBlank b = true := fun b hb =>
    Text.isBlank_of_isLineBreak (hafter b hb)
  -- What stands in front never matters; what stands behind is taken up by the two cases.
  have hfront : Lexer.tokens text.toList = Lexer.tokens (line.toList ++ after) := by
    rw [htext, List.append_assoc, Lexer.tokens_blanks_append hbefore']
  refine ⟨hall, before, after, htext, hbefore, hafter, fun hclosed => ?_, fun hne hopen => ?_⟩
  · have htokens : Lexer.tokens text.toList = Lexer.tokens line.toList := by
      rw [hfront]
      obtain rfl | hclosed := hclosed
      · rw [List.append_nil]
      · exact Lexer.tokens_append_blanks hafter' hclosed
    have hlines : Text.lines line = [line] :=
      Text.lines_of_mem_lines (h ▸ List.mem_singleton_self _)
    have hread : c.read s text = c.read s line :=
      c.read_congr s (by rw [h, hlines]) htokens (Text.trim_eq_of_surrounded htext hbefore' hafter')
    rw [hall, resolve, resolve, hread]
  · obtain ⟨front, begun, hline, hbroken⟩ := Lexer.exists_tokens_append_blanks hafter' hne hopen
    exact ⟨front, begun, hline, hfront.trans hbroken⟩

/-- A line that leaves no span open, with line breaks of both kinds around it. -/
theorem resolveAll_findUser :
    Text.lines "\nu f \"Bob\" 3\r\n" = ["u f \"Bob\" 3"] ∧
      resolveAll ⟨[.listUsers, .findUser]⟩ {} (@Chooser.refuse Unit) "\nu f \"Bob\" 3\r\n" =
        List.singleton <$>
          resolve ⟨[.listUsers, .findUser]⟩ {} Chooser.refuse "\nu f \"Bob\" 3\r\n" := by
  have hlines : Text.lines "\nu f \"Bob\" 3\r\n" = ["u f \"Bob\" 3"] := by decide
  obtain ⟨-, before, after, -, -, -, hclosed, -⟩ :=
    resolveAll_of_single_line ⟨[.listUsers, .findUser]⟩ {} (@Chooser.refuse Unit) hlines
  exact ⟨hlines, hclosed (.inr (by decide))⟩

/-- The second of two commands with its values. -/
def foundUser (name : String) (age : Value) : Match :=
  ⟨1, .findUser, .ofList [("name", .scalar (.string name)), ("age", age)]⟩

/-- Behind a span that nothing closes a line break is a part of the value, and only the text that is
not taken apart into lines has one there. -/
theorem not_resolveAll_eq_singleton_resolve :
    ¬ ∀ (c : Catalog) (s : Settings) (text line : String), (∀ t ∈ c.templates, t.Built) →
      Text.lines text = [line] →
      c.resolveAll s (@Chooser.refuse Unit) text =
        List.singleton <$> c.resolve s Chooser.refuse text := by
  intro h
  have hbuilt : ∀ t ∈ [Template.listUsers, .findUser], t.Built := by
    simp [Template.built_listUsers, Template.built_findUser]
  have hlines : Text.lines "u f n=\"Bob\n" = ["u f n=\"Bob"] := by decide
  have hsame := h ⟨[.listUsers, .findUser]⟩ {} _ _ hbuilt hlines
  have hline : resolve ⟨[.listUsers, .findUser]⟩ {} (@Chooser.refuse Unit) "u f n=\"Bob" =
      pure (.ok (.matched (foundUser "Bob" (.scalar (.int .i32 ⟨24, by decide⟩))))) := rfl
  have htext : resolve ⟨[.listUsers, .findUser]⟩ {} (@Chooser.refuse Unit) "u f n=\"Bob\n" =
      pure (.ok (.matched (foundUser "Bob\n" (.scalar (.int .i32 ⟨24, by decide⟩))))) := rfl
  rw [resolveAll_of_lines _ _ _ hlines, hline, htext, map_pure, map_pure] at hsame
  have hfound : foundUser "Bob" _ = foundUser "Bob\n" _ :=
    Resolution.matched.inj (Except.ok.inj (List.head_eq_of_cons_eq
      (congrArg Prod.fst (congrFun hsame ()))))
  have hname : some (Value.scalar (.string "Bob")) = some (.scalar (.string "Bob\n")) :=
    congrArg (fun m => m.binding.get? "name") hfound
  simp at hname

end Catalog

end Abbrev

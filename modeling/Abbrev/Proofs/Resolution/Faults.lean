import Abbrev.Proofs.Commands.Running

/-! The faults with which one line can fail to be resolved: they lie in what was typed. Where nobody
is asked, no other fault can come of resolving a line. -/

namespace Abbrev

namespace Fault

/-- A fault of one line that was typed. That there are several lines is none. -/
def OfLine : Fault → Prop
  | .multipleLines _ => False
  | f => f.stage = .resolve

theorem OfArguments.ofLine {f : Fault} (h : f.OfArguments) : f.OfLine := by
  cases h <;> rfl

theorem OfLine.category {f : Fault} (h : f.OfLine) :
    Category.ofFault f = .usage ∨ Category.ofFault f = .notFound ∨
      Category.ofFault f = .ambiguous := by
  cases f with
  | emptyCommand => exact .inl rfl
  | multipleLines count => exact h.elim
  | commandNotFound text => exact .inr (.inl rfl)
  | tooManyArguments => exact .inl rfl
  | incorrectArgumentType option expected => exact .inl rfl
  | ambiguousOptionName key => exact .inr (.inr rfl)
  | duplicateOption name => exact .inl rfl
  | requiredOptionMissing name => exact .inl rfl
  | ambiguousCommand labels => exact .inr (.inr rfl)
  | tooAmbiguous count => exact .inr (.inr rfl)
  | _ => cases h

end Fault

namespace Catalog

variable {c : Catalog} {s : Settings} {text : String}

theorem failsOnly_helpOn (c : Catalog) (first : Option String) :
    FailsOnly Fault.OfLine (c.helpOn first) := by
  cases first with
  | none => exact .ok _
  | some first =>
    rw [helpOn]
    split
    · exact .error rfl
    · exact .ok _

theorem failsOnly_read (hsingle : (Text.lines text).length ≤ 1) :
    FailsOnly Fault.OfLine (c.read s text) := by
  cases hhelp : (Line.ofText s.sigil text).help with
  | true =>
    rw [read_of_help hsingle hhelp]
    exact (c.failsOnly_helpOn _).map _
  | false =>
    cases htokens : (Line.ofText s.sigil text).tokens with
    | nil =>
      simp only [read, Nat.not_lt.2 hsingle, if_false, htokens, hhelp]
      exact .error rfl
    | cons first rest =>
      rw [read_of_tokens hsingle hhelp htokens]
      split
      · exact .error rfl
      · split
        · exact .error rfl
        · refine fun f hf => (failsOnly_meanings _ _ _ _ f hf).elim Fault.OfArguments.ofLine ?_
          rintro rfl
          rfl

theorem failsOnly_unasked (reading : Reading) : FailsOnly Fault.OfLine reading.unasked := by
  rcases reading with ids | ⟨m, _ | ⟨n, ms⟩⟩
  · exact .ok _
  · exact .ok _
  · exact .error rfl

/-- A chooser that refuses names the meanings, and that too is a fault of the line. -/
theorem failsOnly_resolve_refuse (hsingle : (Text.lines text).length ≤ 1) {σ : Type} (st : σ) :
    FailsOnly Fault.OfLine ((c.resolve s Chooser.refuse text).run st).1 := by
  by_cases hasks : c.Asks s text
  · rw [resolve_of_asks hasks]
    exact .error rfl
  · rw [resolve_of_not_asks hasks]
    exact (failsOnly_read hsingle).bind failsOnly_unasked

end Catalog

end Abbrev

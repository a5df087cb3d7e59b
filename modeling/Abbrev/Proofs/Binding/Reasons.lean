import Abbrev.Resolution
import Abbrev.Proofs.Failing

/-! What a template that a line does not bind has to report. It is always about the arguments: one
by place is of another type, or a key is ambiguous or given twice, or a slot has no value. -/

namespace Abbrev

/-- The faults that the arguments of a line may have for one template. -/
inductive Fault.OfArguments : Fault → Prop
  | incorrectType (option : String) (expected : ParamType) :
    OfArguments (.incorrectArgumentType option expected)
  | ambiguousKey (key : String) : OfArguments (.ambiguousOptionName key)
  | duplicate (name : String) : OfArguments (.duplicateOption name)
  | missing (name : String) : OfArguments (.requiredOptionMissing name)

/-- A reason that is silent or tells a fault of the arguments. -/
def Rejection.OfArguments (r : Rejection) : Prop := ∀ f ∈ r.fault?, f.OfArguments

namespace Rejection

theorem ofArguments_silent (reason : Mismatch) : (silent reason).OfArguments := by
  rintro f ⟨⟩

theorem ofArguments_report {f : Fault} (h : f.OfArguments) : (report f).OfArguments := by
  rintro f' ⟨⟩
  exact h

end Rejection

open Rejection

namespace Supply

theorem failsOnly_give (supplies : List Supply) (key text : String) :
    FailsOnly OfArguments (give supplies key text) := by
  unfold give
  split
  · exact .error (ofArguments_silent _)
  · exact .ok _
  · exact .error (ofArguments_report (.duplicate _))
  · exact .error (ofArguments_report (.ambiguousKey _))

theorem failsOnly_value (separator : Char) (u : Supply) :
    FailsOnly OfArguments (value separator u) := by
  unfold value
  split
  · split
    · exact .ok _
    · exact .error (ofArguments_silent _)
  · exact .ok _
  · exact .error (ofArguments_report (.missing _))

end Supply

namespace Template

theorem failsOnly_fill (separator : Char) (parts : List Part) (tokens : List String) :
    FailsOnly OfArguments (fill separator parts tokens) := by
  induction parts generalizing tokens with
  | nil => exact .ok []
  | cons part parts ih =>
    obtain _ | ⟨token, tokens⟩ := tokens
    · cases part <;> exact .ok []
    · cases part with
      | word w =>
        rw [fill]
        split
        · exact ih tokens
        · exact .error (ofArguments_silent _)
      | slot s =>
        rw [fill]
        split
        · exact .error (ofArguments_report (.incorrectType _ _))
        · exact (ih tokens).bind fun rest => .ok _

theorem failsOnly_bindPositional (t : Template) (tokens : List String) (separator : Char) :
    FailsOnly OfArguments (t.bindPositional tokens separator) := by
  unfold bindPositional
  split
  · exact (failsOnly_fill separator t.parts tokens).map _
  · split
    · split
      · exact .ok _
      · exact .error (ofArguments_silent _)
    · exact .error (ofArguments_silent _)

theorem failsOnly_bindNamed (t : Template) (args : List Argument) (separator : Char) :
    FailsOnly OfArguments (t.bindNamed args separator) := by
  have hgive := FailsOnly.foldlM (P := OfArguments)
    (fun supplies (g : String × String) => Supply.failsOnly_give supplies g.1 g.2)
    (t.slots.map (·, none)) (args.filterMap Argument.named?)
  dsimp only [bindNamed]
  split
  · exact .error (ofArguments_silent _)
  · split
    · refine hgive.bind fun supplies => ?_
      split
      · exact .error (ofArguments_report (.missing _))
      · have hvalues := FailsOnly.mapM fun u (_ : u ∈ supplies) => Supply.failsOnly_value separator u
        exact hvalues.bind fun es => .ok _
    · exact .error (ofArguments_silent _)

/-- Why a template does not bind is told in terms of the arguments, or not at all. -/
theorem failsOnly_bind (t : Template) (tokens : List String) (separator : Char) :
    FailsOnly OfArguments (t.bind tokens separator) := by
  simp only [bind]
  split
  · exact failsOnly_bindNamed t _ separator
  · exact failsOnly_bindPositional t tokens separator

end Template

end Abbrev

import Abbrev.Argument
import Abbrev.Binding
import Abbrev.Binding.Rejection
import Abbrev.Conversion
import Abbrev.Template

/-! Binding by name: the arguments given by place are the words of the path, and each other argument
names a slot by a beginning of its name. Slots that no argument names take their defaults. -/

namespace Abbrev

/-- A slot and the text given for it, if any. -/
abbrev Supply := Slot × Option String

namespace Supply

/-- Gives a text to the one slot whose name the key abbreviates. -/
def give (supplies : List Supply) (key text : String) : Except Rejection (List Supply) :=
  match supplies.filter fun s => Text.abbreviates key s.1.name with
  | [] => .error (.silent .key)
  | [(_, none)] => .ok <| supplies.map fun s =>
    if Text.abbreviates key s.1.name then (s.1, some text) else s
  | [(slot, some _)] => .error (.report (.duplicateOption slot.name))
  | _ => .error (.report (.ambiguousOptionName key))

def giveAll (supplies : List Supply) (named : List (String × String)) :
    Except Rejection (List Supply) :=
  named.foldlM (fun s (key, text) => give s key text) supplies

/-- The first slot without a text and without a default. -/
def missing? (supplies : List Supply) : Option Slot :=
  (supplies.find? fun s => s.2.isNone && s.1.default.isNone).map (·.1)

def value (separator : Char) (s : Supply) : Except Rejection (String × Value) :=
  match s.2, s.1.default with
  | some text, _ => match s.1.param.type.convert separator text with
    | .ok v => .ok (s.1.param.name, v)
    | .error _ => .error (.silent .value)
  | none, some v => .ok (s.1.param.name, v)
  | none, none => .error (.report (.requiredOptionMissing s.1.name))

end Supply

namespace Template

def bindNamed (t : Template) (args : List Argument) (separator : Char) :
    Except Rejection Binding := do
  let positional := args.filterMap Argument.positional?
  if positional.length ≠ t.wordCount then throw (.silent .wordCount)
  unless Text.abbreviateAll positional t.words do throw (.silent .word)
  let supplies ← Supply.giveAll (t.slots.map (·, none)) (args.filterMap Argument.named?)
  if let some slot := Supply.missing? supplies then
    throw (.report (.requiredOptionMissing slot.name))
  let entries ← supplies.mapM (Supply.value separator)
  pure (Binding.ofList entries)

end Template

end Abbrev

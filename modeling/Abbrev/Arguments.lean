import Abbrev.Resolution

/-! The arguments that a handler receives: a match's values in the order in which its parameters
were declared. -/

namespace Abbrev

structure Arguments where
  path : String
  entries : List (String × Value)

namespace Arguments

/-- Asks for exactly one value per parameter. The first parameter without a value is reported, or
else the first value without a parameter. -/
def ofMatch (m : Match) : Except Fault Arguments := do
  let entries ← m.template.params.mapM fun p =>
    match m.binding.get? p.name with
    | some v => .ok (p.name, v)
    | none => .error (.incompleteBinding m.template.path p.name)
  match m.binding.names.find? fun n => (m.template.param? n).isNone with
  | some extra => .error (.incompleteBinding m.template.path extra)
  | none => .ok ⟨m.template.path, entries⟩

def size (a : Arguments) : Nat := a.entries.length

def values (a : Arguments) : List Value := a.entries.map (·.2)

def ofShape (wanted : Shape) (v : Value) : Except Fault Value :=
  if wanted.admits v then .ok v else .error (.mismatch v wanted)

/-- The value at a place, if it has the wanted shape. -/
def getAt (a : Arguments) (wanted : Shape) (i : Nat) : Except Fault Value :=
  match a.values[i]? with
  | some v => ofShape wanted v
  | none => .error (.incompleteBinding a.path s!"#{i}")

/-- The value of a name, if it has the wanted shape. -/
def get (a : Arguments) (wanted : Shape) (name : String) : Except Fault Value :=
  match a.entries.lookup name with
  | some v => ofShape wanted v
  | none => .error (.incompleteBinding a.path name)

end Arguments

end Abbrev
